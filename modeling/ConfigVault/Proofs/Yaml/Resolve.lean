import ConfigVault.Number.Shortest
import ConfigVault.Proofs.Yaml.Style

/-! # Numbers as words

Numbers are written with digits, points, signs and an exponent mark, and begin with a digit or a
minus sign in front of one.  So they are words (`isWord_int`, `isWord_float`), which plain style
holds, and the reader takes them apart where they were put together.
-/
namespace ConfigVault.Yaml

open Style

/-! ## Digits -/

theorem isAlphanum_of_isDigit {c : Char} (h : c.isDigit) : c.isAlphanum := by
  simp [Char.isAlphanum, h]

theorem isWordChar_of_isDigit {c : Char} (h : c.isDigit) : isWordChar c := by
  simp [isWordChar, isAlphanum_of_isDigit h]

theorem isDigit_of_mem_repr {n : Nat} {c : Char} (h : c ∈ (Nat.repr n).toList) : c.isDigit := by
  rw [Nat.toList_repr] at h
  exact Nat.isDigit_of_mem_toDigits (by decide) (by decide) h

theorem repr_ne_nil (n : Nat) : (Nat.repr n).toList ≠ [] := by
  rw [Nat.toList_repr]
  exact Nat.toDigits_ne_nil

/-- The digits of a number, with the first one apart. -/
theorem repr_eq_cons (n : Nat) : ∃ c cs, (Nat.repr n).toList = c :: cs ∧ c.isDigit ∧
    ∀ d ∈ cs, d.isDigit := by
  obtain ⟨c, cs, h⟩ := List.exists_cons_of_ne_nil (repr_ne_nil n)
  exact ⟨c, cs, h, isDigit_of_mem_repr (by rw [h]; simp),
    fun d hd => isDigit_of_mem_repr (by rw [h]; simp [hd])⟩

/-- An integer is written with its digits, behind a minus sign if it is negative. -/
theorem toString_int (i : Int) :
    (toString i).toList = (if i < 0 then ['-'] else []) ++ (Nat.repr i.natAbs).toList := by
  rw [Int.toString_eq_repr, Int.repr_eq_if]
  by_cases h : 0 ≤ i
  · rw [if_pos h, if_neg (by omega), show i.toNat = i.natAbs from by omega]
    rfl
  · rw [if_neg h, if_pos (by omega), show (-i).toNat = i.natAbs from by omega, String.toList_append]
    rfl

/-! ## Words -/

/-- A word without a minus sign in front. -/
def isUnsignedWord (cs : List Char) : Bool :=
  cs.all isWordChar && cs.head?.any Char.isAlphanum

theorem isWord_of_unsigned {cs : List Char} (h : isUnsignedWord cs) (negative : Bool) :
    isWord ((if negative then ['-'] else []) ++ cs) := by
  obtain ⟨hall, hhead⟩ := Bool.and_eq_true_iff.mp h
  cases cs with
  | nil => cases hhead
  | cons c cs =>
    have hc : c.isAlphanum := hhead
    cases negative with
    | true =>
      have hminus : isWordChar '-' = true := rfl
      simp only [if_true, isWord, List.singleton_append, List.all_cons, hminus, Bool.true_and, hc,
        Bool.and_true]
      exact hall
    | false =>
      have hne : c ≠ '-' := by rintro rfl; cases hc
      simp only [Bool.false_eq_true, if_false, List.nil_append, isWord, hall, Bool.true_and]
      split
      · rename_i heq; exact absurd (List.cons.inj heq).1 hne
      · rename_i heq; rw [← (List.cons.inj heq).1]; exact hc
      · rename_i heq; cases heq

theorem isUnsignedWord_append {cs ds : List Char} (h : isUnsignedWord cs)
    (hds : ∀ d ∈ ds, isWordChar d) : isUnsignedWord (cs ++ ds) := by
  obtain ⟨hall, hhead⟩ := Bool.and_eq_true_iff.mp h
  cases cs with
  | nil => cases hhead
  | cons c cs =>
    simp only [isUnsignedWord, List.all_append, hall, Bool.true_and, Bool.and_eq_true]
    exact ⟨List.all_eq_true.mpr hds, hhead⟩

theorem isUnsignedWord_digits {c : Char} {cs : List Char} (hc : c.isDigit)
    (h : ∀ d ∈ cs, d.isDigit) : isUnsignedWord (c :: cs) := by
  simp only [isUnsignedWord, List.all_cons, isWordChar_of_isDigit hc, Bool.true_and,
    List.head?_cons, Option.any_some, isAlphanum_of_isDigit hc, Bool.and_true]
  exact List.all_eq_true.mpr fun d hd => isWordChar_of_isDigit (h d hd)

theorem isUnsignedWord_repr (n : Nat) : isUnsignedWord (Nat.repr n).toList := by
  obtain ⟨c, cs, h, hc, hcs⟩ := repr_eq_cons n
  rw [h]
  exact isUnsignedWord_digits hc hcs

/-- **Integers are words.** -/
theorem isWord_int (i : Int) : isWord (toString i).toList := by
  have h := isWord_of_unsigned (isUnsignedWord_repr i.natAbs) (decide (i < 0))
  rw [toString_int]
  by_cases hi : i < 0
  · rw [if_pos hi]
    rwa [if_pos (decide_eq_true hi)] at h
  · rw [if_neg hi]
    rwa [if_neg (by simpa using hi)] at h

theorem isDigit_of_mem_zeros {n : Nat} {c : Char} (h : c ∈ Binary64.zeros n) : c.isDigit := by
  rw [List.eq_of_mem_replicate h]; rfl

open Binary64 in
/-- Digits with a point in them begin with a digit. -/
theorem isUnsignedWord_positional {c : Char} {cs : List Char} (hc : c.isDigit)
    (h : ∀ d ∈ cs, d.isDigit) (e : Int) : isUnsignedWord (positional (c :: cs) e) := by
  unfold positional
  extract_lets point
  split
  case isTrue he =>
    rw [List.append_assoc]
    refine isUnsignedWord_append (isUnsignedWord_digits hc h) fun d hd => ?_
    rcases List.mem_append.mp hd with hd | hd
    · exact isWordChar_of_isDigit (isDigit_of_mem_zeros hd)
    · rcases List.mem_cons.mp hd with rfl | hd
      · rfl
      · rw [List.mem_singleton.mp hd]; rfl
  case isFalse he =>
    split
    case isTrue hp =>
      obtain ⟨n, hn⟩ : ∃ n, point.toNat = n + 1 := ⟨point.toNat - 1, by omega⟩
      rw [hn, List.take_succ_cons, List.drop_succ_cons]
      refine isUnsignedWord_append
        (isUnsignedWord_digits hc fun d hd => h d (List.mem_of_mem_take hd)) fun d hd => ?_
      rcases List.mem_cons.mp hd with rfl | hd
      · rfl
      · exact isWordChar_of_isDigit (h d (List.mem_of_mem_drop hd))
    case isFalse hp =>
      refine @isUnsignedWord_append ('0' :: '.' :: zeros _) _ ?_ fun d hd => ?_
      · refine @isUnsignedWord_append ['0'] _ rfl fun d hd => ?_
        rcases List.mem_cons.mp hd with rfl | hd
        · rfl
        · exact isWordChar_of_isDigit (isDigit_of_mem_zeros hd)
      · rcases List.mem_cons.mp hd with rfl | hd
        · exact isWordChar_of_isDigit hc
        · exact isWordChar_of_isDigit (h d hd)

open Binary64 in
/-- Digits with an exponent begin with a digit. -/
theorem isUnsignedWord_scientific (plus : Bool) {c : Char} {cs : List Char} (hc : c.isDigit)
    (h : ∀ d ∈ cs, d.isDigit) (e : Int) : isUnsignedWord (scientific plus (c :: cs) e) := by
  have hexp (n : Int) : ∀ d ∈ 'e' :: ((if plus && 0 ≤ n then ['+'] else []) ++ (toString n).toList),
      isWordChar d := by
    intro d hd
    rcases List.mem_cons.mp hd with rfl | hd
    · rfl
    · rcases List.mem_append.mp hd with hd | hd
      · split at hd
        · rw [List.mem_singleton.mp hd]; rfl
        · cases hd
      · exact isWordChar_of_mem (isWord_int _) d hd
  unfold scientific
  cases cs with
  | nil => exact @isUnsignedWord_append [c] _ (isUnsignedWord_digits hc h) (hexp _)
  | cons d ds =>
    refine @isUnsignedWord_append (c :: '.' :: d :: ds) _ ?_ (hexp _)
    refine @isUnsignedWord_append [c] _ (isUnsignedWord_digits hc (by simp)) fun x hx => ?_
    rcases List.mem_cons.mp hx with rfl | hx
    · rfl
    · exact isWordChar_of_isDigit (h x hx)

/-- **Floating point numbers are words**, in either format. -/
theorem isWord_float (plus : Bool) (x : Binary64) : isWord (x.dataText plus) := by
  obtain ⟨c, cs, h, hc, hcs⟩ := repr_eq_cons x.shortest.digits
  unfold Binary64.dataText
  extract_lets d digits point
  have hdigits : digits = c :: cs := h
  rw [hdigits]
  refine isWord_of_unsigned ?_ x.negative
  split
  · exact isUnsignedWord_positional hc hcs _
  · exact isUnsignedWord_scientific plus hc hcs _

end ConfigVault.Yaml
