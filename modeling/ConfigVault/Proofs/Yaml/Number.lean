import ConfigVault.Proofs.Number.Shortest
import ConfigVault.Proofs.Yaml.Resolve
import ConfigVault.Yaml.Resolve

/-! # Numbers mean what they were written for

The digits of a number are read back as the number (`unsigned?_repr`), so an integer means itself
(`resolve_int`).  The text of a floating point number is a decimal (`dataText_eq`): digits around
a point, or in front of an exponent, which stand for the shortest decimal of the number, and that
one is read as the number (`resolve_float`).
-/
namespace ConfigVault.Yaml

/-! ## Digits -/

theorem toNat_of_isDigit {c : Char} (h : c.isDigit) : 48 ≤ c.toNat ∧ c.toNat ≤ 57 := by
  simp only [Char.isDigit, Bool.and_eq_true, decide_eq_true_eq] at h
  exact ⟨h.1, h.2⟩

theorem radixDigit?_ten {c : Char} (h : c.isDigit) : radixDigit? 10 c = some (c.toNat - 48) := by
  obtain ⟨hlow, hhigh⟩ := toNat_of_isDigit h
  have hrange : '0' ≤ c ∧ c ≤ '9' := ⟨hlow, hhigh⟩
  have hlt : c.toNat - 48 < 10 := by omega
  simp [radixDigit?, hrange, hlt]

theorem foldlM_digits {cs : List Char} (h : ∀ c ∈ cs, c.isDigit) (n : Nat) :
    cs.foldlM (fun n c => (radixDigit? 10 c).map (n * 10 + ·)) n =
      some (Nat.ofDigitChars 10 cs n) := by
  induction cs generalizing n with
  | nil => simp
  | cons c cs ih =>
    rw [List.foldlM_cons, radixDigit?_ten (h c (by simp)), Nat.ofDigitChars_cons, Nat.mul_comm 10]
    exact ih (fun d hd => h d (by simp [hd])) _

/-- **Digits are read as the number they write.** -/
theorem natural?_digits {cs : List Char} (hne : cs ≠ []) (h : ∀ c ∈ cs, c.isDigit) :
    natural? 10 cs = some (Nat.ofDigitChars 10 cs 0) := by
  rw [natural?, if_neg (by simpa using hne)]
  exact foldlM_digits h 0

/-- Text with anything but digits in it writes no number. -/
theorem natural?_eq_none {cs : List Char} {c : Char} (hc : c ∈ cs) (h : radixDigit? 10 c = none) :
    natural? 10 cs = none := by
  have hfold (n : Nat) : cs.foldlM (fun n c => (radixDigit? 10 c).map (n * 10 + ·)) n = none := by
    induction cs generalizing n with
    | nil => cases hc
    | cons d cs ih =>
      rw [List.foldlM_cons]
      rcases List.mem_cons.mp hc with rfl | hc
      · rw [h]; rfl
      · cases radixDigit? 10 d with
        | none => rfl
        | some k => exact ih hc _
  rw [natural?]
  split
  · rfl
  · exact hfold 0

theorem ofDigitChars_lt {cs : List Char} (h : ∀ c ∈ cs, c.isDigit) :
    Nat.ofDigitChars 10 cs 0 < 10 ^ cs.length := by
  induction cs with
  | nil => simp
  | cons c cs ih =>
    have hc := toNat_of_isDigit (h c (by simp))
    have htail := ih fun d hd => h d (by simp [hd])
    have hdigit : c.toNat - '0'.toNat < 10 := by
      show c.toNat - 48 < 10
      omega
    have := Nat.mul_le_mul_left (10 ^ cs.length) (Nat.le_of_lt_succ hdigit)
    rw [Nat.ofDigitChars_cons, Nat.ofDigitChars_eq_ofDigitChars_zero, List.length_cons, Nat.pow_succ,
      Nat.mul_zero, Nat.zero_add]
    omega

/-- The number that the digits of a number write. -/
theorem ofDigitChars_repr (n : Nat) : Nat.ofDigitChars 10 (Nat.repr n).toList 0 = n := by
  rw [Nat.toList_repr, Nat.ofDigitChars_ten_toDigits]

/-- A number is written without zeros in front. -/
theorem hasLeadingZero_repr (n : Nat) : hasLeadingZero (Nat.repr n).toList = false := by
  cases h : hasLeadingZero (Nat.repr n).toList with
  | false => rfl
  | true =>
    unfold hasLeadingZero at h
    split at h
    case h_2 => cases h
    case h_1 c cs hcs =>
      have hdigits : ∀ d ∈ c :: cs, d.isDigit := fun d hd => List.all_eq_true.mp h d hd
      have hn := ofDigitChars_repr n
      rw [hcs, Nat.ofDigitChars_cons] at hn
      have hlt := ofDigitChars_lt hdigits
      have hlen : n.repr.length = (c :: cs).length + 1 := by
        rw [← String.length_toList, hcs, List.length_cons]
      have := (Nat.length_repr_le_iff (n := n) (k := (c :: cs).length) (by simp)).mpr (hn ▸ hlt)
      omega

/-- **The digits of a number are read as the number.** -/
theorem unsigned?_repr (n : Nat) : unsigned? (Nat.repr n).toList = some n := by
  have hdigit (c : Char) (hc : c ∈ (Nat.repr n).toList) : c.isDigit := isDigit_of_mem_repr hc
  unfold unsigned?
  split
  case h_1 cs h => exact absurd (hdigit 'x' (by rw [h]; simp)) (by decide)
  case h_2 cs h => exact absurd (hdigit 'o' (by rw [h]; simp)) (by decide)
  case h_3 cs h => exact absurd (hdigit 'b' (by rw [h]; simp)) (by decide)
  case h_4 =>
    rw [hasLeadingZero_repr, if_neg Bool.false_ne_true, natural?_digits (repr_ne_nil n) hdigit,
      ofDigitChars_repr]

/-- Text that begins with a digit has no sign. -/
theorem ne_sign_of_isDigit {c : Char} (h : c.isDigit) : c ≠ '-' ∧ c ≠ '+' := by
  constructor <;> rintro rfl <;> cases h

/-- **An integer is read as itself.** -/
theorem integer?_toString (i : Int) : integer? (toString i).toList = some i := by
  have h := unsigned?_repr i.natAbs
  rw [toString_int]
  by_cases hi : i < 0
  · rw [if_pos hi, List.singleton_append, integer?, h]
    exact congrArg some (show -(i.natAbs : Int) = i by omega)
  · obtain ⟨c, cs, hcs, hc, -⟩ := repr_eq_cons i.natAbs
    obtain ⟨hminus, hplus⟩ := ne_sign_of_isDigit hc
    rw [if_neg hi, List.nil_append]
    unfold integer?
    split
    case h_1 heq => rw [hcs] at heq; exact absurd (List.cons.inj heq).1 hminus
    case h_2 heq => rw [hcs] at heq; exact absurd (List.cons.inj heq).1 hplus
    case h_3 => rw [h]; exact congrArg some (show (i.natAbs : Int) = i by omega)

/-! ## Texts that begin like numbers -/

/-- The text begins with a digit, behind a minus sign or not. -/
def beginsAsNumber (cs : List Char) : Prop :=
  ∃ c, cs.head? = some c ∧ (c.isDigit ∨ c = '-')

theorem beginsAsNumber_sign {c : Char} {cs : List Char} (hc : c.isDigit) (negative : Bool) :
    beginsAsNumber ((if negative then ['-'] else []) ++ c :: cs) := by
  cases negative with
  | true => exact ⟨'-', rfl, .inr rfl⟩
  | false => exact ⟨c, rfl, .inl hc⟩

/-- Text that begins like a number is none of the words that begin otherwise. -/
theorem ne_of_beginsAsNumber {s t : String} {d : Char} (h : beginsAsNumber s.toList)
    (ht : t.toList.head? = some d) (hd : d.isDigit = false ∧ d ≠ '-') : (s == t) = false := by
  rw [beq_eq_false_iff_ne]
  rintro rfl
  obtain ⟨c, hc, hcd⟩ := h
  obtain rfl : c = d := by rw [hc] at ht; exact Option.some.inj ht
  rcases hcd with hcd | hcd
  · rw [hd.1] at hcd; cases hcd
  · exact hd.2 hcd

theorem isNullText_of_beginsAsNumber {s : String} (h : beginsAsNumber s.toList) :
    isNullText s = false := by
  simp only [isNullText, Bool.or_eq_false_iff]
  refine ⟨⟨⟨?_, ?_⟩, ?_⟩, ?_⟩ <;> exact ne_of_beginsAsNumber h rfl (by decide)

theorem bool?_of_beginsAsNumber {s : String} (h : beginsAsNumber s.toList) : bool? s = none := by
  have hne (t : String) (d : Char) (ht : t.toList.head? = some d) (hd : d.isDigit = false ∧ d ≠ '-') :
      (s == t) = false := ne_of_beginsAsNumber h ht hd
  simp [bool?, hne "true" 't' rfl (by decide), hne "True" 'T' rfl (by decide),
    hne "TRUE" 'T' rfl (by decide), hne "false" 'f' rfl (by decide),
    hne "False" 'F' rfl (by decide), hne "FALSE" 'F' rfl (by decide)]

theorem isEmpty_of_beginsAsNumber {s : String} (h : beginsAsNumber s.toList) :
    s.isEmpty = false := by
  obtain ⟨c, hc, -⟩ := h
  rw [← Bool.not_eq_true, String.isEmpty_iff]
  rintro rfl
  cases hc

/-- Text that begins like a number means a number, or nothing in particular. -/
theorem resolve_of_beginsAsNumber {s : String} (h : beginsAsNumber s.toList) :
    resolve s =
      match int? s with
      | some i => .int i
      | none =>
        if isDigitString s then .string
        else
          match float? s with
          | some x => .float x
          | none => .string := by
  rw [resolve, isEmpty_of_beginsAsNumber h, isNullText_of_beginsAsNumber h,
    bool?_of_beginsAsNumber h]
  rfl

theorem beginsAsNumber_int (i : Int) : beginsAsNumber (toString i).toList := by
  obtain ⟨c, cs, hcs, hc, -⟩ := repr_eq_cons i.natAbs
  have h := @beginsAsNumber_sign c cs hc (decide (i < 0))
  rw [toString_int, hcs]
  simpa using h

/-- **An integer of 128 bits means itself.** -/
theorem resolve_int {i : Int} (hi : isWide i) : resolve (toString i) = .int i := by
  have hint : int? (toString i) = some i := by
    rw [int?, integer?_toString, Option.filter_some, if_pos hi]
  rw [resolve_of_beginsAsNumber (beginsAsNumber_int i), hint]

theorem isWide_of_isNarrow {i : Int} (h : isNarrow i) : isWide i := by
  simp only [isNarrow, isWide, Bool.and_eq_true, decide_eq_true_eq] at h ⊢
  omega

/-! ## Decimals -/

/-- The text is digits in front of a point or an exponent, and more. -/
def IsFraction (cs : List Char) : Prop :=
  ∃ whole c rest, cs = whole ++ c :: rest ∧ whole ≠ [] ∧ (∀ d ∈ whole, d.isDigit) ∧
    (c = '.' ∨ c = 'e')

/-- The text is over, or goes on with anything but a digit. -/
def endsDigits (cs : List Char) : Prop := ∀ c ∈ cs.head?, c.isDigit = false

theorem isDigit_zero : ∀ c ∈ ['0'], c.isDigit := by
  intro c hc
  obtain rfl := List.mem_singleton.mp hc
  rfl

theorem takeWhile_digits {cs rest : List Char} (h : ∀ c ∈ cs, c.isDigit) (hrest : endsDigits rest) :
    (cs ++ rest).takeWhile Char.isDigit = cs ∧ (cs ++ rest).dropWhile Char.isDigit = rest := by
  rw [List.takeWhile_append_of_pos h, List.dropWhile_append_of_pos h]
  cases rest with
  | nil => simp
  | cons c rest =>
    have hc : c.isDigit = false := hrest c rfl
    simp [hc]

/-- Digits around a point are a decimal. -/
theorem decimal?_point {whole rest : List Char} {k : Int} (fraction : List Char) (hne : whole ≠ [])
    (hw : ∀ c ∈ whole, c.isDigit) (hf : ∀ c ∈ fraction, c.isDigit) (hrest : endsDigits rest)
    (hk : optionalExponent? rest = some k) :
    decimal? (whole ++ '.' :: (fraction ++ rest)) =
      some (Nat.ofDigitChars 10 (whole ++ fraction) 0, k - fraction.length) := by
  have hpoint : endsDigits ('.' :: (fraction ++ rest)) := by rintro c ⟨⟩; rfl
  obtain ⟨htake, hdrop⟩ := takeWhile_digits hw hpoint
  obtain ⟨htake', hdrop'⟩ := takeWhile_digits hf hrest
  have hdigits : ∀ c ∈ whole ++ fraction, c.isDigit := by
    intro c hc
    exact (List.mem_append.mp hc).elim (hw c) (hf c)
  unfold decimal?
  simp only [htake, hdrop, htake', hdrop']
  rw [natural?_digits (by simp [hne]) hdigits, hk]
  rfl

theorem optionalExponent?_mark {cs : List Char} {k : Int} (h : exponent? cs = some k) :
    optionalExponent? ('e' :: cs) = some k := by
  rw [optionalExponent?, if_pos (by decide), h]

/-- Digits in front of an exponent are a decimal. -/
theorem decimal?_exponent {whole rest : List Char} {k : Int} (hne : whole ≠ [])
    (hw : ∀ c ∈ whole, c.isDigit) (hk : exponent? rest = some k) :
    decimal? (whole ++ 'e' :: rest) = some (Nat.ofDigitChars 10 whole 0, k) := by
  have hend : endsDigits ('e' :: rest) := by rintro c ⟨⟩; rfl
  obtain ⟨htake, hdrop⟩ := takeWhile_digits hw hend
  unfold decimal?
  simp only [htake, hdrop]
  show (natural? 10 (whole ++ [])).bind (fun digits =>
    (optionalExponent? ('e' :: rest)).map fun e => (digits, e - (0 : Int))) = _
  rw [List.append_nil, natural?_digits hne hw, optionalExponent?_mark hk]
  simp

/-- **An exponent is read as it is written**, be there a plus sign or not. -/
theorem exponent?_text (plus : Bool) (n : Int) :
    exponent? ((if plus && decide (0 ≤ n) then ['+'] else []) ++ (toString n).toList) = some n := by
  have hnat : natural? 10 (Nat.repr n.natAbs).toList = some n.natAbs := by
    rw [natural?_digits (repr_ne_nil _) (fun c hc => isDigit_of_mem_repr hc), ofDigitChars_repr]
  rw [toString_int]
  by_cases hn : n < 0
  · have hsign : (plus && decide (0 ≤ n)) = false := by simp; omega
    rw [hsign, if_neg Bool.false_ne_true, if_pos hn, List.nil_append, List.singleton_append,
      exponent?, hnat]
    exact congrArg some (show -(n.natAbs : Int) = n by omega)
  · have habs : some (Int.ofNat n.natAbs) = some n :=
      congrArg some (show (n.natAbs : Int) = n by omega)
    rw [if_neg hn, List.nil_append]
    split
    · rw [List.singleton_append, exponent?, hnat]
      exact habs
    · obtain ⟨c, cs, hcs, hc, -⟩ := repr_eq_cons n.natAbs
      obtain ⟨hminus, hplus⟩ := ne_sign_of_isDigit hc
      rw [List.nil_append]
      unfold exponent?
      split
      case h_1 heq => rw [hcs] at heq; exact absurd (List.cons.inj heq).1 hminus
      case h_2 heq => rw [hcs] at heq; exact absurd (List.cons.inj heq).1 hplus
      case h_3 => rw [hnat]; exact habs

/-- The text is a fraction, and it is read as a decimal of this value. -/
def IsDecimal (cs : List Char) (v : ℚ) : Prop :=
  IsFraction cs ∧ ∃ k f, decimal? cs = some (k, f) ∧ (k : ℚ) * 10 ^ f = v

theorem IsDecimal.exponent {whole rest : List Char} {k : Int} {v : ℚ} (hne : whole ≠ [])
    (hw : ∀ c ∈ whole, c.isDigit) (hk : exponent? rest = some k)
    (hv : Nat.ofDigitChars 10 whole 0 * (10 : ℚ) ^ k = v) : IsDecimal (whole ++ 'e' :: rest) v :=
  ⟨⟨whole, 'e', rest, rfl, hne, hw, .inr rfl⟩, _, _, decimal?_exponent hne hw hk, hv⟩

theorem IsDecimal.point {whole fraction rest : List Char} {k : Int} {v : ℚ} (hne : whole ≠ [])
    (hw : ∀ c ∈ whole, c.isDigit) (hf : ∀ c ∈ fraction, c.isDigit) (hrest : endsDigits rest)
    (hk : optionalExponent? rest = some k)
    (hv : Nat.ofDigitChars 10 (whole ++ fraction) 0 * (10 : ℚ) ^ (k - fraction.length) = v) :
    IsDecimal (whole ++ '.' :: (fraction ++ rest)) v :=
  ⟨⟨whole, '.', fraction ++ rest, rfl, hne, hw, .inl rfl⟩, _, _,
    decimal?_point fraction hne hw hf hrest hk, hv⟩

/-- Without an exponent the fraction alone counts. -/
theorem IsDecimal.fixed {whole fraction : List Char} {v : ℚ} (hne : whole ≠ [])
    (hw : ∀ c ∈ whole, c.isDigit) (hf : ∀ c ∈ fraction, c.isDigit)
    (hv : Nat.ofDigitChars 10 (whole ++ fraction) 0 * (10 : ℚ) ^ (-(fraction.length : Int)) = v) :
    IsDecimal (whole ++ '.' :: fraction) v := by
  have hend : endsDigits [] := by rintro c ⟨⟩
  rw [← Int.zero_sub] at hv
  have h := IsDecimal.point hne hw hf hend rfl hv
  rwa [List.append_nil] at h

open Binary64 in
/-- **Digits with a point in them are a decimal of the same value.** -/
theorem isDecimal_positional (n : Nat) (e : Int) :
    IsDecimal (positional (Nat.repr n).toList e) (n * 10 ^ e) := by
  have hdigits (c : Char) (hc : c ∈ (Nat.repr n).toList) : c.isDigit := isDigit_of_mem_repr hc
  have hvalue := ofDigitChars_repr n
  unfold positional
  extract_lets point
  split
  case isTrue he =>
    -- The point stands behind the digits and as many zeros as it takes.
    obtain ⟨m, rfl⟩ := Int.eq_ofNat_of_zero_le he
    have hwhole : ∀ c ∈ (Nat.repr n).toList ++ zeros m, c.isDigit := by
      intro c hc
      exact (List.mem_append.mp hc).elim (hdigits c) isDigit_of_mem_zeros
    have hne : (Nat.repr n).toList ++ zeros m ≠ [] :=
      List.append_ne_nil_of_left_ne_nil (repr_ne_nil n) _
    refine .fixed hne hwhole isDigit_zero ?_
    rw [Nat.ofDigitChars_append, Nat.ofDigitChars_append, hvalue, zeros,
      Nat.ofDigitChars_replicate_zero, Nat.ofDigitChars_cons, Nat.ofDigitChars_nil]
    simp
    ring
  case isFalse he =>
    split
    case isTrue hp =>
      -- The point stands among the digits, and at least one of them in front of it.
      have hne : (Nat.repr n).toList.take point.toNat ≠ [] := by
        intro h
        exact repr_ne_nil n ((List.take_eq_nil_iff.mp h).resolve_left (by omega))
      refine .fixed hne (fun c hc => hdigits c (List.mem_of_mem_take hc))
        (fun c hc => hdigits c (List.mem_of_mem_drop hc)) ?_
      rw [List.take_append_drop, hvalue, List.length_drop]
      congr 2
      omega
    case isFalse hp =>
      -- All digits stand behind the point, and zeros between them.
      have hfraction : ∀ c ∈ zeros (-point).toNat ++ (Nat.repr n).toList, c.isDigit := by
        intro c hc
        exact (List.mem_append.mp hc).elim isDigit_of_mem_zeros (hdigits c)
      have hzeros : Nat.ofDigitChars 10 (['0'] ++ (zeros (-point).toNat ++ (Nat.repr n).toList)) 0 =
          n := by
        rw [Nat.ofDigitChars_append, Nat.ofDigitChars_append, zeros, Nat.ofDigitChars_cons,
          Nat.ofDigitChars_nil, Nat.ofDigitChars_replicate_zero]
        exact hvalue
      show IsDecimal (['0'] ++ '.' :: (zeros (-point).toNat ++ (Nat.repr n).toList)) _
      refine .fixed (by simp) isDigit_zero hfraction ?_
      rw [hzeros, zeros, List.length_append, List.length_replicate]
      congr 2
      omega

open Binary64 in
/-- **Digits with an exponent are a decimal of the same value.** -/
theorem isDecimal_scientific (plus : Bool) (n : Nat) (e : Int) :
    IsDecimal (scientific plus (Nat.repr n).toList e) (n * 10 ^ e) := by
  have hdigits (c : Char) (hc : c ∈ (Nat.repr n).toList) : c.isDigit := isDigit_of_mem_repr hc
  have hvalue := ofDigitChars_repr n
  unfold scientific
  extract_lets k ex
  have hexp : exponent? ex = some k := exponent?_text plus k
  have hk : k = (Nat.repr n).toList.length + e - 1 := rfl
  match hcs : (Nat.repr n).toList with
  | [] => exact absurd hcs (repr_ne_nil n)
  | [d] =>
    rw [hcs] at hdigits hvalue hk
    refine .exponent (by simp) hdigits hexp ?_
    rw [hvalue, hk]
    simp
  | d :: c :: cs =>
    rw [hcs] at hdigits hvalue hk
    have hwhole : ∀ x ∈ [d], x.isDigit := by simpa using hdigits d (by simp)
    have hfraction : ∀ x ∈ c :: cs, x.isDigit := fun x hx => hdigits x (List.mem_cons_of_mem d hx)
    have hmark : endsDigits ('e' :: ex) := by rintro c ⟨⟩; rfl
    refine .point (by simp) hwhole hfraction hmark (optionalExponent?_mark hexp) ?_
    rw [List.singleton_append, hvalue, hk]
    congr 2
    simp
    omega

/-! ## Floating point numbers -/

/-- A fraction is no integer. -/
theorem unsigned?_of_isFraction {cs : List Char} (h : IsFraction cs) :
    unsigned? cs = none ∧ hasLeadingZero cs = false := by
  obtain ⟨whole, c, rest, rfl, hne, hdigits, hc⟩ := h
  have hnumber : natural? 10 (whole ++ c :: rest) = none :=
    @natural?_eq_none _ c (by simp) (by rcases hc with rfl | rfl <;> rfl)
  have hdigit : c.isDigit = false := by rcases hc with rfl | rfl <;> rfl
  -- The character behind the first is a digit, or the mark itself, so it names no other base.
  have hsecond {x y : Char} {cs : List Char} (hy : y.isDigit = false) (hmark : y ≠ '.' ∧ y ≠ 'e') :
      whole ++ c :: rest ≠ x :: y :: cs := by
    intro h
    obtain ⟨d, ds, rfl⟩ := List.exists_cons_of_ne_nil hne
    cases ds with
    | nil =>
      obtain rfl := (List.cons.inj (List.cons.inj h).2).1
      exact hc.elim hmark.1 hmark.2
    | cons d' ds =>
      obtain rfl := (List.cons.inj (List.cons.inj h).2).1
      rw [hdigits _ (by simp)] at hy
      cases hy
  constructor
  · unfold unsigned?
    split
    case h_1 heq => exact absurd heq (hsecond rfl (by decide))
    case h_2 heq => exact absurd heq (hsecond rfl (by decide))
    case h_3 heq => exact absurd heq (hsecond rfl (by decide))
    case h_4 => rw [hnumber]; split <;> rfl
  · unfold hasLeadingZero
    split
    case h_2 => rfl
    case h_1 d ds heq =>
      rw [List.all_eq_false]
      obtain ⟨w, ws, rfl⟩ := List.exists_cons_of_ne_nil hne
      have hmem : c ∈ d :: ds := by
        rw [← (List.cons.inj heq).2]
        simp
      exact ⟨c, hmem, by simp [hdigit]⟩

/-- A decimal behind its sign is the number that it leads to, and no special number. -/
theorem float?_of_decimal? {s : String} {negative : Bool} {d : Char} {ds : List Char} {k : Nat}
    {f : Int} {x : Binary64} (hs : s.toList = (if negative then ['-'] else []) ++ d :: ds)
    (hd : d.isDigit) (hdecimal : decimal? (d :: ds) = some (k, f))
    (hx : Binary64.ofDecimal? negative k f = some x) : float? s = some (.finite x) := by
  obtain ⟨hminus, hplus⟩ := ne_sign_of_isDigit hd
  have hbegin : beginsAsNumber s.toList := hs ▸ @beginsAsNumber_sign d ds hd negative
  have hpoint (t : String) (ht : t.toList.head? = some '.') : (s == t) = false :=
    ne_of_beginsAsNumber hbegin ht (by decide)
  have hinfinite (t : String) (ht : t.toList.take 2 = ['-', '.']) : (s == t) = false := by
    rw [beq_eq_false_iff_ne]
    rintro rfl
    rw [hs] at ht
    cases negative with
    | true =>
      obtain rfl : d = '.' := by simpa using ht
      cases hd
    | false => exact hminus (by simpa using congrArg List.head? ht)
  have hsign : withoutPlus? s.toList = some s.toList := by
    rw [hs]
    cases negative with
    | true => rfl
    | false => simp [withoutPlus?, hplus]
  have hfinite : finite? s.toList = some x := by
    rw [hs]
    cases negative with
    | true => simp [finite?, hdecimal, hx]
    | false => simp [finite?, hminus, hdecimal, hx]
  rw [float?, hsign, Option.bind_some]
  simp [hpoint ".inf" rfl, hpoint ".Inf" rfl, hpoint ".INF" rfl, hpoint ".nan" rfl,
    hpoint ".NaN" rfl, hpoint ".NAN" rfl, hinfinite "-.inf" rfl, hinfinite "-.Inf" rfl,
    hinfinite "-.INF" rfl, hfinite]

/-- **A fraction is read as the number that its decimal leads to.** -/
theorem resolve_fraction {cs : List Char} {negative : Bool} {k : Nat} {f : Int} {x : Binary64}
    (h : IsFraction cs) (hdecimal : decimal? cs = some (k, f))
    (hx : Binary64.ofDecimal? negative k f = some x) :
    resolve (String.ofList ((if negative then ['-'] else []) ++ cs)) = .float (.finite x) := by
  obtain ⟨hnumber, hzero⟩ := unsigned?_of_isFraction h
  obtain ⟨d, ds, rfl, hd⟩ : ∃ d ds, cs = d :: ds ∧ d.isDigit := by
    obtain ⟨whole, c, rest, rfl, hne, hdigits, -⟩ := h
    obtain ⟨d, ds, rfl⟩ := List.exists_cons_of_ne_nil hne
    exact ⟨d, _, rfl, hdigits d (by simp)⟩
  obtain ⟨hminus, hplus⟩ := ne_sign_of_isDigit hd
  have hbegin := @beginsAsNumber_sign d ds hd negative
  generalize hs : String.ofList ((if negative then ['-'] else []) ++ d :: ds) = s
  have hlist : s.toList = (if negative then ['-'] else []) ++ d :: ds := by
    rw [← hs, String.toList_ofList]
  rw [← hlist] at hbegin
  have hint : int? s = none := by
    rw [int?, hlist]
    cases negative with
    | true => simp [integer?, hnumber]
    | false => simp [integer?, hminus, hplus, hnumber]
  have hstring : isDigitString s = false := by
    rw [isDigitString, hlist]
    cases negative with
    | true => simpa using hzero
    | false => simpa [hminus, hplus] using hzero
  have hfloat : float? s = some (.finite x) := float?_of_decimal? hlist hd hdecimal hx
  rw [resolve_of_beginsAsNumber hbegin, hint, hstring, hfloat]
  rfl

/-- The text of a floating point number is a decimal behind its sign. -/
theorem dataText_eq (x : Binary64) (plus : Bool) :
    ∃ cs, x.dataText plus = (if x.negative then ['-'] else []) ++ cs ∧
      IsDecimal cs x.shortest.value := by
  unfold Binary64.dataText
  dsimp only
  split
  · exact ⟨_, rfl, isDecimal_positional x.shortest.digits x.shortest.exponent⟩
  · exact ⟨_, rfl, isDecimal_scientific plus x.shortest.digits x.shortest.exponent⟩

theorem beginsAsNumber_float (x : Binary64) (plus : Bool) : beginsAsNumber (x.dataText plus) := by
  obtain ⟨cs, htext, ⟨whole, c, rest, rfl, hne, hdigits, -⟩, -⟩ := dataText_eq x plus
  obtain ⟨d, ds, rfl⟩ := List.exists_cons_of_ne_nil hne
  rw [htext]
  exact beginsAsNumber_sign (hdigits d (by simp)) x.negative

/-- **A floating point number means itself**, in the format of either text. -/
theorem resolve_float {x : Binary64} (hx : x.IsNormal) (plus : Bool) :
    resolve (String.ofList (x.dataText plus)) = .float (.finite x) := by
  obtain ⟨cs, htext, hfraction, k, f, hdecimal, hvalue⟩ := dataText_eq x plus
  rw [htext]
  refine resolve_fraction hfraction hdecimal ?_
  rcases Nat.eq_zero_or_pos x.significand with hz | hpos
  · have hshortest : x.shortest = ⟨0, 0⟩ := by
      rw [Binary64.shortest, if_pos (by simp [Binary64.isZero, hz])]
    rw [hshortest, Decimal.value, Nat.cast_zero, zero_mul] at hvalue
    have hk : k = 0 := by
      have hten : (10 : ℚ) ^ f ≠ 0 := by positivity
      exact_mod_cast (mul_eq_zero.mp hvalue).resolve_right hten
    rw [Binary64.ofDecimal?, if_pos (.inl hk), ← hx.eq_zero hz]
  · have hcaptures := Binary64.captures_shortest hx hpos
    rw [← hvalue] at hcaptures
    exact Binary64.ofDecimal?_of_captures hx hpos hcaptures

/-! ## What text can mean -/

theorem isNormal_of_finite? {cs : List Char} {x : Binary64} (h : finite? cs = some x) :
    x.IsNormal := by
  unfold finite? at h
  split at h <;>
    · obtain ⟨⟨k, f⟩, -, h⟩ := Option.bind_eq_some_iff.mp h
      exact Binary64.isNormal_of_ofDecimal? h

theorem isNormal_of_float? {s : String} {x : Binary64} (h : float? s = some (.finite x)) :
    x.IsNormal := by
  obtain ⟨cs, -, h⟩ := Option.bind_eq_some_iff.mp h
  dsimp only at h
  split at h
  · cases h
  split at h
  · cases h
  split at h
  · cases h
  obtain ⟨y, hy, h⟩ := Option.map_eq_some_iff.mp h
  cases h
  exact isNormal_of_finite? hy

/-- **Every finite number that text means is in normal form.** -/
theorem isNormal_of_resolve {s : String} {x : Binary64} (h : resolve s = .float (.finite x)) :
    x.IsNormal := by
  unfold resolve at h
  split at h
  · cases h
  split at h
  · cases h
  split at h
  · cases h
  split at h
  · cases h
  split at h
  case h_1 y hy =>
    cases h
    exact isNormal_of_float? hy
  case h_2 => cases h

end ConfigVault.Yaml
