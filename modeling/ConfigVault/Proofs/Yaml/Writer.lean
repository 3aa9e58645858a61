import ConfigVault.Proofs.Yaml.Style
import ConfigVault.Proofs.Yaml.Token.Quoted
import ConfigVault.Yaml.Token.Lexer
import Mathlib.Algebra.GroupWithZero.Nat

/-! # What is written

Facts about written text that reading it back rests on: every scalar begins with something that a
token can begin with, a short key stays within what the lexer looks back for, and no character is
written that documents may not hold.
-/
namespace ConfigVault.Yaml.Writer

open Style Quoted

/-! ## Beginnings -/

theorem startsToken_append {w : List Char} (hne : w ≠ []) (h : startsToken w) (t : List Char) :
    startsToken (w ++ t) := by
  cases w with
  | nil => exact absurd rfl hne
  | cons c w => exact h

theorem ne_byteOrderMark_of_printable {c : Char} (h : isPrintable c) : c ≠ '\ufeff' := by
  rintro rfl; revert h; decide

/-- Text that fits plain style begins with something that a token can begin with. -/
theorem startsToken_plain {cs : List Char} (h : fitsPlain cs) : startsToken cs := by
  cases cs with
  | nil => rfl
  | cons c cs =>
    obtain ⟨hblank, hbreak, hopen, -⟩ := fitsPlain_cons h
    have hhash : c ≠ '#' := by rintro rfl; cases hopen
    have hmark := ne_byteOrderMark_of_printable
      (isPrintable_of_mem (fitsPlain_iff.mp h).1 (List.mem_cons_self ..))
    simp [startsToken, hblank, hbreak, hhash, hmark]

/-- Text without quotes is not empty, or it would mean null. -/
theorem ne_nil_of_needsQuotes {s : String} (h : needsQuotes s = false) : s.toList ≠ [] := by
  intro hnil
  obtain rfl : s = "" := String.toList_eq_nil_iff.mp hnil
  revert h
  decide

theorem stringLine_ne_nil (width : Nat) (s : String) : stringLine width s ≠ [] := by
  unfold stringLine
  extract_lets cs
  split <;> simp [literal, singleQuoted, doubleQuoted]

theorem startsToken_stringLine (width : Nat) (s : String) : startsToken (stringLine width s) := by
  unfold stringLine
  rcases styleOf_cases s with ⟨h, hq, hf⟩ | ⟨h, -⟩ | h | ⟨h, -⟩ <;> rw [h]
  · exact startsToken_append (ne_nil_of_needsQuotes hq) (startsToken_plain hf) _
  · rfl
  · rfl
  · rfl

theorem keyText_ne_nil (s : String) : keyText s ≠ [] := by
  unfold keyText
  rcases styleOf_cases s with ⟨h, hq, hf⟩ | ⟨h, -⟩ | h | ⟨h, -⟩ <;> rw [h]
  · exact ne_nil_of_needsQuotes hq
  · simp [singleQuoted]
  · simp [doubleQuoted]
  · simp [doubleQuoted]

theorem startsToken_keyText (s : String) : startsToken (keyText s) := by
  unfold keyText
  rcases styleOf_cases s with ⟨h, hq, hf⟩ | ⟨h, -⟩ | h | ⟨h, -⟩ <;> rw [h]
  · exact startsToken_plain hf
  · rfl
  · rfl
  · rfl

/-! ## Lengths -/

theorem utf8ByteSize_ofList (cs : List Char) : (String.ofList cs).utf8ByteSize = octets cs := by
  induction cs with
  | nil => rfl
  | cons c cs ih =>
    rw [String.ofList_cons, String.utf8ByteSize_append, String.utf8ByteSize_singleton, ih]
    rfl

theorem utf8Size_hexDigit : ∀ d, d < 16 → (hexDigit d).utf8Size = 1 := by decide

@[simp] theorem octets_hexDigits (width n : Nat) : octets (hexDigits width n) = width := by
  induction width generalizing n with
  | zero => rfl
  | succ width ih =>
    rw [hexDigits, octets_append, ih, octets_cons, utf8Size_hexDigit _ (Nat.mod_lt n (by decide))]
    rfl

theorem utf8Size_shortEscape {c e : Char} (h : shortEscape? c = some e) : e.utf8Size = 1 := by
  unfold shortEscape? at h
  split at h <;> cases h <;> rfl

/-- An escape takes no more than four octets for each octet of the character. -/
theorem octets_escape (c : Char) : octets (escape c) ≤ 4 * c.utf8Size := by
  have hpos := Char.utf8Size_pos c
  have hslash : '\\'.utf8Size = 1 := rfl
  unfold escape
  split
  case h_1 e he =>
    simp only [octets_cons, octets_nil, hslash, utf8Size_shortEscape he]
    omega
  case h_2 =>
    have hx : 'x'.utf8Size = 1 := rfl
    have hu : 'u'.utf8Size = 1 := rfl
    have hU : 'U'.utf8Size = 1 := rfl
    extract_lets n
    split
    case isTrue h =>
      simp only [octets_cons, octets_hexDigits, hslash, hx]
      omega
    case isFalse h =>
      have hone : c.utf8Size ≠ 1 := by
        intro h1
        have := UInt32.le_iff_toNat_le.mp (Char.utf8Size_eq_one_iff.mp h1)
        exact h (Nat.le_trans this (by decide))
      split
      case isTrue h =>
        simp only [octets_cons, octets_hexDigits, hslash, hu]
        omega
      case isFalse h =>
        have hfour : c.utf8Size = 4 :=
          Char.utf8Size_eq_four_iff.mpr (UInt32.lt_iff_toNat_lt.mpr (Nat.not_le.mp h))
        simp only [octets_cons, octets_hexDigits, hslash, hU]
        omega

theorem octets_doubleChar (c : Char) : octets (doubleChar c) ≤ 4 * c.utf8Size := by
  unfold doubleChar
  split
  · rw [octets_cons, octets_nil]; omega
  · exact octets_escape c

theorem octets_singleChar (c : Char) : octets (singleChar c) ≤ 4 * c.utf8Size := by
  unfold singleChar
  split
  case isTrue h => subst h; decide
  case isFalse h => rw [octets_cons, octets_nil]; omega

theorem octets_flatMap_le {write : Char → List Char} (h : ∀ c, octets (write c) ≤ 4 * c.utf8Size)
    (cs : List Char) : octets (cs.flatMap write) ≤ 4 * octets cs := by
  induction cs with
  | nil => simp
  | cons c cs ih =>
    have := h c
    rw [List.flatMap_cons, octets_append, octets_cons]
    omega

/-- What makes a key short. -/
theorem isSimpleKey_iff (s : String) :
    isSimpleKey s ↔ s.utf8ByteSize ≤ longestKey ∧ ∀ c ∈ s.toList, isBreak c = false := by
  simp [isSimpleKey]

theorem singleQuoted_of_no_break {cs : List Char} (h : ∀ c ∈ cs, isBreak c = false) (width : Nat) :
    singleQuoted width cs = '\'' :: (cs.flatMap singleChar ++ ['\'']) := by
  have hend : endsWithBreak cs = false := by
    unfold endsWithBreak
    cases hl : cs.getLast? with
    | none => rfl
    | some c => exact h c (List.mem_of_getLast? hl)
  rw [singleQuoted_eq, indented_of_no_break h, hend]
  simp

/-- **A short key is within what the lexer looks back for.** -/
theorem octets_keyText {s : String} (h : isSimpleKey s) :
    octets (keyText s) ≤ Lexer.longestKey := by
  obtain ⟨hsize, hbreak⟩ := (isSimpleKey_iff s).mp h
  have hshort : octets s.toList ≤ 128 := by
    rw [← utf8ByteSize_ofList, String.ofList_toList]
    exact hsize
  have hdouble := octets_flatMap_le octets_doubleChar s.toList
  have hsingle := octets_flatMap_le octets_singleChar s.toList
  have hquotes : '"'.utf8Size = 1 ∧ '\''.utf8Size = 1 := ⟨rfl, rfl⟩
  have hlongest : Lexer.longestKey = 1024 := rfl
  unfold keyText
  rcases styleOf_cases s with ⟨h, -⟩ | ⟨h, -⟩ | h | ⟨h, -⟩ <;> rw [h]
  · show octets s.toList ≤ _
    omega
  · simp only [singleQuoted_of_no_break hbreak, octets_cons, octets_append, octets_nil]
    omega
  · simp only [doubleQuoted, octets_cons, octets_append, octets_nil]
    omega
  · simp only [doubleQuoted, octets_cons, octets_append, octets_nil]
    omega

/-! ## Characters -/

/-- Documents may hold every character of the text. -/
def AllAllowed (cs : List Char) : Prop := ∀ c ∈ cs, isAllowed c

theorem allAllowed_append {cs ds : List Char} :
    AllAllowed (cs ++ ds) ↔ AllAllowed cs ∧ AllAllowed ds := List.forall_mem_append

theorem allAllowed_cons {c : Char} {cs : List Char} :
    AllAllowed (c :: cs) ↔ isAllowed c ∧ AllAllowed cs := List.forall_mem_cons

theorem allAllowed_nil : AllAllowed [] := by
  intro c hc; cases hc

theorem allAllowed_of_printable {cs : List Char} (h : ∀ c ∈ cs, isPrintable c) : AllAllowed cs :=
  fun c hc => isAllowed_of_printable (h c hc)

theorem allAllowed_spaces (n : Nat) : AllAllowed (spaces n) := by
  intro c hc
  rw [List.eq_of_mem_replicate hc]
  rfl

theorem allAllowed_word {cs : List Char} (h : isWord cs) : AllAllowed cs :=
  fun c hc => isAllowed_of_printable (wordChar_facts (isWordChar_of_mem h c hc)).1

theorem isAllowed_hexDigit : ∀ d, d < 16 → isAllowed (hexDigit d) := by decide

theorem allAllowed_hexDigits (width n : Nat) : AllAllowed (hexDigits width n) := by
  induction width generalizing n with
  | zero => exact allAllowed_nil
  | succ width ih =>
    refine allAllowed_append.mpr ⟨ih _, allAllowed_cons.mpr ⟨?_, allAllowed_nil⟩⟩
    exact isAllowed_hexDigit _ (Nat.mod_lt n (by decide))

/-- **An escape needs no character that documents may not hold**, whatever it stands for. -/
theorem allAllowed_escape (c : Char) : AllAllowed (escape c) := by
  unfold escape
  split
  case h_1 e he =>
    refine allAllowed_cons.mpr ⟨rfl, allAllowed_cons.mpr ⟨?_, allAllowed_nil⟩⟩
    unfold shortEscape? at he
    split at he <;> cases he <;> rfl
  case h_2 =>
    extract_lets n
    have hnumeric (x : Char) (hx : isAllowed x) (width : Nat) :
        AllAllowed ('\\' :: x :: hexDigits width n) :=
      allAllowed_cons.mpr ⟨rfl, allAllowed_cons.mpr ⟨hx, allAllowed_hexDigits width n⟩⟩
    split
    · exact hnumeric 'x' rfl 2
    · split
      · exact hnumeric 'u' rfl 4
      · exact hnumeric 'U' rfl 8

theorem allAllowed_doubleChar (c : Char) : AllAllowed (doubleChar c) := by
  unfold doubleChar
  split
  case isTrue h =>
    simp only [Bool.and_eq_true] at h
    exact allAllowed_cons.mpr ⟨isAllowed_of_printable h.1.1.1, allAllowed_nil⟩
  case isFalse h => exact allAllowed_escape c

theorem allAllowed_doubleQuoted (cs : List Char) : AllAllowed (doubleQuoted cs) := by
  refine allAllowed_cons.mpr ⟨rfl, allAllowed_append.mpr ⟨fun c hc => ?_,
    allAllowed_cons.mpr ⟨rfl, allAllowed_nil⟩⟩⟩
  obtain ⟨d, -, hd⟩ := List.mem_flatMap.mp hc
  exact allAllowed_doubleChar d c hd

theorem allAllowed_indented {write : Char → List Char} {cs : List Char}
    (h : ∀ c ∈ cs, isAllowed c ∧ AllAllowed (write c)) (width : Nat) (fresh : Bool) :
    AllAllowed (indented width write fresh cs) := by
  induction cs generalizing fresh with
  | nil => exact allAllowed_nil
  | cons c cs ih =>
    have htail : ∀ d ∈ cs, isAllowed d ∧ AllAllowed (write d) := fun d hd => h d (by simp [hd])
    rw [indented]
    split
    · exact allAllowed_cons.mpr ⟨(h c (by simp)).1, ih htail true⟩
    · refine allAllowed_append.mpr ⟨allAllowed_append.mpr ⟨?_, (h c (by simp)).2⟩, ih htail false⟩
      split
      · exact allAllowed_spaces width
      · exact allAllowed_nil

theorem allAllowed_singleQuoted {cs : List Char} (h : ∀ c ∈ cs, isPrintable c) (width : Nat) :
    AllAllowed (singleQuoted width cs) := by
  rw [singleQuoted_eq]
  refine allAllowed_cons.mpr ⟨rfl, allAllowed_append.mpr ⟨allAllowed_append.mpr ⟨?_, ?_⟩,
    allAllowed_cons.mpr ⟨rfl, allAllowed_nil⟩⟩⟩
  · refine allAllowed_indented (fun c hc => ?_) width false
    have hall := isAllowed_of_printable (h c hc)
    refine ⟨hall, ?_⟩
    unfold singleChar
    split
    · exact allAllowed_cons.mpr ⟨rfl, allAllowed_cons.mpr ⟨rfl, allAllowed_nil⟩⟩
    · exact allAllowed_cons.mpr ⟨hall, allAllowed_nil⟩
  · split
    · exact allAllowed_spaces width
    · exact allAllowed_nil

theorem allAllowed_literal {cs : List Char} (h : ∀ c ∈ cs, isPrintable c) (width : Nat) :
    AllAllowed (literal width cs) := by
  have hhint : AllAllowed (indentHint cs) := by
    unfold indentHint
    split
    · exact allAllowed_cons.mpr ⟨rfl, allAllowed_nil⟩
    · exact allAllowed_nil
  have hchomp : AllAllowed (chompHint cs) := by
    have hsingle (c : Char) (hc : isAllowed c) : AllAllowed [c] :=
      allAllowed_cons.mpr ⟨hc, allAllowed_nil⟩
    unfold chompHint
    repeat' split
    all_goals first | exact allAllowed_nil | exact hsingle _ rfl
  refine allAllowed_cons.mpr ⟨rfl, allAllowed_append.mpr ⟨allAllowed_append.mpr
    ⟨allAllowed_append.mpr ⟨hhint, hchomp⟩, allAllowed_cons.mpr ⟨rfl, ?_⟩⟩, ?_⟩⟩
  · refine allAllowed_indented (fun c hc => ?_) width true
    have hall := isAllowed_of_printable (h c hc)
    exact ⟨hall, allAllowed_cons.mpr ⟨hall, allAllowed_nil⟩⟩
  · split
    · exact allAllowed_nil
    · exact allAllowed_cons.mpr ⟨rfl, allAllowed_nil⟩

theorem allAllowed_line {cs : List Char} (h : AllAllowed cs) : AllAllowed (cs ++ ['\n']) :=
  allAllowed_append.mpr ⟨h, allAllowed_cons.mpr ⟨rfl, allAllowed_nil⟩⟩

/-- **A string is written without characters that documents may not hold**, whatever it is. -/
theorem allAllowed_stringLine (width : Nat) (s : String) : AllAllowed (stringLine width s) := by
  unfold stringLine
  rcases styleOf_cases s with ⟨h, -, hf⟩ | ⟨h, hf, -⟩ | h | ⟨h, hf, -⟩ <;> rw [h]
  · exact allAllowed_line (allAllowed_of_printable
      fun c hc => isPrintable_of_mem (fitsPlain_iff.mp hf).1 hc)
  · simp only [fitsSingle, Bool.and_eq_true] at hf
    exact allAllowed_line (allAllowed_singleQuoted (fun c hc => isPrintable_of_mem hf.1.1 hc) width)
  · exact allAllowed_line (allAllowed_doubleQuoted _)
  · simp only [fitsLiteral, Bool.and_eq_true] at hf
    exact allAllowed_literal (fun c hc => isPrintable_of_mem hf.1.1.1 hc) width

theorem allAllowed_keyText (s : String) : AllAllowed (keyText s) := by
  unfold keyText
  rcases styleOf_cases s with ⟨h, -, hf⟩ | ⟨h, hf, -⟩ | h | ⟨h, hf, -⟩ <;> rw [h]
  · exact allAllowed_of_printable fun c hc => isPrintable_of_mem (fitsPlain_iff.mp hf).1 hc
  · simp only [fitsSingle, Bool.and_eq_true] at hf
    exact allAllowed_singleQuoted (fun c hc => isPrintable_of_mem hf.1.1 hc) 0
  · exact allAllowed_doubleQuoted _
  · exact allAllowed_doubleQuoted _

end ConfigVault.Yaml.Writer
