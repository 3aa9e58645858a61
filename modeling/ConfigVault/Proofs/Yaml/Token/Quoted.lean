import ConfigVault.Proofs.Text.Utf8
import ConfigVault.Proofs.Yaml.Style
import ConfigVault.Yaml.Token.Quoted
import Mathlib.Algebra.Group.Nat.Defs

/-! # Reading quoted text back

One lemma for each thing that can stand between quotes: a character, a blank, a line break, an
escape and the closing quote.  Text in double quotes is then read back character by character
(`scan_doubleQuoted`), whatever it is, and text in single quotes if it fits them
(`scan_singleQuoted`).
-/
namespace ConfigVault.Yaml.Quoted

open Writer (spaces)
open Plain (isInline before_addBlank isInline_addBlank)

variable {single : Bool} {began m : Mark} {gap : Option Gap} {seen rest : List Char} {c : Char}

/-- Only at the beginning of a line can text be cut off by a document indicator. -/
theorem resume_of_column (hm : 0 < m.column) : resume began none m rest gap = .ok () := by
  have h : (m.column == 0) = false := by simp; omega
  cases gap with
  | none => rfl
  | some gap =>
    simp only [resume, Cursor.atDocumentIndicator, h, Bool.false_and]
    rfl

/-- A blank belongs to a gap. -/
theorem scan_blank (hc : isBlank c) :
    scan single began none (c :: rest) 0 m gap seen =
      scan single began none rest 0 (m.behind [c]) (some ((gap.getD (.blanks [])).addBlank c))
        seen := by
  rw [scan, if_pos hc, Mark.past_of_not_break (isBreak_of_blank hc)]
  simp only [lookAhead_none]
  cases gap.isNone <;> rfl

/-- A line break belongs to a gap. -/
theorem scan_break (hc : isBreak c) (hr : c ≠ '\r') :
    scan single began none (c :: rest) 0 m gap seen =
      scan single began none rest 0 (m.newLine c)
        (some ((gap.getD (.blanks [])).addBreak c)) seen := by
  rw [scan, if_neg (by simp [isBlank_of_break hc]), if_neg (by simp [isReturnOfPair, hr]), if_pos hc,
    Mark.past_of_break hc hr, lookAhead_none]
  rfl

/-- A character that means nothing else ends a gap. -/
theorem scan_char (hblank : isBlank c = false) (hbreak : isBreak c = false)
    (hc : if single then c ≠ '\'' else c ≠ '"' ∧ c ≠ '\\')
    (hr : resume began none m (c :: rest) gap = .ok ()) :
    scan single began none (c :: rest) 0 m gap seen =
      scan single began none rest 0 (m.behind [c]) none (c :: Gap.before gap seen) := by
  rw [scan, if_neg (by simp [hblank]), if_neg (by simp [isReturnOfPair_of_not_break hbreak]),
    if_neg (by simp [hbreak]), hr, Mark.past_of_not_break hbreak]
  cases single with
  | true => simp only [if_true] at hc ⊢; rw [if_neg hc]; rfl
  | false =>
    simp only [Bool.false_eq_true, if_false] at hc ⊢
    rw [if_neg hc.1, if_neg hc.2]
    rfl

/-- Characters that an escape has accounted for are passed over. -/
theorem scan_skip {xs : List Char} (h : ∀ x ∈ xs, isBreak x = false) :
    scan single began none (xs ++ rest) xs.length m gap seen =
      scan single began none rest 0 (m.behind xs) gap seen := by
  induction xs generalizing m with
  | nil => rfl
  | cons x xs ih =>
    rw [List.cons_append, List.length_cons, scan, Mark.past_of_not_break (h x (by simp)),
      ih fun y hy => h y (by simp [hy]), Mark.behind_behind, List.singleton_append]

/-! ## Double quotes -/

/-- Behind a backslash the characters stand for `c`. -/
structure IsEscape (xs : List Char) (c : Char) : Prop where
  oneLine : ∀ x ∈ xs, isBreak x = false
  ne_nil : xs ≠ []
  escape_eq : ∀ began m rest, escape began none m (xs ++ rest) = .ok (c, xs.length)

/-- A letter that names an escape. -/
theorem IsEscape.named {e c : Char} (he : isBreak e = false) (h : namedEscape? e = some c) :
    IsEscape [e] c :=
  ⟨by simpa using he, by simp, fun began m rest => by rw [List.singleton_append, escape, h]; rfl⟩

/-- The number of a character in hexadecimal digits. -/
theorem IsEscape.numeric {x c : Char} {ds : List Char} (hx : namedEscape? x = none)
    (hn : escapeDigits? x = some ds.length) (hb : ∀ d ∈ x :: ds, isBreak d = false)
    (hd : ∀ rest, hexNumber? ds.length 0 (ds ++ rest) = some c.toNat) :
    IsEscape (x :: ds) c := by
  refine ⟨hb, by simp, fun began m rest => ?_⟩
  have hv : c.toNat.isValidChar := c.valid
  rw [List.cons_append, escape, hx]
  dsimp only
  rw [hn]
  dsimp only
  rw [lookAhead_none, hd rest]
  exact dif_pos hv

/-- **An escape is read as its character.** -/
theorem scan_escape {xs : List Char} (h : IsEscape xs c)
    (hr : resume began none m ('\\' :: (xs ++ rest)) gap = .ok ()) :
    scan false began none ('\\' :: (xs ++ rest)) 0 m gap seen =
      scan false began none rest 0 (m.behind ('\\' :: xs)) none (c :: Gap.before gap seen) := by
  have hhead : (xs ++ rest).head?.any isBreak = false := by
    cases xs with
    | nil => exact absurd rfl h.ne_nil
    | cons x xs => simpa using h.oneLine x (by simp)
  rw [scan, if_neg (by decide), if_neg (by simp [isReturnOfPair]), if_neg (by decide), hr]
  simp only [Bool.false_eq_true, if_false, hhead, h.escape_eq, Mark.past_of_not_break
    (show isBreak '\\' = false from rfl), show ¬ ('\\' = '"') by decide, if_true]
  exact (scan_skip h.oneLine).trans (by rw [Mark.behind_behind, List.singleton_append])

/-- The closing quote. -/
theorem scan_closeDouble (hr : resume began none m ('"' :: rest) gap = .ok ()) :
    scan false began none ('"' :: rest) 0 m gap seen =
      .ok (String.ofList (Gap.before gap seen).reverse, ⟨m.behind ['"'], rest, none⟩) := by
  rw [scan, if_neg (by decide), if_neg (by simp [isReturnOfPair]), if_neg (by decide), hr,
    Mark.past_of_not_break rfl]
  simp only [Bool.false_eq_true, if_false, if_true]
  rfl

/-! ## Escapes as they are written -/

theorem hexValue?_hexDigit : ∀ d, d < 16 → hexValue? (Writer.hexDigit d) = some d := by decide

theorem isBreak_hexDigit : ∀ d, d < 16 → isBreak (Writer.hexDigit d) = false := by decide

@[simp] theorem length_hexDigits (width n : Nat) : (Writer.hexDigits width n).length = width := by
  induction width generalizing n with
  | zero => rfl
  | succ width ih => simp [Writer.hexDigits, ih]

theorem isBreak_hexDigits {width n : Nat} :
    ∀ d ∈ Writer.hexDigits width n, isBreak d = false := by
  induction width generalizing n with
  | zero => simp [Writer.hexDigits]
  | succ width ih =>
    intro d hd
    rcases List.mem_append.mp hd with hd | hd
    · exact ih d hd
    · rw [List.mem_singleton.mp hd]
      exact isBreak_hexDigit _ (Nat.mod_lt n (by decide))

theorem hexNumber?_append (xs ys : List Char) (n v : Nat) :
    hexNumber? (xs.length + n) v (xs ++ ys) =
      (hexNumber? xs.length v xs).bind fun w => hexNumber? n w ys := by
  induction xs generalizing v with
  | nil => simp [hexNumber?]
  | cons x xs ih =>
    rw [List.length_cons, Nat.succ_add, List.cons_append, hexNumber?, hexNumber?]
    cases hexValue? x with
    | none => rfl
    | some d => exact ih _

theorem hexNumber?_hexDigits (width n v : Nat) :
    hexNumber? width v (Writer.hexDigits width n) = some (v * 16 ^ width + n % 16 ^ width) := by
  induction width generalizing n with
  | zero => simp [hexNumber?, Nat.mod_one]
  | succ width ih =>
    have h := hexNumber?_append (Writer.hexDigits width (n / 16)) [Writer.hexDigit (n % 16)] 1 v
    rw [length_hexDigits, ih] at h
    rw [Writer.hexDigits, h, Option.bind_some, hexNumber?,
      hexValue?_hexDigit _ (Nat.mod_lt n (by decide))]
    simp only [hexNumber?, Option.some.injEq]
    rw [Nat.pow_succ, Nat.mul_comm (16 ^ width) 16, Nat.mod_mul]
    rw [Nat.add_mul, Nat.mul_assoc, Nat.mul_comm (16 ^ width) 16]
    omega

theorem IsEscape.hexDigits {x c : Char} {width : Nat} (hx : namedEscape? x = none)
    (hn : escapeDigits? x = some width) (hb : isBreak x = false) (hc : c.toNat < 16 ^ width) :
    IsEscape (x :: Writer.hexDigits width c.toNat) c := by
  refine .numeric hx (by rw [length_hexDigits, hn]) (fun d hd => ?_) fun rest => ?_
  · rcases List.mem_cons.mp hd with rfl | hd
    · exact hb
    · exact isBreak_hexDigits d hd
  · have h := hexNumber?_append (Writer.hexDigits width c.toNat) rest 0 0
    rw [Nat.add_zero] at h
    rw [h, length_hexDigits, hexNumber?_hexDigits, Option.bind_some, hexNumber?, Nat.zero_mul,
      Nat.zero_add, Nat.mod_eq_of_lt hc]

theorem namedEscape?_shortEscape {c e : Char} (h : Writer.shortEscape? c = some e) :
    isBreak e = false ∧ namedEscape? e = some c := by
  unfold Writer.shortEscape? at h
  split at h <;> cases h <;> exact ⟨rfl, rfl⟩

/-- **What is written for a character is an escape for it.** -/
theorem escape_eq_cons (c : Char) : ∃ xs, Writer.escape c = '\\' :: xs ∧ IsEscape xs c := by
  unfold Writer.escape
  cases he : Writer.shortEscape? c with
  | some e =>
    obtain ⟨hb, hn⟩ := namedEscape?_shortEscape he
    exact ⟨[e], rfl, .named hb hn⟩
  | none =>
    simp only
    split
    case isTrue h => exact ⟨_, rfl, .hexDigits rfl rfl rfl (by omega)⟩
    case isFalse h =>
      split
      case isTrue h => exact ⟨_, rfl, .hexDigits rfl rfl rfl (by omega)⟩
      case isFalse h =>
        have hc : c.toNat < 0x110000 := by
          rcases Text.Utf8.isValidChar_toNat c with h | h <;> omega
        exact ⟨_, rfl, .hexDigits rfl rfl rfl (by omega)⟩

/-- **A character in double quotes is read back.** -/
theorem scan_doubleChar (began : Mark) (seen : List Char) (hm : 0 < m.column) (hgap : isInline gap)
    (c : Char) (rest : List Char) :
    ∃ gap' seen', isInline gap' ∧ Gap.before gap' seen' = c :: Gap.before gap seen ∧
      scan false began none (Writer.doubleChar c ++ rest) 0 m gap seen =
        scan false began none rest 0 (m.behind (Writer.doubleChar c)) gap' seen' := by
  unfold Writer.doubleChar
  split
  case isTrue h =>
    simp only [Bool.and_eq_true, Bool.not_eq_true', bne_iff_ne] at h
    obtain ⟨⟨⟨-, hbreak⟩, hquote⟩, hslash⟩ := h
    cases hc : isBlank c with
    | true =>
      exact ⟨_, seen, isInline_addBlank hgap c, before_addBlank hgap c seen, scan_blank hc⟩
    | false =>
      exact ⟨none, _, rfl, rfl,
        scan_char hc hbreak (by simpa using ⟨hquote, hslash⟩) (resume_of_column hm)⟩
  case isFalse h =>
    obtain ⟨xs, he, hx⟩ := escape_eq_cons c
    rw [he]
    exact ⟨none, _, rfl, rfl, scan_escape hx (resume_of_column hm)⟩

/-- **Text in double quotes is read back**, whatever it is. -/
theorem scan_doubleQuoted (cs rest : List Char) (hm : 0 < m.column) (hgap : isInline gap) :
    scan false began none (cs.flatMap Writer.doubleChar ++ '"' :: rest) 0 m gap seen =
      .ok (String.ofList ((Gap.before gap seen).reverse ++ cs),
        ⟨m.behind (cs.flatMap Writer.doubleChar ++ ['"']), rest, none⟩) := by
  induction cs generalizing m gap seen with
  | nil => simpa using scan_closeDouble (resume_of_column hm)
  | cons c cs ih =>
    obtain ⟨gap', seen', hg, hs, he⟩ := scan_doubleChar began seen hm hgap c
      (cs.flatMap Writer.doubleChar ++ '"' :: rest)
    rw [List.flatMap_cons, List.append_assoc, he, ih (by simp; omega) hg, hs]
    simp

/-- The text behind an opening double quote. -/
theorem read_doubleQuoted (m : Mark) (cs rest : List Char) :
    scan false m none (cs.flatMap Writer.doubleChar ++ '"' :: rest) 0 (m.right 1)
      (some (.blanks [])) [] =
      .ok (String.ofList cs, ⟨m.behind (Writer.doubleQuoted cs), rest, none⟩) := by
  rw [scan_doubleQuoted cs rest (by simp) rfl, show m.right 1 = m.behind ['"'] from rfl,
    Mark.behind_behind]
  simp [Writer.doubleQuoted, Gap.before, Gap.text]

/-! ## Single quotes -/

/-- How a character is written in single quotes. -/
def singleChar (c : Char) : List Char := if c = '\'' then ['\'', '\''] else [c]

theorem singleQuoted_eq (width : Nat) (cs : List Char) :
    Writer.singleQuoted width cs =
      '\'' :: (Writer.indented width singleChar false cs ++
        (if Writer.endsWithBreak cs then spaces width else []) ++ ['\'']) := rfl

/-- A character that is no blank ends a gap, be it a quote or not. -/
theorem scan_singleChar (hblank : isBlank c = false) (hbreak : isBreak c = false)
    (hm : 0 < m.column) :
    scan true began none (singleChar c ++ rest) 0 m gap seen =
      scan true began none rest 0 (m.behind (singleChar c)) none
        (c :: Gap.before gap seen) := by
  unfold singleChar
  split
  case isTrue hc =>
    subst hc
    show scan true began none ('\'' :: '\'' :: rest) 0 m gap seen = _
    rw [scan, if_neg (by decide), if_neg (by simp [isReturnOfPair]), if_neg (by decide),
      resume_of_column hm, Mark.past_of_not_break rfl]
    exact (@scan_skip true began (m.behind ['\'']) none _ rest ['\''] (by simpa using hbreak)).trans
      (by rw [Mark.behind_behind]; rfl)
  case isFalse hc =>
    exact scan_char hblank hbreak hc (resume_of_column hm)

/-- The closing quote, unless another one follows it. -/
theorem scan_closeSingle (hm : 0 < m.column) (hrest : rest.head? ≠ some '\'') :
    scan true began none ('\'' :: rest) 0 m gap seen =
      .ok (String.ofList (Gap.before gap seen).reverse, ⟨m.behind ['\''], rest, none⟩) := by
  rw [scan, if_neg (by decide), if_neg (by simp [isReturnOfPair]), if_neg (by decide),
    resume_of_column hm, Mark.past_of_not_break rfl]
  simp only [if_true, if_neg hrest]
  rfl

/-- **Text of one line in single quotes is read back.** -/
theorem scan_singleLine {cs : List Char} (h : ∀ c ∈ cs, isBreak c = false) (hm : 0 < m.column)
    (hgap : isInline gap) (hrest : rest.head? ≠ some '\'') :
    scan true began none (cs.flatMap singleChar ++ '\'' :: rest) 0 m gap seen =
      .ok (String.ofList ((Gap.before gap seen).reverse ++ cs),
        ⟨m.behind (cs.flatMap singleChar ++ ['\'']), rest, none⟩) := by
  induction cs generalizing m gap seen with
  | nil => simpa using scan_closeSingle hm hrest
  | cons c cs ih =>
    have hbreak := h c (by simp)
    have htail : ∀ d ∈ cs, isBreak d = false := fun d hd => h d (by simp [hd])
    rw [List.flatMap_cons, List.append_assoc]
    cases hc : isBlank c with
    | true =>
      have hq : singleChar c = [c] := if_neg (by rintro rfl; cases hc)
      rw [hq, List.singleton_append, scan_blank hc,
        ih htail (by simp) (isInline_addBlank hgap c), before_addBlank hgap]
      simp
    | false =>
      rw [scan_singleChar hc hbreak hm, ih htail (by simp; omega) rfl]
      simp [Gap.before]

/-- One line behind an opening single quote. -/
theorem read_singleLine {cs : List Char} (h : ∀ c ∈ cs, isBreak c = false) (m : Mark)
    (hrest : rest.head? ≠ some '\'') :
    scan true m none (cs.flatMap singleChar ++ '\'' :: rest) 0 (m.right 1) (some (.blanks [])) [] =
      .ok (String.ofList cs, ⟨m.behind ('\'' :: (cs.flatMap singleChar ++ ['\''])), rest, none⟩) := by
  rw [scan_singleLine h (by simp) rfl hrest, show m.right 1 = m.behind ['\''] from rfl,
    Mark.behind_behind]
  simp [Gap.before, Gap.text]

/-- Text without line breaks needs no indentation. -/
theorem indented_of_no_break {cs : List Char} (h : ∀ c ∈ cs, isBreak c = false) (width : Nat)
    (write : Char → List Char) : Writer.indented width write false cs = cs.flatMap write := by
  induction cs with
  | nil => rfl
  | cons c cs ih =>
    rw [Writer.indented, if_neg (by simp [h c (by simp)]), ih fun d hd => h d (by simp [hd])]
    rfl

/-- The text is over, or its next character fails the test. -/
def notAhead (p : Char → Bool) (cs : List Char) : Prop := ∀ c ∈ cs.head?, p c = false

/-- What was passed before the rest of a text in single quotes, whose next line may have just
begun: only separators break its lines, and no space stands next to one. -/
inductive Passed (cs : List Char) : (fresh : Bool) → Option Gap → Prop where
  | char : Passed cs false none
  | blanks (bs : List Char) (h : bs ≠ [] → notAhead isBreak cs) :
    Passed cs false (some (.blanks bs))
  | lines (b : Char) (more : List Char) (hb : b ≠ '\n') (h : notAhead isBlank cs) :
    Passed cs true (some (.lines (some b) more))

/-- Some separator ends the last line of the text, or the text is empty and one stands before it. -/
def endsFresh (fresh : Bool) (cs : List Char) : Bool := (cs.getLast?.map isBreak).getD fresh

theorem endsFresh_cons (fresh : Bool) (c : Char) (cs : List Char) :
    endsFresh fresh (c :: cs) = endsFresh (isBreak c) cs := by
  cases cs with
  | nil => rfl
  | cons d cs =>
    rw [endsFresh, List.getLast?_cons_cons, endsFresh]
    cases h : (d :: cs).getLast? with
    | none => simp at h
    | some e => rfl

theorem endsWithBreak_eq (cs : List Char) : Writer.endsWithBreak cs = endsFresh false cs := by
  rw [Writer.endsWithBreak, endsFresh]
  cases cs.getLast? <;> rfl

/-- A separator is kept where a line feed would be folded. -/
theorem text_lines (hc : c ≠ '\n') (more : List Char) :
    Gap.text (.lines (some c) more) = c :: more.reverse := by
  unfold Gap.text
  split <;> simp_all

namespace Passed

variable {cs : List Char} {fresh : Bool}

/-- A line break is kept, and behind it a line begins. -/
theorem addBreak (h : Passed (c :: cs) fresh gap) (hb : isBreak c) (hc : breakText c = c)
    (hn : c ≠ '\n') (hcs : notAhead isBlank cs) (seen : List Char) :
    Passed cs true (some ((gap.getD (.blanks [])).addBreak c)) ∧
      Gap.before (some ((gap.getD (.blanks [])).addBreak c)) seen = c :: Gap.before gap seen := by
  cases h with
  | char =>
    simp only [Option.getD_none, Gap.addBreak, hc, Gap.before, text_lines hn []]
    exact ⟨.lines c [] hn hcs, rfl⟩
  | blanks bs h =>
    cases bs with
    | nil =>
      simp only [Option.getD_some, Gap.addBreak, hc, Gap.before, text_lines hn []]
      exact ⟨.lines c [] hn hcs, rfl⟩
    | cons b bs => rw [h (by simp) c rfl] at hb; cases hb
  | lines b more hb' h =>
    simp only [Option.getD_some, Gap.addBreak, hc, Gap.before, text_lines hb' _]
    exact ⟨.lines b _ hb' hcs, by simp⟩

/-- A blank is kept, as long as no break follows it. -/
theorem addBlank (h : Passed (c :: cs) false gap) (hcs : notAhead isBreak cs) :
    Passed cs false (some ((gap.getD (.blanks [])).addBlank c)) := by
  cases h <;> exact .blanks _ fun _ => hcs

/-- No line begins with a blank, which would be taken for a part of its margin. -/
theorem not_fresh (h : Passed (c :: cs) fresh gap) (hc : isBlank c) : fresh = false := by
  cases h with
  | lines b more hb hcs => rw [hcs c rfl] at hc; cases hc
  | _ => rfl

theorem fresh_isInline (h : Passed cs false gap) : isInline gap := by
  cases h <;> rfl

end Passed

/-- Spaces in front of a line are passed over. -/
theorem scan_margin {cs : List Char} (h : Passed cs true gap) (n : Nat) :
    scan single began none (spaces n ++ rest) 0 m gap seen =
      scan single began none rest 0 (m.right n) gap seen := by
  induction n generalizing m with
  | zero => rfl
  | succ n ih =>
    cases h with
    | lines b more hb hcs =>
      rw [spaces_succ, List.cons_append, scan_blank rfl]
      exact (ih (m := m.right 1)).trans (by rw [Mark.right_right, Nat.add_comm])

/-- Behind the margin it makes no difference any more whether the line is a new one. -/
theorem exists_behind_margin {cs : List Char} {fresh : Bool} {width : Nat}
    (h : Passed cs fresh gap) (hm : fresh = false → 0 < m.column) (hw : 0 < width) :
    ∃ m' : Mark, m.line = m'.line ∧ 0 < m'.column ∧
      ∀ t, scan single began none ((if fresh then spaces width else []) ++ t) 0 m gap seen =
        scan single began none t 0 m' gap seen := by
  cases fresh with
  | false => exact ⟨m, rfl, hm rfl, fun t => rfl⟩
  | true => exact ⟨m.right width, rfl, by simp; omega, fun t => scan_margin h width⟩

/-- What single quotes ask of a text without line feeds, read off its first two characters. -/
structure FitsLines (cs : List Char) : Prop where
  printable : ∀ c ∈ cs, Style.isPrintable c
  noLineFeed : ∀ c ∈ cs, c ≠ '\n'
  noSpaceBehind : Style.hasAdjacent isBreak Style.isSpace cs = false
  noSpaceAhead : Style.hasAdjacent Style.isSpace isBreak cs = false

namespace FitsLines

variable {cs : List Char}

theorem tail (h : FitsLines (c :: cs)) : FitsLines cs := by
  refine ⟨fun d hd => h.printable d (by simp [hd]), fun d hd => h.noLineFeed d (by simp [hd]),
    ?_, ?_⟩
  · cases cs with
    | nil => rfl
    | cons d cs => exact (Bool.or_eq_false_iff.mp h.noSpaceBehind).2
  · cases cs with
    | nil => rfl
    | cons d cs => exact (Bool.or_eq_false_iff.mp h.noSpaceAhead).2

/-- A line break of the text is a separator, which is kept as it is. -/
theorem breakText_eq (h : FitsLines (c :: cs)) (hb : isBreak c) : breakText c = c := by
  have hp := h.printable c (by simp)
  have hn := h.noLineFeed c (by simp)
  simp only [isBreak, Bool.or_eq_true, beq_iff_eq] at hb
  rcases hb with (((rfl | rfl) | rfl) | rfl) | rfl
  · exact absurd rfl hn
  · cases hp
  · cases hp
  · rfl
  · rfl

theorem isBlank_eq (h : FitsLines (c :: cs)) : isBlank c = Style.isSpace c :=
  Style.isBlank_eq_isSpace (h.printable c (by simp))

theorem notAhead_blank (h : FitsLines (c :: cs)) (hc : isBreak c) : notAhead isBlank cs := by
  cases cs with
  | nil => intro d hd; cases hd
  | cons d cs =>
    rintro e ⟨⟩
    rw [h.tail.isBlank_eq]
    have := (Bool.or_eq_false_iff.mp h.noSpaceBehind).1
    rwa [hc, Bool.true_and] at this

theorem notAhead_break (h : FitsLines (c :: cs)) (hc : isBlank c) : notAhead isBreak cs := by
  cases cs with
  | nil => intro d hd; cases hd
  | cons d cs =>
    rintro e ⟨⟩
    have := (Bool.or_eq_false_iff.mp h.noSpaceAhead).1
    rwa [← h.isBlank_eq, hc, Bool.true_and] at this

end FitsLines

/-- **Text in single quotes is read back**, with lines of any indentation. -/
theorem scan_singleQuoted {cs : List Char} {fresh : Bool} {width : Nat} (h : FitsLines cs)
    (hgap : Passed cs fresh gap) (hm : fresh = false → 0 < m.column) (hw : 0 < width)
    (hrest : rest.head? ≠ some '\'') :
    ∃ m', m.line ≤ m'.line ∧
      scan true began none (Writer.indented width singleChar fresh cs ++
        ((if endsFresh fresh cs then spaces width else []) ++ '\'' :: rest)) 0 m gap seen =
        .ok (String.ofList ((Gap.before gap seen).reverse ++ cs), ⟨m', rest, none⟩) := by
  induction cs generalizing m gap seen fresh with
  | nil =>
    obtain ⟨m₀, hline, hcol, hmargin⟩ :=
      @exists_behind_margin true began m gap seen [] fresh width hgap hm hw
    refine ⟨m₀.behind ['\''], Nat.le_of_eq hline, ?_⟩
    show scan true began none ((if fresh then spaces width else []) ++ '\'' :: rest) 0 m gap seen = _
    rw [hmargin, scan_closeSingle hcol hrest, List.append_nil]
  | cons c cs ih =>
    rw [Writer.indented, endsFresh_cons]
    cases hbreak : isBreak c with
    | true =>
      -- A break only grows the gap, and the next character begins a line.
      obtain ⟨hp, hbefore⟩ := hgap.addBreak hbreak (h.breakText_eq hbreak)
        (h.noLineFeed c (by simp)) (h.notAhead_blank hbreak) seen
      have hr : c ≠ '\r' := Style.ne_return_of_printable (h.printable c (by simp))
      obtain ⟨m', hle, he⟩ := @ih (m.newLine c) _ seen _ h.tail hp (by simp)
      refine ⟨m', by simp at hle; omega, ?_⟩
      rw [if_pos rfl, List.cons_append, scan_break hbreak hr, he, hbefore]
      simp
    | false =>
      obtain ⟨m₀, hline, hcol, hmargin⟩ :=
        @exists_behind_margin true began m gap seen (c :: cs) fresh width hgap hm hw
      rw [if_neg (by simp), List.append_assoc, List.append_assoc, hmargin]
      cases hblank : isBlank c with
      | true =>
        have hq : singleChar c = [c] := if_neg (by rintro rfl; cases hblank)
        obtain rfl := hgap.not_fresh hblank
        obtain ⟨m', hle, he⟩ := @ih (m₀.behind [c]) _ seen _ h.tail
          (hgap.addBlank (h.notAhead_break hblank)) (by simp)
        refine ⟨m', by simp at hle; omega, ?_⟩
        rw [hq, List.singleton_append, scan_blank hblank, he,
          before_addBlank hgap.fresh_isInline]
        simp
      | false =>
        obtain ⟨m', hle, he⟩ := @ih (m₀.behind (singleChar c)) _ (c :: Gap.before gap seen) _
          h.tail .char (by simp; omega)
        refine ⟨m', by simp at hle; omega, ?_⟩
        rw [scan_singleChar hblank hbreak hcol, he]
        simp [Gap.before]

/-- The lines behind an opening single quote. -/
theorem read_singleQuoted {cs : List Char} (h : FitsLines cs) {width : Nat} (hw : 0 < width)
    (m : Mark) (hrest : rest.head? ≠ some '\'') :
    ∃ m', m.line ≤ m'.line ∧
      scan true m none (Writer.indented width singleChar false cs ++
        ((if endsFresh false cs then spaces width else []) ++ '\'' :: rest)) 0 (m.right 1)
        (some (.blanks [])) [] = .ok (String.ofList cs, ⟨m', rest, none⟩) := by
  have hm : false = false → 0 < (m.right 1).column := fun _ => by simp
  exact scan_singleQuoted h (.blanks [] (by simp)) hm hw hrest

end ConfigVault.Yaml.Quoted
