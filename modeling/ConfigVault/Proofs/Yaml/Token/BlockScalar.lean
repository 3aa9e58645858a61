import ConfigVault.Proofs.Yaml.Style
import ConfigVault.Yaml.Token.BlockScalar

/-! # Reading literal blocks back

A literal block is written line by line, each line behind the same indentation and empty lines
without any.  What the reader does with a character of the text does not depend on where the
indentation stands, only on whether a line has begun (`advance`), so reading the block amounts to
`advance` over its text (`scan_indented`), and nothing of the text is lost on the way
(`content_advance`).  The break that ends the last line is kept, doubled or left out as the header
announces (`text_final`).
-/
namespace ConfigVault.Yaml.BlockScalar

open Writer (spaces indented)

/-! ## One character of the text -/

/-- The place and the lines after one more character of the text. -/
def advance (c : Char) : Place × Lines → Place × Lines
  | (.line, l) =>
    if isBreak c then (.margin [], { l with lastBreak := some (breakText c) })
    else (.line, { l with seen := c :: l.seen })
  | (.margin breaks, l) =>
    if isBreak c then (.margin (breakText c :: breaks), l) else (.line, l.newLine true breaks c)

/-- The characters that were read, latest first. -/
def content (s : Place × Lines) : List Char :=
  s.1.breaks ++ (s.2.lastBreak.toList ++ s.2.seen)

/-- No break stands behind a line that is not over. -/
def IsOpen (s : Place × Lines) : Prop := s.1 = .line → s.2.lastBreak = none

theorem isOpen_advance (c : Char) {s : Place × Lines} (h : IsOpen s) : IsOpen (advance c s) := by
  obtain ⟨_ | _, l⟩ := s
  · rw [advance]
    split
    · intro hl; cases hl
    · intro _; rfl
  · rw [advance]
    split
    · intro hl; cases hl
    · intro _; exact h rfl

/-- **No character is lost.** -/
theorem content_advance {c : Char} (hc : isBreak c → breakText c = c) {s : Place × Lines}
    (h : IsOpen s) : content (advance c s) = c :: content s := by
  obtain ⟨breaks | _, l⟩ := s
  · rw [advance]
    split
    case isTrue hb => simp [content, Place.breaks, hc hb]
    case isFalse hb => simp [content, Place.breaks, Lines.newLine]
  · have hl : l.lastBreak = none := h rfl
    rw [advance]
    split
    case isTrue hb => simp [content, Place.breaks, hc hb, hl]
    case isFalse hb => simp [content, Place.breaks, hl]

/-- The place and the lines after a text. -/
def advanceAll (cs : List Char) (s : Place × Lines) : Place × Lines :=
  cs.foldl (fun s c => advance c s) s

theorem advanceAll_append (cs ds : List Char) (s : Place × Lines) :
    advanceAll (cs ++ ds) s = advanceAll ds (advanceAll cs s) := List.foldl_append

theorem isOpen_advanceAll (cs : List Char) {s : Place × Lines} (h : IsOpen s) :
    IsOpen (advanceAll cs s) := by
  induction cs generalizing s with
  | nil => exact h
  | cons c cs ih => exact ih (isOpen_advance c h)

theorem content_advanceAll {cs : List Char} (hcs : ∀ c ∈ cs, isBreak c → breakText c = c)
    {s : Place × Lines} (h : IsOpen s) :
    content (advanceAll cs s) = cs.reverse ++ content s := by
  induction cs generalizing s with
  | nil => rfl
  | cons c cs ih =>
    show content (advanceAll cs (advance c s)) = _
    rw [ih (fun d hd => hcs d (by simp [hd])) (isOpen_advance c h),
      content_advance (hcs c (by simp)) h]
    simp

/-! ## The lines of a block -/

section Scan

variable {k : Chomping} {indent : Nat} {began m : Mark} {l : Lines} {breaks cs rest : List Char}

/-- In a line every character is read as it is. -/
theorem scan_line {c : Char} (hc : c ≠ '\r') :
    scan true k indent began none (c :: rest) m .line l =
      scan true k indent began none rest (m.past c rest) (advance c (.line, l)).1
        (advance c (.line, l)).2 := by
  rw [scan, if_neg (by simp [isReturnOfPair_of_ne hc])]
  simp only [advance]
  split <;> rfl

/-- An indentation is passed over, as far as lines are indented. -/
theorem scan_spaces {n : Nat} (h : m.column + n ≤ indent) :
    scan true k indent began none (spaces n ++ rest) m (.margin breaks) l =
      scan true k indent began none rest (m.right n) (.margin breaks) l := by
  induction n generalizing m with
  | zero => rfl
  | succ n ih =>
    rw [spaces_succ, List.cons_append, scan, if_neg (by simp [isReturnOfPair]), Mark.past_space]
    simp only [show m.column < indent from by omega, decide_true, beq_self_eq_true, Bool.and_self,
      if_true]
    rw [ih (by simp; omega), Mark.right_right, Nat.add_comm]

/-- Behind the indentation a line begins with its first character, whatever it is. -/
theorem scan_newLine {c : Char} (hc : isBreak c = false) (hm : m.column = indent) :
    scan true k indent began none (c :: rest) m (.margin breaks) l =
      scan true k indent began none rest (m.behind [c]) (advance c (.margin breaks, l)).1
        (advance c (.margin breaks, l)).2 := by
  rw [scan, if_neg (by simp [isReturnOfPair_of_not_break hc]), Mark.past_of_not_break hc]
  simp [hm, hc, advance]

/-- An empty line. -/
theorem scan_emptyLine {c : Char} (hc : isBreak c) (hr : c ≠ '\r') :
    scan true k indent began none (c :: rest) m (.margin breaks) l =
      scan true k indent began none rest (m.newLine c)
        (advance c (.margin breaks, l)).1 (advance c (.margin breaks, l)).2 := by
  have hb := isBlank_of_break hc
  simp only [isBlank, Bool.or_eq_false_iff] at hb
  rw [scan, if_neg (by simp [isReturnOfPair_of_ne hr]), Mark.past_of_break hc hr]
  simp [hb, hc, advance]

/-- Where the reader stands in the lines of a block: behind the indentation of a line that has
begun, or in front of a line. -/
def Aligned (fresh : Bool) (m : Mark) (place : Place) : Prop :=
  if fresh then m.column = 0 ∧ place ≠ .line else place = .line

/-- A break ends a line, be it empty or not. -/
theorem scan_break {c : Char} (hc : isBreak c) (hr : c ≠ '\r') (place : Place) :
    scan true k indent began none (c :: rest) m place l =
      scan true k indent began none rest (m.newLine c) (advance c (place, l)).1
        (advance c (place, l)).2 := by
  cases place with
  | line => rw [scan_line hr, Mark.past_of_break hc hr]
  | margin breaks => exact scan_emptyLine hc hr

/-- Any other character is read behind the indentation, if a line begins with it. -/
theorem exists_scan_char {fresh : Bool} {place : Place} {c : Char} (hc : isBreak c = false)
    (hr : c ≠ '\r') (h : Aligned fresh m place) :
    ∃ m' : Mark, m.line = m'.line ∧ ∀ rest,
      scan true k indent began none ((if fresh then spaces indent else []) ++ c :: rest) m place l =
        scan true k indent began none rest m' (advance c (place, l)).1 (advance c (place, l)).2 := by
  cases fresh with
  | true =>
    obtain ⟨hm, hplace⟩ := h
    cases place with
    | line => exact absurd rfl hplace
    | margin breaks =>
      refine ⟨(m.right indent).behind [c], rfl, fun rest => ?_⟩
      rw [if_pos rfl, scan_spaces (by omega), scan_newLine hc (by simp [hm])]
  | false =>
    obtain rfl : place = .line := h
    refine ⟨m.behind [c], rfl, fun rest => ?_⟩
    rw [if_neg (by simp), List.nil_append, scan_line hr, Mark.past_of_not_break hc]

/-- **Reading indented text comes to advancing over it.** -/
theorem scan_indented (indent : Nat) (began : Mark) (l : Lines) (rest : List Char) {fresh : Bool}
    {place : Place} (hcs : ∀ c ∈ cs, c ≠ '\r') (h : Aligned fresh m place) :
    ∃ m' : Mark, m.line ≤ m'.line ∧
      ((advanceAll cs (place, l)).1 ≠ .line → m'.column = 0) ∧
      scan true k indent began none (indented indent (fun c => [c]) fresh cs ++ rest) m place l =
        scan true k indent began none rest m' (advanceAll cs (place, l)).1
          (advanceAll cs (place, l)).2 := by
  -- A break ends the line and leaves the next one fresh; any other character stands in a line,
  -- behind its indentation if it is the first.
  induction cs generalizing m l fresh place with
  | nil =>
    refine ⟨m, Nat.le_refl _, fun hp => ?_, rfl⟩
    cases fresh with
    | true => exact h.1
    | false => exact absurd h hp
  | cons c cs ih =>
    have hr := hcs c (by simp)
    have htail : ∀ d ∈ cs, d ≠ '\r' := fun d hd => hcs d (by simp [hd])
    rw [indented]
    cases hb : isBreak c with
    | true =>
      have hnext : (advance c (place, l)).1 ≠ .line := by
        cases place <;> simp [advance, hb]
      obtain ⟨m', hle, hcol, he⟩ := @ih (m.newLine c)
        (advance c (place, l)).2 true _ htail ⟨rfl, hnext⟩
      refine ⟨m', by simp at hle; omega, hcol, ?_⟩
      rw [if_pos rfl, List.cons_append, scan_break hb hr]
      exact he
    | false =>
      have hnext : (advance c (place, l)).1 = .line := by
        cases place <;> simp [advance, hb]
      obtain ⟨m₁, hline, hscan⟩ := @exists_scan_char k indent began m l fresh place c hb hr h
      obtain ⟨m', hle, hcol, he⟩ := @ih m₁ (advance c (place, l)).2 false _ htail hnext
      refine ⟨m', by omega, hcol, ?_⟩
      rw [if_neg (by simp), List.append_assoc, List.append_assoc, List.singleton_append, hscan]
      exact he

/-- The block ends in front of text that is indented too little. -/
theorem scan_end {n : Nat} (hm : m.column = 0) (hn : n < indent) (hrest : startsToken rest) :
    scan true k indent began none (spaces n ++ rest) m (.margin breaks) l =
      .ok (String.ofList (l.text k breaks), ⟨m.right n, rest, none⟩) := by
  rw [scan_spaces (by omega)]
  cases rest with
  | nil => simp [scan, Place.breaks]; rfl
  | cons c rest =>
    obtain ⟨hblank, hbreak, -⟩ := startsToken_cons hrest
    obtain ⟨hspace, htab⟩ := Bool.or_eq_false_iff.mp hblank
    have hcol : (m.right n).column = n := by simp [hm]
    rw [scan, if_neg (by simp [isReturnOfPair_of_not_break hbreak])]
    simp only [hspace, htab, hbreak, hcol, Bool.and_false, Bool.false_eq_true, if_false,
      show ¬ n = indent from by omega]

end Scan

/-! ## The end of a block -/

/-- What becomes of the break that ends the last line of a text: it is left out if the text does not
end with one, and more than one, or nothing but one, are all kept. -/
def chompingOf (cs : List Char) : Chomping :=
  match cs.reverse with
  | [] => .strip
  | [c] => if isBreak c then .keep else .strip
  | c :: d :: _ => if !isBreak c then .strip else if isBreak d then .keep else .clip

/-- The text with a break at its end. -/
def closed (cs : List Char) : List Char := cs ++ if Writer.endsWithBreak cs then [] else ['\n']

/-- No character has been read. -/
def start : Place × Lines := (.margin [], .empty)

theorem isOpen_start : IsOpen start := by
  intro h; cases h

theorem advance_of_break {c : Char} (h : isBreak c) (s : Place × Lines) :
    (advance c s).1 = .margin (advance c s).1.breaks := by
  obtain ⟨_ | _, l⟩ := s <;> simp [advance, h, Place.breaks]

theorem advance_of_not_break {c : Char} (h : isBreak c = false) (s : Place × Lines) :
    (advance c s).1 = .line := by
  obtain ⟨_ | _, l⟩ := s <;> simp [advance, h]

/-- The break behind a line is no empty line. -/
theorem advance_after_line {c : Char} (h : isBreak c) {s : Place × Lines} (hs : s.1 = .line) :
    (advance c s).1 = .margin [] := by
  obtain ⟨_ | _, l⟩ := s
  · cases hs
  · simp [advance, h]

theorem advanceAll_concat (cs : List Char) (c : Char) (s : Place × Lines) :
    advanceAll (cs ++ [c]) s = advance c (advanceAll cs s) := advanceAll_append cs [c] s

theorem chompingOf_of_not_break {init : List Char} {c : Char} (hc : isBreak c = false) :
    chompingOf (init ++ [c]) = .strip := by
  rw [chompingOf, List.reverse_append]
  cases init.reverse <;> simp [hc]

/-- What stands in front of the last break tells whether other breaks are kept with it. -/
theorem chompingOf_of_break {init : List Char} {c : Char} (hc : isBreak c) :
    chompingOf (init ++ [c]) = .keep ∨
      chompingOf (init ++ [c]) = .clip ∧ (advanceAll (init ++ [c]) start).1 = .margin [] := by
  rcases List.eq_nil_or_concat init with rfl | ⟨init, d, rfl⟩
  · exact .inl (by simp [chompingOf, hc])
  · cases hd : isBreak d with
    | true => exact .inl (by simp [chompingOf, hc, hd])
    | false =>
      refine .inr ⟨by simp [chompingOf, hc, hd], ?_⟩
      rw [List.concat_eq_append, advanceAll_concat]
      exact advance_after_line hc (by rw [advanceAll_concat, advance_of_not_break hd])

/-- **The lines of a closed text are the text**, with the chomping that goes with it. -/
theorem text_final {cs : List Char} (hne : cs ≠ []) (hcs : ∀ c ∈ cs, isBreak c → breakText c = c) :
    ∃ breaks, (advanceAll (closed cs) start).1 = .margin breaks ∧
      (advanceAll (closed cs) start).2.text (chompingOf cs) breaks = cs := by
  have hopen := isOpen_advanceAll cs isOpen_start
  have hall := content_advanceAll hcs isOpen_start
  obtain ⟨init, c, rfl⟩ : ∃ init c, cs = init ++ [c] :=
    ⟨_, _, (List.dropLast_concat_getLast hne).symm⟩
  rw [closed, Writer.endsWithBreak, List.getLast?_concat, Option.any_some]
  rw [show content start = [] from rfl, List.append_nil] at hall
  cases hb : isBreak c with
  | false =>
    -- The text ends within a line, and the break that closes the block is no part of it.
    have hline : (advanceAll (init ++ [c]) start).1 = .line := by
      rw [advanceAll_concat, advance_of_not_break hb]
    rw [chompingOf_of_not_break hb]
    simp only [Bool.false_eq_true, if_false, advanceAll_concat _ '\n']
    generalize advanceAll (init ++ [c]) start = s at *
    obtain ⟨place, l⟩ := s
    obtain rfl : place = .line := hline
    have hnone : l.lastBreak = none := hopen rfl
    refine ⟨[], advance_after_line rfl rfl, ?_⟩
    simp only [content, Place.breaks, hnone, Option.toList_none, List.nil_append] at hall
    simp [advance, Lines.text, isBreak, hall]
  | true =>
    simp only [if_true, List.append_nil]
    refine ⟨_, by rw [advanceAll_concat]; exact advance_of_break hb _, ?_⟩
    rw [← advanceAll_concat]
    rcases @chompingOf_of_break init c hb with hk | ⟨hk, hm⟩
    · rw [hk, Lines.text]
      exact (congrArg List.reverse hall).trans (List.reverse_reverse _)
    · rw [hk, Lines.text]
      simp only [content, hm, Place.breaks, List.nil_append] at hall
      exact (congrArg List.reverse hall).trans (List.reverse_reverse _)

theorem indented_concat_break (width : Nat) (write : Char → List Char) (fresh : Bool)
    (cs : List Char) :
    indented width write fresh (cs ++ ['\n']) = indented width write fresh cs ++ ['\n'] := by
  induction cs generalizing fresh with
  | nil => rfl
  | cons c cs ih =>
    rw [List.cons_append, indented, indented]
    split
    · rw [ih, List.cons_append]
    · simp only [ih, List.append_assoc]

/-- What is written for a literal block are the lines of the closed text. -/
theorem literal_eq (width : Nat) (cs : List Char) :
    Writer.literal width cs =
      '|' :: (Writer.indentHint cs ++ (Writer.chompHint cs ++
        '\n' :: indented width (fun c => [c]) true (closed cs))) := by
  rw [Writer.literal, closed]
  cases Writer.endsWithBreak cs with
  | true => simp
  | false => simp [indented_concat_break]

/-! ## The header -/

/-- The indentation that a block announces. -/
def hintOf (cs : List Char) : Nat := if Writer.indentHint cs = [] then 0 else 2

/-- The indicators of a header are read back. -/
theorem header_eq (began m : Mark) (cs rest : List Char) :
    ∃ m' : Mark, m.line < m'.line ∧ m'.column = 0 ∧
      header began ⟨m, Writer.indentHint cs ++ (Writer.chompHint cs ++ '\n' :: rest), none⟩ =
        .ok (chompingOf cs, hintOf cs, ⟨m', rest, none⟩) := by
  have hindent : Writer.indentHint cs = [] ∨ Writer.indentHint cs = ['2'] := by
    unfold Writer.indentHint
    split
    · exact .inr rfl
    · exact .inl rfl
  have hchomp : (chompingOf cs = .strip ∧ Writer.chompHint cs = ['-']) ∨
      (chompingOf cs = .keep ∧ Writer.chompHint cs = ['+']) ∨
        (chompingOf cs = .clip ∧ Writer.chompHint cs = []) := by
    unfold chompingOf Writer.chompHint
    rcases cs.reverse with _ | ⟨c, _ | ⟨d, ds⟩⟩
    · exact .inl ⟨rfl, rfl⟩
    · cases hc : isBreak c with
      | true => exact .inr (.inl (by simp [hc]))
      | false => exact .inl (by simp [hc])
    · cases hc : isBreak c with
      | true =>
        cases hd : isBreak d with
        | true => exact .inr (.inl (by simp [hc, hd]))
        | false => exact .inr (.inr (by simp [hc, hd]))
      | false => exact .inl (by simp [hc])
  refine ⟨⟨m.index + (Writer.indentHint cs ++ Writer.chompHint cs).length + 1, m.line + 1, 0⟩,
    Nat.lt_succ_self _, rfl, ?_⟩
  rcases hindent with hi | hi <;> rcases hchomp with ⟨hk, hc⟩ | ⟨hk, hc⟩ | ⟨hk, hc⟩ <;>
    rw [hk, hintOf, hi, hc] <;> rfl

/-- Where a text begins with neither a space nor a break, its first line shows the indentation. -/
theorem detect_line {began m : Mark} {c : Char} {rest : List Char} (hblank : isBlank c = false)
    (hbreak : isBreak c = false) (n : Nat) :
    detect began (spaces n ++ c :: rest) m 0 [] =
      .ok (m.column + n, [], m.right n, c :: rest) := by
  simp only [isBlank, Bool.or_eq_false_iff, beq_eq_false_iff_ne] at hblank
  induction n generalizing m with
  | zero =>
    rw [spaces_zero, List.nil_append, detect, if_neg hblank.1, if_neg hblank.2,
      if_neg (by simp [isReturnOfPair_of_not_break hbreak]), if_neg (by simp [hbreak])]
    simp
  | succ n ih =>
    rw [spaces_succ, List.cons_append, detect, if_pos rfl, Mark.past_space, ih,
      Mark.right_right]
    simp [Nat.add_comm, Nat.add_left_comm]

/-- Behind a header with an indentation the lines follow. -/
theorem read_hinted {m m' : Mark} {xs body : List Char} {k : Chomping} {parent n : Nat} (hn : n ≠ 0)
    (h : header m ⟨m.right 1, xs, none⟩ = .ok (k, n, ⟨m', body, none⟩)) :
    read true parent ⟨m, '|' :: xs, none⟩ =
      scan true k (parent + n) m none body m' (.margin []) .empty := by
  simp only [read, show Cursor.skip ⟨m, '|' :: xs, none⟩ 1 = ⟨m.right 1, xs, none⟩ from rfl, h]
  show (if n = 0 then _ else _) = _
  rw [if_neg hn, if_pos (by omega)]
  rfl

/-- Behind a header without one the first line shows the indentation. -/
theorem read_detected {m m' : Mark} {xs body : List Char} {k : Chomping} {parent n : Nat} {c : Char}
    (hblank : isBlank c = false) (hbreak : isBreak c = false) (hm : m'.column = 0)
    (hn : parent < n)
    (h : header m ⟨m.right 1, xs, none⟩ = .ok (k, 0, ⟨m', spaces n ++ c :: body, none⟩)) :
    read true parent ⟨m, '|' :: xs, none⟩ =
      scan true k n m none (c :: body) (m'.right n) (.margin []) .empty := by
  have hskip : Cursor.skip ⟨m, '|' :: xs, none⟩ 1 = ⟨m.right 1, xs, none⟩ := rfl
  rw [read]
  dsimp only
  rw [hskip, h]
  dsimp only [bind, Except.bind]
  rw [if_pos rfl, detect_line hblank hbreak, hm, Nat.zero_add]
  show scan true k (max (max (n : Int) (parent + 1)) 1).toNat m none _ _ _ _ = _
  rw [show (max (max (n : Int) (parent + 1)) 1).toNat = n from by omega]

/-- What a literal block asks of a text. -/
structure FitsBlock (cs : List Char) : Prop where
  ne_nil : cs ≠ []
  printable : ∀ c ∈ cs, Style.isPrintable c

namespace FitsBlock

variable {cs : List Char}

theorem breakText_eq (h : FitsBlock cs) {c : Char} (hc : c ∈ cs) (hb : isBreak c) :
    breakText c = c := by
  have hp := h.printable c hc
  simp only [isBreak, Bool.or_eq_true, beq_iff_eq] at hb
  rcases hb with (((rfl | rfl) | rfl) | rfl) | rfl
  · rfl
  · cases hp
  · cases hp
  · rfl
  · rfl

theorem ne_return (h : FitsBlock cs) : ∀ c ∈ closed cs, c ≠ '\r' := by
  intro c hc
  rcases List.mem_append.mp hc with hc | hc
  · exact Style.ne_return_of_printable (h.printable c hc)
  · split at hc
    · cases hc
    · rw [List.mem_singleton.mp hc]; decide

/-- Without a hint the text begins with a character that begins a line. -/
theorem begins (h : FitsBlock cs) (hint : Writer.indentHint cs = []) :
    ∃ c rest, cs = c :: rest ∧ isBlank c = false ∧ isBreak c = false := by
  cases cs with
  | nil => exact absurd rfl h.ne_nil
  | cons c rest =>
    refine ⟨c, rest, rfl, ?_⟩
    rw [Style.isBlank_eq_isSpace (h.printable c (by simp))]
    simpa [Writer.indentHint] using hint

end FitsBlock

/-- **A literal block is read back**, if what follows is indented less. -/
theorem read_literal {cs t : List Char} (h : FitsBlock cs) {parent n : Nat} (hn : n < parent + 2)
    (ht : startsToken t) (m : Mark) :
    ∃ m' : Mark, m.line < m'.line ∧ m'.column = n ∧
      read true parent ⟨m, Writer.literal (parent + 2) cs ++ (spaces n ++ t), none⟩ =
        .ok (String.ofList cs, ⟨m', t, none⟩) := by
  obtain ⟨m₁, hline, hcol, hheader⟩ := header_eq m (m.right 1) cs
    (indented (parent + 2) (fun c => [c]) true (closed cs) ++ (spaces n ++ t))
  obtain ⟨breaks, hplace, htext⟩ := text_final h.ne_nil fun c hc hb => h.breakText_eq hc hb
  obtain ⟨m₂, hle, hcol₂, hscan⟩ := scan_indented (k := chompingOf cs) (parent + 2) m .empty
    (spaces n ++ t) h.ne_return (show Aligned true m₁ (.margin []) from ⟨hcol, by simp⟩)
  simp only [show (Place.margin [], Lines.empty) = start from rfl, hplace] at hcol₂ hscan
  have hzero : m₂.column = 0 := hcol₂ (by simp)
  rw [scan_end hzero hn ht, htext] at hscan
  refine ⟨m₂.right n, by simp at hline ⊢; omega, by simp [hzero], ?_⟩
  rw [literal_eq, List.cons_append, List.append_assoc, List.append_assoc, List.cons_append]
  by_cases hint : Writer.indentHint cs = []
  · obtain ⟨c, rest, rfl, hblank, hbreak⟩ := h.begins hint
    rw [hintOf, if_pos hint] at hheader
    rw [closed, List.cons_append, indented, if_neg (by simp [hbreak]), if_pos rfl] at hscan hheader ⊢
    simp only [List.append_assoc, List.singleton_append] at hscan hheader ⊢
    rw [read_detected hblank hbreak hcol (by omega) hheader]
    rwa [scan_spaces (by omega)] at hscan
  · rw [hintOf, if_neg hint] at hheader
    rw [read_hinted (by decide) hheader]
    exact hscan

end ConfigVault.Yaml.BlockScalar
