import ConfigVault.Proofs.Yaml.Lines
import ConfigVault.Yaml.Token.Plain

/-! # Reading plain text back

Plain text goes on through words and the blanks between them (`isRun`), and what it has read is the
text itself.  It ends in front of the colon of a key (`scan_key`), at the end of its line if the
next one is not indented enough (`scan_line`), and inside brackets also in front of an indicator
(`scan_flow`).
-/
namespace ConfigVault.Yaml.Plain

open Writer (spaces)

/-- Nothing in the text ends a plain scalar.  `afterBlank` says that a blank stands in front of the
text. -/
def isRun (flow : Bool) : (afterBlank : Bool) → List Char → Bool
  | _, [] => true
  | afterBlank, c :: cs =>
    !isBreak c && !(c == ':' && (flow || atSpace cs)) && !(flow && isFlowIndicator c) &&
      !(afterBlank && c == '#') && isRun flow (isBlank c) cs

theorem atSpace_append {cs : List Char} (h : atSpace cs = false) (rest : List Char) :
    atSpace (cs ++ rest) = false := by
  cases cs with
  | nil => cases h
  | cons c cs => exact h

/-- The gap is one within a line. -/
def isInline : Option Gap → Bool
  | some (.lines ..) => false
  | _ => true

theorem before_addBlank {gap : Option Gap} (h : isInline gap) (c : Char) (seen : List Char) :
    Gap.before (some ((gap.getD (.blanks [])).addBlank c)) seen = c :: Gap.before gap seen := by
  rcases gap with _ | ⟨bs⟩ | _
  · simp [Gap.before, Gap.addBlank, Gap.text]
  · simp [Gap.before, Gap.addBlank, Gap.text]
  · cases h

theorem isInline_addBlank {gap : Option Gap} (h : isInline gap) (c : Char) :
    isInline (some ((gap.getD (.blanks [])).addBlank c)) := by
  rcases gap with _ | ⟨bs⟩ | _
  · rfl
  · rfl
  · cases h

section Run

variable {flow : Bool} {indent : Int} {began m : Mark} {gap : Option Gap} {seen : List Char}

/-- A document indicator stands only at the beginning of a line. -/
theorem stopsAfterGap_of_column {c : Char} {rest : List Char} (hm : 0 < m.column) (hc : c ≠ '#') :
    stopsAfterGap m c rest = false := by
  have h : (m.column == 0) = false := by simp; omega
  simp [stopsAfterGap, Cursor.atDocumentIndicator, h, hc]

/-- A word goes on: a character that is no blank is added to what was read before. -/
theorem scan_char {c : Char} {cs rest : List Char} (hrun : isRun flow gap.isSome (c :: cs))
    (hc : isBlank c = false)
    (hcol : gap.isSome → 0 < m.column ∧ (flow = false → indent ≤ m.column)) :
    scan flow indent began none (c :: (cs ++ rest)) m gap seen =
      scan flow indent began none (cs ++ rest) (m.behind [c]) none (c :: Gap.before gap seen) := by
  simp only [isRun, Bool.and_eq_true, Bool.not_eq_true', Bool.and_eq_false_iff] at hrun
  obtain ⟨⟨⟨⟨hbreak, hcolon⟩, hflow⟩, hhash⟩, -⟩ := hrun
  have hpair : isReturnOfPair c (cs ++ rest) = false := isReturnOfPair_of_not_break hbreak
  have hin : (!flow && gap.isSome && decide ((m.column : Int) < indent)) = false := by
    cases hg : gap.isSome with
    | false => simp
    | true =>
      cases hf : flow with
      | true => rfl
      | false => simp [Int.not_lt.mpr ((hcol hg).2 hf)]
  have hstop : (gap.isSome && stopsAfterGap m c (cs ++ rest)) = false := by
    rcases hhash with h | h
    · simp [h]
    · cases hg : gap.isSome with
      | false => rfl
      | true => simp [stopsAfterGap_of_column (hcol hg).1 (by simpa using h)]
  have hstray : isStrayColon flow c (cs ++ rest) = false := by
    unfold isStrayColon
    rcases hcolon with h | h
    · simp [h]
    · simp [(Bool.or_eq_false_iff.mp h).1]
  have hend : isEnd flow c (cs ++ rest) = false := by
    unfold isEnd
    rcases hcolon with h | h
    · rw [h]; rcases hflow with h' | h' <;> simp [h']
    · rw [atSpace_append (Bool.or_eq_false_iff.mp h).2]; rcases hflow with h' | h' <;> simp [h']
  -- None of the tests that could end the word or refuse the character applies.
  rw [scan, if_neg (by simp [hc]), if_neg (by simp [hpair]), if_neg (by simp [hbreak]),
    if_neg (by simp [hin]), Mark.past_of_not_break hbreak, lookAhead_none]
  simp only [hstop, hstray, hend]
  rfl

/-- A blank within a line is kept for the case that the line goes on. -/
theorem scan_blank {c : Char} {rest : List Char} (hc : isBlank c) (hgap : isInline gap) :
    scan flow indent began none (c :: rest) m gap seen =
      scan flow indent began none rest (m.behind [c])
        (some ((gap.getD (.blanks [])).addBlank c)) seen := by
  have hbreak : isBreak c = false := isBreak_of_blank hc
  have hlines : gap.any Gap.isLines = false := by
    rcases gap with _ | ⟨bs⟩ | _
    · rfl
    · rfl
    · cases hgap
  rw [scan, if_pos hc, Mark.past_of_not_break hbreak]
  simp only [lookAhead_none, hlines, Bool.false_and]
  cases gap.isNone <;> rfl

/-- **Plain text is read through words and blanks**, up to a last character that is no blank. -/
theorem scan_run {cs : List Char} (hne : cs ≠ []) (hrun : isRun flow gap.isSome cs)
    (hlast : ∀ c ∈ cs.getLast?, isBlank c = false) (hgap : isInline gap)
    (hindent : flow = false → indent ≤ m.column + 1)
    (hcol : gap.isSome → 0 < m.column ∧ (flow = false → indent ≤ m.column)) (rest : List Char) :
    scan flow indent began none (cs ++ rest) m gap seen =
      scan flow indent began none rest (m.behind cs) none
        (cs.reverse ++ Gap.before gap seen) := by
  -- On the text, with a gap in front that grows with each blank and is taken in by the next
  -- character.
  induction cs generalizing m gap seen with
  | nil => exact absurd rfl hne
  | cons c cs ih =>
    have htail : isRun flow (isBlank c) cs := (Bool.and_eq_true_iff.mp hrun).2
    cases hc : isBlank c with
    | true =>
      cases cs with
      | nil => rw [hlast c rfl] at hc; cases hc
      | cons d cs =>
        rw [List.cons_append, scan_blank hc hgap,
          ih (by simp) (by simpa [hc] using htail) (by simpa [List.getLast?_cons_cons] using hlast)
            (isInline_addBlank hgap c) (fun hf => by have := hindent hf; simp; omega)
            (fun _ => ⟨by simp, fun hf => by simpa using hindent hf⟩), before_addBlank hgap]
        simp
    | false =>
      rw [List.cons_append, scan_char hrun hc hcol]
      cases cs with
      | nil => rfl
      | cons d cs =>
        rw [ih (by simp) (by simpa [hc] using htail) (by simpa [List.getLast?_cons_cons] using hlast)
          rfl (fun hf => by have := hindent hf; simp; omega) (by simp)]
        simp [Gap.before]

/-- Spaces behind a line break are passed over. -/
theorem scan_spaces (f : Option Char) (more : List Char) (n : Nat) (t : List Char) :
    scan flow indent began none (spaces n ++ t) m (some (.lines f more)) seen =
      scan flow indent began none t (m.right n) (some (.lines f more)) seen := by
  induction n generalizing m with
  | zero => rfl
  | succ n ih =>
    rw [spaces_succ, List.cons_append, scan, if_pos (show isBlank ' ' = true from rfl),
      Mark.past_space]
    simp only [Option.isNone_some, show (' ' == '\t') = false from rfl, Bool.and_false,
      Option.getD_some, Gap.addBlank]
    show scan flow indent began none (spaces n ++ t) (m.right 1) _ seen = _
    rw [ih, Mark.right_right, Nat.add_comm 1 n]

/-- The end of a line is passed over, with the indentation of the next one. -/
theorem scan_breakLine (n : Nat) (t : List Char) :
    ∃ f more, scan flow indent began none (breakLine n t) m gap seen =
      scan flow indent began none t (m.nextLine n) (some (.lines f more)) seen := by
  obtain ⟨f, more, hg⟩ : ∃ f more, (gap.getD (.blanks [])).addBreak '\n' = .lines f more := by
    rcases gap with _ | ⟨bs⟩ | ⟨f, more⟩ <;> exact ⟨_, _, rfl⟩
  refine ⟨f, more, ?_⟩
  rw [breakLine, scan, if_neg (by decide), if_neg (by simp [isReturnOfPair]),
    if_pos (show isBreak '\n' = true from rfl), Mark.past_of_break rfl (by decide), lookAhead_none,
    hg]
  exact (scan_spaces f more n t).trans (by rw [Mark.right_newLine])

/-- **Plain text that fills the rest of its line is read back**, if the next line is not indented
enough to go on with it. -/
theorem scan_line {cs t : List Char} {n : Nat} (hne : cs ≠ []) (hrun : isRun false false cs)
    (hlast : ∀ c ∈ cs.getLast?, isBlank c = false) (hindent : indent ≤ m.column)
    (hn : (n : Int) < indent) (ht : startsToken t) :
    scan false indent began none (cs ++ breakLine n t) m none [] =
      .ok (String.ofList cs, ⟨(m.behind cs).nextLine n, t, none⟩, true) := by
  obtain ⟨f, more, hbreak⟩ := @scan_breakLine false indent began (m.behind cs) none
    (cs.reverse ++ Gap.before none []) n t
  rw [scan_run hne hrun hlast rfl (fun _ => by omega) (by simp), hbreak]
  cases t with
  | nil => simp [scan, stop, Gap.before, Gap.isLines]; rfl
  | cons c t =>
    obtain ⟨hblank, hbreak', -⟩ := startsToken_cons ht
    have hpair : isReturnOfPair c t = false := isReturnOfPair_of_not_break hbreak'
    rw [scan, if_neg (by simp [hblank]), if_neg (by simp [hpair]), if_neg (by simp [hbreak']),
      if_pos (by simp [hn])]
    simp [stop, Gap.before, Gap.isLines]

/-- **Plain text in front of the colon of a key is read back.** -/
theorem scan_key {cs rest : List Char} (hne : cs ≠ []) (hrun : isRun false false cs)
    (hlast : ∀ c ∈ cs.getLast?, isBlank c = false) (hindent : indent ≤ m.column + 1)
    (hrest : atSpace rest) :
    scan false indent began none (cs ++ ':' :: rest) m none [] =
      .ok (String.ofList cs, ⟨m.behind cs, ':' :: rest, none⟩, false) := by
  rw [scan_run hne hrun hlast rfl (fun _ => hindent) (by simp), scan]
  simp [show isBlank ':' = false from rfl, show isBreak ':' = false from rfl, isReturnOfPair,
    isStrayColon, isEnd, hrest, stop, Gap.before]
  rfl

/-- What can follow a value inside of brackets, and the text of the next token: a comma, or a closing
bracket in the next line. -/
inductive Follows : (rest t : List Char) → Prop where
  | comma (t : List Char) : Follows (',' :: t) (',' :: t)
  | closing (n : Nat) {x : Char} (hx : x = ']' ∨ x = '\x7d') (t : List Char) :
    Follows (breakLine n (x :: t)) (x :: t)

/-- **Plain text inside of brackets is read back**, with the line break that may follow it. -/
theorem scan_flow {cs rest t : List Char} (hne : cs ≠ []) (hrun : isRun true false cs)
    (hlast : ∀ c ∈ cs.getLast?, isBlank c = false) (h : Follows rest t) :
    ∃ m' broke, scan true indent began none (cs ++ rest) m none [] =
      .ok (String.ofList cs, ⟨m', t, none⟩, broke) := by
  rw [scan_run hne hrun hlast rfl (by simp) (by simp)]
  cases h with
  | comma t =>
    refine ⟨m.behind cs, false, ?_⟩
    rw [scan]
    simp [show isBlank ',' = false from rfl, show isBreak ',' = false from rfl, isReturnOfPair,
      isStrayColon, isEnd, show isFlowIndicator ',' = true from rfl, stop, Gap.before]
    rfl
  | @closing n x hx t =>
    obtain ⟨f, more, hbreak⟩ := @scan_breakLine true indent began (m.behind cs) none
      (cs.reverse ++ Gap.before none []) n (x :: t)
    refine ⟨(m.behind cs).nextLine n, true, ?_⟩
    rw [hbreak]
    rcases hx with rfl | rfl
    all_goals
      rw [scan]
      simp [show isBlank ']' = false from rfl, show isBreak ']' = false from rfl,
        show isBlank '\x7d' = false from rfl, show isBreak '\x7d' = false from rfl, isReturnOfPair,
        isStrayColon, isEnd, show isFlowIndicator ']' = true from rfl,
        show isFlowIndicator '\x7d' = true from rfl, stop, stopsAfterGap,
        Cursor.atDocumentIndicator, Gap.before, Gap.isLines]
      rfl

end Run

end ConfigVault.Yaml.Plain
