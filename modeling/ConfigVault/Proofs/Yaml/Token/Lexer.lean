import ConfigVault.Proofs.Yaml.Lines
import ConfigVault.Yaml.Token.Lexer

/-! # Runs of the lexer

The lexer moves to the next token, settles what its place decides about keys and block collections,
and reads the token.  Here the first part is cut off the reading and added to the token before
(`advance`, `fetchHere`), so that a lexer between two tokens always stands in front of one.  A run is
then a chain of such lexers (`Reaches`), each with less text before it, and it delivers the tokens
of the last one (`run_of_reaches`).

`close` is what moving to a column does to the open block collections.
-/
namespace ConfigVault.Yaml.Lexer

open Writer (spaces)

/-! ## Between two tokens -/

/-- Moves to the next token; the place of it ends keys and block collections. -/
def advance (l : Lexer) : Except SyntaxError Lexer := do
  let (keyAllowed, c) := toNextToken (l.flow != 0) (l.cursor.rest.length + 1) l.keyAllowed l.cursor
  let l ← { l with keyAllowed, cursor := c }.dropStale
  .ok (l.unroll c.mark.column)

/-- Reads the token that comes next. -/
def fetchHere (l : Lexer) : Except SyntaxError Lexer :=
  match l.cursor.rest with
  | [] => l.fetchEnd
  | x :: rest => l.fetchAt x rest

/-- Moves over a byte order mark, blanks and a comment. -/
def passBlanks (inFlow ka : Bool) (c : Cursor) : Cursor :=
  let c := if c.mark.index = 0 ∧ c.at? '\ufeff' then c.skip 1 else c
  let c := c.skipWhile fun x => x == ' ' || ((inFlow || !ka) && x == '\t')
  if c.at? '#' then c.skipWhile (fun x => !isBreak x) else c

theorem toNextToken_succ (inFlow : Bool) (fuel : Nat) (ka : Bool) (c : Cursor) :
    toNextToken inFlow (fuel + 1) ka c =
      if (passBlanks inFlow ka c).rest.isEmpty || !atBreak (passBlanks inFlow ka c).rest then
        (ka, passBlanks inFlow ka c)
      else toNextToken inFlow fuel (ka || !inFlow) (passBlanks inFlow ka c).skipBreak := rfl

theorem passBlanks_fault (inFlow ka : Bool) (c : Cursor) :
    (passBlanks inFlow ka c).fault = c.fault := by
  unfold passBlanks
  extract_lets c₁ c₂
  have h : c₂.fault = c.fault := by
    simp only [c₂, c₁]
    split <;> rfl
  split
  · exact h
  · exact h

theorem skipBreak_fault (c : Cursor) : c.skipBreak.fault = c.fault := by
  unfold Cursor.skipBreak
  split
  · rfl
  · split <;> rfl
  · rfl

theorem toNextToken_fault (inFlow : Bool) (fuel : Nat) (ka : Bool) (c : Cursor) :
    (toNextToken inFlow fuel ka c).2.fault = c.fault := by
  induction fuel generalizing ka c with
  | zero => rfl
  | succ fuel ih =>
    rw [toNextToken_succ]
    split
    · exact passBlanks_fault ..
    · rw [ih, skipBreak_fault, passBlanks_fault]

theorem dropStale_cursor {l l' : Lexer} (h : l.dropStale = .ok l') : l'.cursor = l.cursor := by
  unfold dropStale at h
  extract_lets stale at h
  split at h
  · cases h
  · cases h; rfl

theorem unroll_cursor (l : Lexer) (column : Int) : (l.unroll column).cursor = l.cursor := by
  unfold unroll
  split <;> rfl

/-- **Reading a token is moving to it and reading it there.** -/
theorem fetch_eq {l : Lexer} (hfault : l.cursor.fault = none) (ht : l.tokens ≠ []) :
    l.fetch = l.advance >>= fetchHere := by
  have hempty : l.tokens.isEmpty = false := by simpa using ht
  have hnone := (toNextToken_fault (l.flow != 0) (l.cursor.rest.length + 1) l.keyAllowed
    l.cursor).trans hfault
  unfold fetch advance
  simp only [Cursor.need, hfault, lookAhead_none, hempty, Bool.false_eq_true, if_false]
  generalize hnext : toNextToken (l.flow != 0) (l.cursor.rest.length + 1) l.keyAllowed l.cursor =
    next at *
  obtain ⟨ka, c⟩ := next
  simp only at hnone
  simp only [hnone, lookAhead_none]
  show (do
    let l' ← ({ l with keyAllowed := ka, cursor := c }).dropStale
    match c.rest with
    | [] => (l'.unroll c.mark.column).fetchEnd
    | x :: rest => (l'.unroll c.mark.column).fetchAt x rest) = (do
      let l' ← ({ l with keyAllowed := ka, cursor := c }).dropStale
      .ok (l'.unroll c.mark.column)) >>= fetchHere
  cases hd : ({ l with keyAllowed := ka, cursor := c } : Lexer).dropStale with
  | error e => rfl
  | ok l' =>
    show _ = fetchHere (l'.unroll c.mark.column)
    rw [fetchHere, unroll_cursor, dropStale_cursor hd]
    rfl

/-! ## Runs -/

/-- A lexer in front of a token leads to another one further on in the text. -/
inductive Reaches : Lexer → Lexer → Prop where
  | refl (l : Lexer) : Reaches l l
  | step {l l₁ l₂ l₃ : Lexer} (hfetch : l.fetchHere >>= dropStale = .ok l₁)
      (hlast : ∃ t, l₁.tokens.head? = some t ∧ t.kind ≠ .streamEnd)
      (hfault : l₁.cursor.fault = none) (hadvance : l₁.advance = .ok l₂)
      (hrest : l₂.cursor.rest.length < l.cursor.rest.length) (h : Reaches l₂ l₃) : Reaches l l₃

theorem Reaches.trans {l₁ l₂ l₃ : Lexer} (h : Reaches l₁ l₂) (h' : Reaches l₂ l₃) :
    Reaches l₁ l₃ := by
  induction h with
  | refl => exact h'
  | step hfetch hlast hfault hadvance hrest _ ih =>
    exact .step hfetch hlast hfault hadvance hrest (ih h')

/-- A run goes on where the lexer leads to, with some fuel left. -/
theorem run_eq_of_reaches {l l₁ l₂ : Lexer} (hfault : l.cursor.fault = none) (ht : l.tokens ≠ [])
    (hadvance : l.advance = .ok l₁) (h : Reaches l₁ l₂) {fuel : Nat}
    (hfuel : l₁.cursor.rest.length < fuel) :
    ∃ l' fuel', run fuel l = run (fuel' + 1) l' ∧
      l'.fetch >>= dropStale = l₂.fetchHere >>= dropStale := by
  induction h generalizing l fuel with
  | refl l₁ =>
    obtain ⟨fuel, rfl⟩ : ∃ f, fuel = f + 1 := ⟨fuel - 1, by omega⟩
    exact ⟨l, fuel, rfl, by rw [fetch_eq hfault ht, hadvance]; rfl⟩
  | @step l₀ next _ _ hfetch hlast hfault' hadvance' hrest _ ih =>
    obtain ⟨fuel, rfl⟩ : ∃ f, fuel = f + 1 := ⟨fuel - 1, by omega⟩
    obtain ⟨t, hhead, hkind⟩ := hlast
    have hfetched : l.fetch >>= dropStale = .ok next := by
      rw [fetch_eq hfault ht, hadvance]
      exact hfetch
    have hrun : run (fuel + 1) l = run fuel next := by
      rw [run, hfetched]
      simp only [isOver, hhead, Option.any_some, beq_iff_eq, hkind, if_false]
    rw [hrun]
    exact ih hfault' (by intro hnil; rw [hnil] at hhead; cases hhead) hadvance' (by omega)

/-- **A run delivers the tokens of the last lexer that it leads to**, whatever fuel is left. -/
theorem run_of_reaches {l l₁ l₂ l₃ : Lexer} (hfault : l.cursor.fault = none)
    (ht : l.tokens ≠ []) (hadvance : l.advance = .ok l₁) (h : Reaches l₁ l₂)
    (hend : l₂.fetchHere >>= dropStale = .ok l₃) (hover : l₃.isOver) {fuel : Nat}
    (hfuel : l₁.cursor.rest.length < fuel) : run fuel l = ⟨l₃.tokens.reverse, none⟩ := by
  obtain ⟨l', fuel', hrun, hfetch⟩ := run_eq_of_reaches hfault ht hadvance h hfuel
  rw [hrun, run, hfetch, hend]
  simp only [hover, if_true]

/-- **A run that leads to an error has a fault.** -/
theorem fault_run_of_reaches {l l₁ l₂ : Lexer} {e : SyntaxError} (hfault : l.cursor.fault = none)
    (ht : l.tokens ≠ []) (hadvance : l.advance = .ok l₁) (h : Reaches l₁ l₂)
    (hend : l₂.fetchHere = .error e) {fuel : Nat} (hfuel : l₁.cursor.rest.length < fuel) :
    (run fuel l).fault.isSome := by
  obtain ⟨l', fuel', hrun, hfetch⟩ := run_eq_of_reaches hfault ht hadvance h hfuel
  rw [hrun, run, hfetch, hend]
  rfl

/-! ## Possible keys -/

/-- The possible keys that can still be keys at a mark. -/
def kept (m : Mark) (keys : List (Option PossibleKey)) : List (Option PossibleKey) :=
  keys.map (·.filter fun k => !isStale m k)

/-- No key that has to be one is given up at a mark. -/
def NoneMissing (m : Mark) (keys : List (Option PossibleKey)) : Prop :=
  ∀ key ∈ keys, ∀ k ∈ key, k.required → isStale m k = false

theorem dropStale_eq {l : Lexer} (h : NoneMissing l.cursor.mark l.keys) :
    l.dropStale = .ok { l with keys := kept l.cursor.mark l.keys } := by
  unfold dropStale
  extract_lets stale
  have hnone : l.keys.reverse.findSome? (fun k => k.filter fun k => stale k && k.required) =
      none := by
    rw [List.findSome?_eq_none_iff]
    intro key hkey
    cases key with
    | none => rfl
    | some k =>
      have := h _ (List.mem_reverse.mp hkey) k rfl
      cases hr : k.required with
      | false => simp [Option.filter, hr]
      | true => simp [Option.filter, stale, this hr]
  rw [hnone]
  rfl

/-- A key that was possible is so no more on a later line. -/
theorem isStale_of_line {m : Mark} {k : PossibleKey} (h : k.mark.line < m.line) :
    isStale m k = true := by
  simp [isStale, h]

theorem not_isStale {m : Mark} {k : PossibleKey} (hline : m.line = k.mark.line)
    (hindex : m.index ≤ k.mark.index + longestKey) : isStale m k = false := by
  simp only [isStale, hline, Nat.lt_irrefl, decide_false, Bool.false_or, decide_eq_false_iff_not]
  omega

theorem kept_stale {m : Mark} {k : PossibleKey} (h : isStale m k) : kept m [some k] = [none] := by
  simp [kept, h]

theorem kept_fresh {m : Mark} {k : PossibleKey} (h : isStale m k = false) :
    kept m [some k] = [some k] := by
  simp [kept, h]

/-! ## Moving on -/

/-- A text that begins neither with a blank nor with a comment. -/
def atText (t : List Char) : Bool :=
  t.head?.all fun c => !isBlank c && c != '#' && c != '\ufeff'

theorem atText_of_startsToken {t : List Char} (h : startsToken t) : atText t := by
  cases t with
  | nil => rfl
  | cons c t => simp [atText, startsToken_cons h]

theorem takeWhile_spaces {q : Char → Bool} (hq : q ' ') {t : List Char}
    (ht : ∀ c ∈ t.head?, q c = false) (n : Nat) :
    (spaces n ++ t).takeWhile q = spaces n := by
  induction n with
  | zero =>
    cases t with
    | nil => rfl
    | cons c t => simp [ht c rfl]
  | succ n ih => rw [spaces_succ, List.cons_append, List.takeWhile_cons, if_pos hq, ih]

/-- Of blanks only spaces are written. -/
theorem passBlanks_spaces (inFlow ka : Bool) {t : List Char} (ht : atText t) (m : Mark) (n : Nat) :
    passBlanks inFlow ka ⟨m, spaces n ++ t, none⟩ = ⟨m.right n, t, none⟩ := by
  have hhead : ∀ c ∈ t.head?, isBlank c = false ∧ c ≠ '#' ∧ c ≠ '\ufeff' := by
    intro c hc
    cases t with
    | nil => cases hc
    | cons d t => cases hc; simpa [atText, and_assoc] using ht
  have hmark : ¬ (m.index = 0 ∧ (⟨m, spaces n ++ t, none⟩ : Cursor).at? '\ufeff') := by
    rintro ⟨-, h⟩
    have h : (spaces n ++ t).head? = some '\ufeff' := by simpa [Cursor.at?] using h
    cases n with
    | zero => exact (hhead _ h).2.2 rfl
    | succ n => cases h
  have hblanks : (⟨m, spaces n ++ t, none⟩ : Cursor).skipWhile
      (fun x => x == ' ' || ((inFlow || !ka) && x == '\t')) = ⟨m.right n, t, none⟩ := by
    simp only [Cursor.skipWhile, Cursor.skip]
    rw [takeWhile_spaces rfl fun c hc => ?_]
    · rw [length_spaces, Mark.pastMany_spaces, List.drop_append_of_le_length (by simp)]
      simp [spaces]
    · obtain ⟨hs, htab⟩ := Bool.or_eq_false_iff.mp (hhead c hc).1
      simp [hs, htab]
  have hcomment : (⟨m.right n, t, none⟩ : Cursor).at? '#' = false := by
    cases t with
    | nil => rfl
    | cons c t => simpa [Cursor.at?] using (hhead c rfl).2.1
  unfold passBlanks
  simp only [if_neg hmark, hblanks, hcomment, Bool.false_eq_true, if_false]

/-- Within a line only the place changes. -/
theorem toNextToken_spaces (inFlow : Bool) {t : List Char} (ht : startsToken t) (fuel : Nat)
    (ka : Bool) (m : Mark) (n : Nat) :
    toNextToken inFlow (fuel + 1) ka ⟨m, spaces n ++ t, none⟩ = (ka, ⟨m.right n, t, none⟩) := by
  rw [toNextToken_succ, passBlanks_spaces inFlow ka (atText_of_startsToken ht)]
  refine if_pos ?_
  cases t with
  | nil => rfl
  | cons c t => simp [atBreak, (startsToken_cons ht).2.1]

/-- A new line may begin with a key, outside of brackets. -/
theorem toNextToken_breakLine (inFlow : Bool) {t : List Char} (ht : startsToken t) (fuel : Nat)
    (ka : Bool) (m : Mark) (n : Nat) :
    toNextToken inFlow (fuel + 2) ka ⟨m, breakLine n t, none⟩ =
      (ka || !inFlow, ⟨m.nextLine n, t, none⟩) := by
  rw [toNextToken_succ,
    show passBlanks inFlow ka ⟨m, breakLine n t, none⟩ = ⟨m, breakLine n t, none⟩ from
      passBlanks_spaces inFlow ka (t := breakLine n t) rfl m 0,
    if_neg (by simp [breakLine, atBreak, isBreak])]
  rw [show (⟨m, breakLine n t, none⟩ : Cursor).skipBreak =
    ⟨m.newLine '\n', spaces n ++ t, none⟩ from rfl,
    toNextToken_spaces inFlow ht, Mark.right_newLine]

/-! ## Open block collections -/

/-- The columns of open block collections, as the lexer keeps them. -/
def columns (s : List Nat) : List Int := s.map Int.ofNat ++ [-1]

theorem eq_of_columns_nil {i : Int} {is : List Int} (h : i :: is = columns []) :
    i = -1 ∧ is = [] := by
  simpa [columns] using h

/-- Behind the column of an inner collection stands that of the outer one, or none at all. -/
theorem exists_of_columns_cons {i : Int} {is : List Int} {j : Nat} {s : List Nat}
    (h : i :: is = columns (j :: s)) :
    i = j ∧ ∃ outer os, is = outer :: os ∧ outer :: os = columns s := by
  obtain ⟨hi, hs⟩ : i = j ∧ is = columns s := by simpa [columns] using h
  cases s <;> exact ⟨hi, _, _, hs, rfl⟩

/-- Ends the block collections to the right of a column: the columns that stay open, and the kinds
of the tokens, latest first. -/
def close (column : Nat) : List Nat → List Token.Kind → List Nat × List Token.Kind
  | [], kinds => ([], kinds)
  | i :: s, kinds =>
    if column < i then close column s (.blockEnd :: kinds) else (i :: s, kinds)

theorem close_of_le {column i : Nat} (h : i ≤ column) (s : List Nat) (kinds : List Token.Kind) :
    close column (i :: s) kinds = (i :: s, kinds) :=
  if_neg (Nat.not_lt.mpr h)

theorem close_of_lt {column i : Nat} (h : column < i) (s : List Nat) (kinds : List Token.Kind) :
    close column (i :: s) kinds = close column s (.blockEnd :: kinds) :=
  if_pos h

theorem unrolled_columns (column : Nat) (m : Mark) (s : List Nat) (ts : List Token) :
    ∀ i is, i :: is = columns s →
      (unrolled column m i is ts).1 :: (unrolled column m i is ts).2.1 =
          columns (close column s (ts.map Token.kind)).1 ∧
        (unrolled column m i is ts).2.2.map Token.kind =
          (close column s (ts.map Token.kind)).2 := by
  induction s generalizing ts with
  | nil =>
    rintro i is h
    obtain ⟨rfl, rfl⟩ := eq_of_columns_nil h
    rw [unrolled, if_neg (by omega)]
    exact ⟨rfl, rfl⟩
  | cons j s ih =>
    rintro i is h
    obtain ⟨rfl, outer, is, rfl, hs⟩ := exists_of_columns_cons h
    rw [unrolled]
    by_cases hlt : column < j
    · rw [if_pos (by omega), close_of_lt hlt]
      exact ih (⟨.blockEnd, m⟩ :: ts) outer is hs
    · rw [if_neg (by omega), close_of_le (Nat.not_lt.mp hlt), hs]
      exact ⟨rfl, rfl⟩

/-! ## Places in a text -/

/-- The lexer stands at a place, inside as many brackets; a key may begin there or not.  It has these
possible keys, these columns of open block collections and these kinds of tokens, latest first. -/
structure Stands (l : Lexer) (c : Cursor) (ka : Bool) (flow : Nat)
    (keys : List (Option PossibleKey)) (s : List Nat) (kinds : List Token.Kind) : Prop where
  cursor : l.cursor = c
  keyAllowed : l.keyAllowed = ka
  flow : l.flow = flow
  keys : l.keys = keys
  columns : l.indent :: l.indents = columns s
  kinds : l.tokens.map Token.kind = kinds

namespace Stands

variable {l : Lexer} {c : Cursor} {ka : Bool} {flow : Nat} {keys : List (Option PossibleKey)}
  {m : Mark} {t : List Char} {s : List Nat} {kind : Token.Kind} {kinds : List Token.Kind}

theorem indent_nil (h : Stands l c ka flow keys [] kinds) : l.indent = -1 :=
  (List.cons.inj h.columns).1

theorem indent_cons {i : Nat} (h : Stands l c ka flow keys (i :: s) kinds) : l.indent = i :=
  (List.cons.inj h.columns).1

theorem indent_lt_iff (h : Stands l c ka flow keys s kinds) (n : Nat) :
    l.indent < (n : Int) ↔ s.head?.all (· < n) := by
  cases s with
  | nil => rw [h.indent_nil]; simp; omega
  | cons i s => rw [h.indent_cons]; simp

theorem length_tokens (h : Stands l c ka flow keys s kinds) : l.tokens.length = kinds.length := by
  rw [← h.kinds, List.length_map]

theorem mark_eq (h : Stands l ⟨m, t, none⟩ ka flow keys s kinds) : l.cursor.mark = m := by
  rw [h.cursor]

theorem fetchHere_cons {x : Char} (h : Stands l ⟨m, x :: t, none⟩ ka flow keys s kinds) :
    l.fetchHere = l.fetchAt x t := by
  rw [fetchHere, h.cursor]

/-- A token is added at the place, and reading goes on at another one. -/
theorem push (h : Stands l c ka flow keys s kinds) (kind : Token.Kind) (mark : Mark) (c' : Cursor)
    (ka' : Bool) :
    Stands { l.push kind mark with cursor := c', keyAllowed := ka' } c' ka' flow keys s
      (kind :: kinds) :=
  ⟨rfl, rfl, h.flow, h.keys, h.columns, congrArg (kind :: ·) h.kinds⟩

/-- A token of one character. -/
theorem pushIndicator {x : Char} (h : Stands l ⟨m, x :: t, none⟩ ka flow keys s kinds)
    (hx : isBreak x = false) (kind : Token.Kind) (ka' : Bool) :
    Stands { l.pushIndicator kind with keyAllowed := ka' } ⟨m.behind [x], t, none⟩ ka' flow keys s
      (kind :: kinds) := by
  refine ⟨?_, rfl, h.flow, h.keys, h.columns, congrArg (kind :: ·) h.kinds⟩
  show l.cursor.skip 1 = _
  rw [h.cursor, Cursor.skip, Mark.pastMany, Mark.past_of_not_break hx]
  rfl

theorem head_tokens (h : Stands l c ka flow keys s (kind :: kinds)) :
    ∃ tok, l.tokens.head? = some tok ∧ tok.kind = kind := by
  have hk := h.kinds
  cases ht : l.tokens with
  | nil => rw [ht] at hk; cases hk
  | cons tok ts =>
    rw [ht] at hk
    exact ⟨tok, rfl, (List.cons.inj hk).1⟩

/-- **Moving on** changes the place, gives up stale keys, and outside of brackets ends the block
collections to the right. -/
theorem advance (h : Stands l c ka flow keys s kinds) {ka' : Bool}
    (hnext : toNextToken (flow != 0) (c.rest.length + 1) ka c = (ka', ⟨m, t, none⟩))
    (hkeys : NoneMissing m keys) :
    ∃ l', l.advance = .ok l' ∧
      Stands l' ⟨m, t, none⟩ ka' flow (kept m keys)
        (if flow = 0 then (close m.column s kinds).1 else s)
        (if flow = 0 then (close m.column s kinds).2 else kinds) := by
  obtain ⟨rfl, rfl, rfl, rfl, hs, rfl⟩ := h
  unfold Lexer.advance
  rw [hnext]
  simp only [bind, Except.bind]
  rw [dropStale_eq (show NoneMissing
    ({ l with keyAllowed := ka', cursor := ⟨m, t, none⟩ } : Lexer).cursor.mark _ from hkeys)]
  refine ⟨_, rfl, ?_⟩
  unfold unroll
  by_cases hf : l.flow = 0
  · have hun := unrolled_columns m.column m s l.tokens l.indent l.indents hs
    rw [if_pos hf, if_pos hf, if_pos hf]
    exact ⟨rfl, rfl, rfl, rfl, hun.1, hun.2⟩
  · rw [if_neg hf, if_neg hf, if_neg hf]
    exact ⟨rfl, rfl, rfl, rfl, hs, rfl⟩

end Stands

theorem noneMissing_kept {m m' : Mark} {keys : List (Option PossibleKey)}
    (h : NoneMissing m keys) : NoneMissing m (kept m' keys) := by
  intro key hkey k hk hr
  obtain ⟨key', hkey', rfl⟩ := List.mem_map.mp hkey
  exact h key' hkey' k (Option.mem_filter_iff.mp hk).1 hr

/-- **One step of a run**: a token is read, and the lexer moves on to the next one. -/
theorem reaches_of_fetch {l l₁ : Lexer} {c : Cursor} {m : Mark} {t : List Char} {ka ka' : Bool}
    {flow : Nat} {keys : List (Option PossibleKey)} {s : List Nat} {kind : Token.Kind}
    {kinds : List Token.Kind} (hfetch : l.fetchHere = .ok l₁)
    (h : Stands l₁ c ka flow keys s (kind :: kinds)) (hkind : kind ≠ .streamEnd)
    (hfault : c.fault = none) (hkeys : NoneMissing c.mark keys)
    (hnext : toNextToken (flow != 0) (c.rest.length + 1) ka c = (ka', ⟨m, t, none⟩))
    (hkeys' : NoneMissing m keys) (hrest : t.length < l.cursor.rest.length) :
    ∃ l', Reaches l l' ∧
      Stands l' ⟨m, t, none⟩ ka' flow (kept m (kept c.mark keys))
        (if flow = 0 then (close m.column s (kind :: kinds)).1 else s)
        (if flow = 0 then (close m.column s (kind :: kinds)).2 else kind :: kinds) := by
  have hdrop : l.fetchHere >>= dropStale = .ok { l₁ with keys := kept c.mark keys } := by
    have hmissing : NoneMissing l₁.cursor.mark l₁.keys := by rw [h.cursor, h.keys]; exact hkeys
    rw [hfetch]
    show l₁.dropStale = _
    rw [dropStale_eq hmissing, h.cursor, h.keys]
  have h' : Stands { l₁ with keys := kept c.mark keys } c ka flow (kept c.mark keys) s
      (kind :: kinds) := ⟨h.cursor, h.keyAllowed, h.flow, rfl, h.columns, h.kinds⟩
  obtain ⟨l', hadvance, hstands⟩ := h'.advance hnext (noneMissing_kept hkeys')
  obtain ⟨tok, hhead, htok⟩ := h'.head_tokens
  exact ⟨l', .step hdrop ⟨tok, hhead, htok ▸ hkind⟩ (by rw [h'.cursor]; exact hfault) hadvance
    (by rw [hstands.cursor]; exact hrest) (.refl l'), hstands⟩

end ConfigVault.Yaml.Lexer
