import ConfigVault.Proofs.Yaml.Token.BlockScalar
import ConfigVault.Proofs.Yaml.Token.Lexer
import ConfigVault.Proofs.Yaml.Token.Quoted

/-! # Tokens in block context

One lemma for each thing that block layout is made of: the dash of an item, the question mark and
the colon of a long key, a short key with its colon, and a scalar that fills the rest of its line.
Each says where the lexer stands afterwards, which collections are open there and which tokens there
are (`Leads`).

A scalar in a line is a possible key until the line is over, so each of these lemmas also shows that
no possible key is left.
-/
namespace ConfigVault.Yaml.Lexer

open Writer (spaces)
open Token (Kind)

/-- The lexer stands outside of brackets, with no possible key pending. -/
def InBlock (l : Lexer) (ka : Bool) (m : Mark) (t : List Char) (s : List Nat)
    (kinds : List Kind) : Prop :=
  Stands l ⟨m, t, none⟩ ka 0 [none] s kinds

/-- The lexer leads to one in front of a text at a column, which closes collections. -/
def Leads (l : Lexer) (ka : Bool) (n : Nat) (t : List Char) (s : List Nat) (kinds : List Kind) :
    Prop :=
  ∃ l' m, Reaches l l' ∧ m.column = n ∧ InBlock l' ka m t (close n s kinds).1 (close n s kinds).2

theorem Leads.trans {l : Lexer} {ka ka' : Bool} {n n' : Nat} {t t' : List Char} {s s' : List Nat}
    {kinds kinds' : List Kind} (h : Leads l ka n t s kinds)
    (h' : ∀ l' m, m.column = n → InBlock l' ka m t (close n s kinds).1 (close n s kinds).2 →
      Leads l' ka' n' t' s' kinds') : Leads l ka' n' t' s' kinds' := by
  obtain ⟨l₁, m₁, hr, hm, hb⟩ := h
  obtain ⟨l₂, m₂, hr', hm', hb'⟩ := h' l₁ m₁ hm hb
  exact ⟨l₂, m₂, hr.trans hr', hm', hb'⟩

/-- Nothing is closed at a column that no collection is to the right of. -/
theorem Leads.bind {l : Lexer} {ka ka' : Bool} {n n' : Nat} {t t' : List Char} {i : Nat}
    {s s' : List Nat} {kinds kinds' : List Kind} (h : Leads l ka n t (i :: s) kinds) (hi : i ≤ n)
    (h' : ∀ l' m, m.column = n → InBlock l' ka m t (i :: s) kinds → Leads l' ka' n' t' s' kinds') :
    Leads l ka' n' t' s' kinds' :=
  h.trans fun l' m hm hb => h' l' m hm (by rwa [close_of_le hi] at hb)

/-- A block collection begins at a column, unless one is open there. -/
def beginAt (column : Nat) (kind : Kind) (s : List Nat) (kinds : List Kind) :
    List Nat × List Kind :=
  if s.head?.all (· < column) then (column :: s, kind :: kinds) else (s, kinds)

theorem beginAt_of_lt {column i : Nat} (h : i < column) (kind : Kind) (s : List Nat)
    (kinds : List Kind) : beginAt column kind (i :: s) kinds = (column :: i :: s, kind :: kinds) :=
  if_pos (by simpa using h)

theorem beginAt_self (column : Nat) (kind : Kind) (s : List Nat) (kinds : List Kind) :
    beginAt column kind (column :: s) kinds = (column :: s, kinds) :=
  if_neg (by simp)

section Steps

variable {l : Lexer} {ka : Bool} {m : Mark} {t : List Char} {s : List Nat} {kinds : List Kind}

/-! ## Keys -/

theorem noneMissing_none (m : Mark) : NoneMissing m [none] := by
  intro key hkey k hk
  rw [List.mem_singleton.mp hkey] at hk
  cases hk

theorem noneMissing_fresh {m : Mark} {k : PossibleKey} (h : isStale m k = false) :
    NoneMissing m [some k] := by
  intro key hkey k' hk' _
  rw [List.mem_singleton.mp hkey] at hk'
  cases hk'
  exact h

theorem noneMissing_optional (m : Mark) {key : Option PossibleKey}
    (h : ∀ k ∈ key, k.required = false) : NoneMissing m [key] := by
  intro key' hkey k hk hr
  rw [List.mem_singleton.mp hkey] at hk
  rw [h k hk] at hr
  cases hr

/-- On a later line no key is possible that began before. -/
theorem kept_of_line {m m' : Mark} {key : Option PossibleKey}
    (h : ∀ k ∈ key, k.mark.line < m.line) : kept m (kept m' [key]) = [none] := by
  cases key with
  | none => rfl
  | some k =>
    have hk := isStale_of_line (h k rfl)
    cases hs : isStale m' k with
    | true => rw [kept_stale hs]; rfl
    | false => rw [kept_fresh hs, kept_stale hk]

/-- A step of a run that leaves the lexer outside of brackets. -/
theorem leads_of_fetch {l₁ : Lexer} {c : Cursor} {ka' : Bool}
    {keys : List (Option PossibleKey)} {kind : Kind} (hfetch : l.fetchHere = .ok l₁)
    (h : Stands l₁ c ka 0 keys s (kind :: kinds)) (hkind : kind ≠ .streamEnd)
    (hfault : c.fault = none) (hkeys : NoneMissing c.mark keys)
    (hnext : toNextToken false (c.rest.length + 1) ka c = (ka', ⟨m, t, none⟩))
    (hkeys' : NoneMissing m keys) (hnone : kept m (kept c.mark keys) = [none])
    (hrest : t.length < l.cursor.rest.length) : Leads l ka' m.column t s (kind :: kinds) := by
  obtain ⟨l', hr, hs⟩ := reaches_of_fetch hfetch h hkind hfault hkeys hnext hkeys' hrest
  rw [hnone] at hs
  exact ⟨l', m, hr, rfl, hs⟩

/-! ## What follows an indicator -/

/-- What is behind an indicator: a space and a text in the same line, or a text in the next line. -/
inductive Behind (m : Mark) (t : List Char) : (rest : List Char) → (m' : Mark) →
    (newLine : Bool) → Prop where
  | space : Behind m t (' ' :: t) (m.right 1) false
  | line (n : Nat) : Behind m t (breakLine n t) (m.nextLine n) true

namespace Behind

variable {rest : List Char} {m' : Mark} {newLine : Bool}

theorem toNextToken (h : Behind m t rest m' newLine) (ht : startsToken t) (ka : Bool) :
    toNextToken false (rest.length + 1) ka ⟨m, rest, none⟩ = (ka || newLine, ⟨m', t, none⟩) := by
  cases h with
  | space => rw [Bool.or_false]; exact toNextToken_spaces false ht _ ka m 1
  | line n => exact toNextToken_breakLine false ht (spaces n ++ t).length ka m n

theorem length_lt (h : Behind m t rest m' newLine) : t.length < rest.length := by
  cases h with
  | space => simp
  | line n =>
    rw [breakLine, List.length_cons, List.length_append]
    omega

theorem atSpace (h : Behind m t rest m' newLine) : atSpace rest := by
  cases h <;> rfl

end Behind

namespace InBlock

/-- A collection that begins where the lexer stands has its token behind the others. -/
theorem rollHere (h : InBlock l ka m t s kinds) (kind : Kind) :
    InBlock (l.rollHere kind) ka m t (beginAt m.column kind s kinds).1
      (beginAt m.column kind s kinds).2 := by
  have hiff := h.indent_lt_iff m.column
  unfold Lexer.rollHere roll beginAt
  simp only [h.flow, true_and, h.mark_eq, hiff]
  split
  · refine ⟨h.cursor, h.keyAllowed, h.flow, h.keys, ?_, ?_⟩
    · show (m.column : Int) :: l.indent :: l.indents = _
      rw [h.columns]
      rfl
    · simp only [insert, Nat.sub_self, List.take_zero, List.nil_append, List.drop_zero,
        List.map_cons, h.kinds]
  · exact h

theorem dropKey (h : InBlock l ka m t s kinds) : l.dropKey = .ok l := by
  rw [Lexer.dropKey, h.keys]

theorem requireKeyAllowed (h : InBlock l true m t s kinds) (problem : Problem) :
    l.requireKeyAllowed problem = .ok () :=
  if_neg (by simp [h.keyAllowed])

/-- The possible key that a text makes where it stands. -/
def keyHere (l : Lexer) (ka : Bool) (m : Mark) (kinds : List Kind) : Option PossibleKey :=
  if ka then some ⟨l.indent == (m.column : Int), kinds.length, m⟩ else none

theorem mark_keyHere {k : PossibleKey} (h : k ∈ keyHere l ka m kinds) : k.mark = m := by
  cases ka with
  | false => cases h
  | true => cases h; rfl

/-- To the right of the innermost collection no text has to be a key. -/
theorem required_keyHere (h : InBlock l ka m t s kinds) (hs : s.head?.all (· < m.column))
    {k : PossibleKey} (hk : k ∈ keyHere l ka m kinds) : k.required = false := by
  cases ka with
  | false => cases hk
  | true =>
    cases hk
    have := (h.indent_lt_iff m.column).mpr hs
    simp; omega

/-- A text of one line can be a key later in it, where a key may begin. -/
theorem saveKey (h : InBlock l ka m t s kinds) :
    ∃ l', l.saveKey = .ok l' ∧ l'.indent = l.indent ∧
      Stands l' ⟨m, t, none⟩ ka 0 [keyHere l ka m kinds] s kinds := by
  unfold Lexer.saveKey
  cases ka with
  | false =>
    rw [if_neg (by simp [h.keyAllowed])]
    exact ⟨l, rfl, rfl, h⟩
  | true =>
    rw [if_pos h.keyAllowed, h.dropKey]
    refine ⟨_, rfl, rfl, h.cursor, h.keyAllowed, h.flow, ?_, h.columns, h.kinds⟩
    simp [h.keys, keyHere, h.flow, h.mark_eq, h.length_tokens]

/-! ## Indicators -/

/-- **The dash of an item** begins a sequence where none is open, and an item may be a mapping in
the same line. -/
theorem dash (h : InBlock l true m ('-' :: ' ' :: t) s kinds) (ht : startsToken t) :
    Leads l true (m.column + 2) t (beginAt m.column .blockSequenceStart s kinds).1
      (.blockEntry :: (beginAt m.column .blockSequenceStart s kinds).2) := by
  have hroll := h.rollHere .blockSequenceStart
  have hat : l.fetchAt '-' (' ' :: t) = l.fetchBlockEntry := by
    simp [fetchAt, Cursor.atDocumentIndicator, atSpace, isBlank]
  have hfetch : l.fetchHere = .ok { (l.rollHere .blockSequenceStart).pushIndicator .blockEntry with
      keyAllowed := true } := by
    rw [h.fetchHere_cons, hat, fetchBlockEntry, h.requireKeyAllowed, hroll.dropKey]
    rfl
  exact leads_of_fetch (m := m.right 2) hfetch (hroll.pushIndicator rfl .blockEntry true) (by simp)
    rfl (noneMissing_none _) (Behind.space.toNextToken ht true) (noneMissing_none _) rfl
    (by rw [h.cursor]; simp only [List.length_cons]; omega)

/-- **The question mark of a long key** begins a mapping where none is open. -/
theorem question (h : InBlock l true m ('?' :: ' ' :: t) s kinds) (ht : startsToken t) :
    Leads l true (m.column + 2) t (beginAt m.column .blockMappingStart s kinds).1
      (.key :: (beginAt m.column .blockMappingStart s kinds).2) := by
  have hroll := h.rollHere .blockMappingStart
  have hat : l.fetchAt '?' (' ' :: t) = l.fetchKey := by
    simp [fetchAt, Cursor.atDocumentIndicator, atSpace, isBlank]
  have hfetch : l.fetchHere = .ok { (l.rollHere .blockMappingStart).pushIndicator .key with
      keyAllowed := true } := by
    rw [h.fetchHere_cons, hat, fetchKey, h.requireKeyAllowed, hroll.dropKey]
    show Except.ok { (l.rollHere .blockMappingStart).pushIndicator .key with
      keyAllowed := (l.rollHere .blockMappingStart).flow == 0 } = _
    rw [hroll.flow]
    rfl
  exact leads_of_fetch (m := m.right 2) hfetch (hroll.pushIndicator rfl .key true) (by simp)
    rfl (noneMissing_none _) (Behind.space.toNextToken ht true) (noneMissing_none _) rfl
    (by rw [h.cursor]; simp only [List.length_cons]; omega)

/-- **The colon of a long key**, in a line of its own. -/
theorem colon {i : Nat} (h : InBlock l true m (':' :: ' ' :: t) (i :: s) kinds)
    (hi : m.column = i) (ht : startsToken t) :
    Leads l true (m.column + 2) t (i :: s) (.value :: kinds) := by
  subst hi
  have hroll := h.rollHere .blockMappingStart
  rw [beginAt_self] at hroll
  have hat : l.fetchAt ':' (' ' :: t) = l.fetchValue := by
    simp [fetchAt, Cursor.atDocumentIndicator, atSpace, isBlank]
  have hfetch : l.fetchHere = .ok { (l.rollHere .blockMappingStart).pushIndicator .value with
      keyAllowed := true } := by
    rw [h.fetchHere_cons, hat, fetchValue, h.keys]
    simp only [h.requireKeyAllowed]
    show Except.ok { (l.rollHere .blockMappingStart).pushIndicator .value with
      keyAllowed := (l.rollHere .blockMappingStart).flow == 0 } = _
    rw [hroll.flow]
    rfl
  exact leads_of_fetch (m := m.right 2) hfetch (hroll.pushIndicator rfl .value true) (by simp)
    rfl (noneMissing_none _) (Behind.space.toNextToken ht true) (noneMissing_none _) rfl
    (by rw [h.cursor]; simp only [List.length_cons]; omega)

end InBlock

/-! ## Plain scalars -/

theorem ne_of_isOpening {c : Char} (h : Style.isOpening c = false) :
    c ≠ '#' ∧ c ≠ ',' ∧ c ≠ '[' ∧ c ≠ ']' ∧ c ≠ '\x7b' ∧ c ≠ '\x7d' ∧ c ≠ '&' ∧ c ≠ '*' ∧ c ≠ '!' ∧
      c ≠ '|' ∧ c ≠ '>' ∧ c ≠ '\'' ∧ c ≠ '"' ∧ c ≠ '%' ∧ c ≠ '@' ∧ c ≠ '\x60' := by
  simpa [Style.isOpening] using h

/-- A character that opens nothing else begins a plain scalar. -/
theorem fetchAt_plain {c : Char} (hflow : l.flow = 0) (hblank : isBlank c = false)
    (hbreak : isBreak c = false) (hopen : Style.isOpening c = false)
    (hspace : c = '?' ∨ c = ':' ∨ c = '-' → atSpace t = false)
    (hind : Cursor.atDocumentIndicator l.cursor.mark.column (c :: t) = false) :
    l.fetchAt c t = l.fetchPlain := by
  obtain ⟨h1, h2, h3, h4, h5, h6, h7, h8, h9, h10, h11, h12, h13, h14, h15, h16⟩ :=
    ne_of_isOpening hopen
  have hstarts : startsPlain false c t = true := by
    by_cases hc : c = '?' ∨ c = ':' ∨ c = '-'
    · have ht := hspace hc
      have hhead : t.head?.any isBlank = false := by
        cases t with
        | nil => rfl
        | cons d t => simpa using (Bool.or_eq_false_iff.mp ht).1
      rcases hc with rfl | rfl | rfl <;> simp [startsPlain, ht, hhead]
    · have hindicator : isIndicator c = false := by
        simp only [not_or] at hc
        simp [isIndicator, h1, h2, h3, h4, h5, h6, h7, h8, h9, h10, h11, h12, h13, h14, h15, h16, hc]
      simp [startsPlain, hblank, hbreak, hindicator]
  unfold fetchAt
  simp only [hflow, hind, h2, h3, h4, h5, h6, h7, h8, h9, h10, h11, h12, h13, h14]
  by_cases hc : c = '?' ∨ c = ':' ∨ c = '-'
  · simp [hspace hc, hstarts]
  · simp only [not_or] at hc
    simp [hc, hstarts]

/-- A text that does not begin with three of a character does not get them from what follows. -/
theorem append_ne_three {x : Char} {cs rest r : List Char} (hne : cs ≠ [])
    (h : [x, x, x].isPrefixOf cs = false) (hrest : rest.head? ≠ some x) :
    cs ++ rest ≠ x :: x :: x :: r := by
  intro he
  match cs with
  | [] => exact hne rfl
  | [a] => rw [List.singleton_append, List.cons.injEq] at he; rw [he.2] at hrest; exact hrest rfl
  | [a, b] =>
    simp only [List.cons_append, List.nil_append, List.cons.injEq] at he
    rw [he.2.2] at hrest
    exact hrest rfl
  | a :: b :: c :: cs =>
    simp only [List.cons_append, List.cons.injEq] at he
    obtain ⟨rfl, rfl, rfl, -⟩ := he
    simp [List.isPrefixOf] at h

/-- Text without indicators is none, whatever follows it but dashes and points. -/
theorem not_atDocumentIndicator {cs : List Char} (h : Style.hasIndicator cs = false)
    (hne : cs ≠ []) (rest : List Char) (hdash : rest.head? ≠ some '-') (hpoint : rest.head? ≠ some '.')
    (column : Nat) : Cursor.atDocumentIndicator column (cs ++ rest) = false := by
  simp only [Style.hasIndicator, Bool.or_eq_false_iff] at h
  unfold Cursor.atDocumentIndicator
  rw [Bool.and_eq_false_iff]
  refine .inr ?_
  split
  case h_1 r he => exact absurd he (append_ne_three hne h.1.1.1 hdash)
  case h_2 r he => exact absurd he (append_ne_three hne h.1.1.2 hpoint)
  case h_3 => rfl

/-- What plain style asks of a text that is not empty, as the lexer reads it. -/
theorem fetchPlain_eq {l l' : Lexer} {inFlow : Bool} {text : List Char} {c : Cursor}
    {scalar : String} {b : Bool} (hsave : l.saveKey = .ok l') (hflow : (l'.flow != 0) = inFlow)
    (hcursor : l'.cursor = ⟨m, text, none⟩)
    (hread : Plain.scan inFlow (l'.indent + 1) m none text m none [] = .ok (scalar, c, b)) :
    l.fetchPlain =
      .ok { l'.push (.scalar scalar .plain) m with cursor := c, keyAllowed := b } := by
  have hscalar : Plain.read (l'.flow != 0) (l'.indent + 1) l'.cursor = .ok (scalar, c, b) := by
    rw [Plain.read, hcursor, hflow]
    exact hread
  rw [fetchPlain, hsave]
  dsimp only [bind, Except.bind]
  rw [hscalar, hcursor]

namespace InBlock

/-- Text that fits plain style begins a plain scalar, unless it reads like a document indicator. -/
theorem fetchHere_plain {cs rest : List Char} (h : InBlock l ka m (cs ++ rest) s kinds)
    (hne : cs ≠ []) (hfits : Style.fitsPlain cs)
    (hind : Cursor.atDocumentIndicator m.column (cs ++ rest) = false) :
    l.fetchHere = l.fetchPlain := by
  obtain ⟨c, cs, rfl⟩ := List.exists_cons_of_ne_nil hne
  obtain ⟨hblank, hbreak, hopen, hfirst, -⟩ := Style.fitsPlain_cons hfits
  rw [h.fetchHere_cons]
  refine fetchAt_plain h.flow hblank hbreak hopen (fun hc => ?_) (by rw [h.mark_eq]; exact hind)
  exact Plain.atSpace_append (Style.atSpace_of_beforeSpace (hfirst hc)) _

/-- **A plain scalar fills the rest of its line.** -/
theorem plain {cs : List Char} {i n : Nat}
    (h : InBlock l ka m (cs ++ breakLine n t) (i :: s) kinds) (hne : cs ≠ [])
    (hfits : Style.fitsPlain cs) (hi : i < m.column) (hn : n ≤ i) (ht : startsToken t) :
    Leads l true n t (i :: s) (.scalar (String.ofList cs) .plain :: kinds) := by
  have hcol : (m.column == 0) = false := by simp; omega
  have hat : l.fetchHere = l.fetchPlain :=
    h.fetchHere_plain hne hfits (by simp [Cursor.atDocumentIndicator, hcol])
  obtain ⟨l', hsave, hindent, hl'⟩ := h.saveKey
  have hscan : Plain.scan false (l.indent + 1) m none (cs ++ breakLine n t) m none [] = _ :=
    Plain.scan_line hne (Style.isRun_of_fitsPlain hfits) (Style.last_of_fitsPlain hfits)
      (by rw [h.indent_cons]; omega) (by rw [h.indent_cons]; omega) ht
  have houtside : (l'.flow != 0) = false := by rw [hl'.flow]; rfl
  have hfetch := hat.trans (fetchPlain_eq hsave houtside hl'.cursor (hindent ▸ hscan))
  have hkeys : ∀ k ∈ keyHere l ka m kinds, k.required = false :=
    fun k hk => h.required_keyHere (by simpa using hi) hk
  exact leads_of_fetch (m := (m.behind _).nextLine n) hfetch (hl'.push ..) (by simp) rfl
    (noneMissing_optional _ hkeys) (toNextToken_spaces false ht _ true _ 0)
    (noneMissing_optional _ hkeys)
    (kept_of_line fun k hk => by rw [mark_keyHere hk]; simp)
    (by rw [h.cursor]; simp [breakLine]; omega)

/-! ## Quoted scalars and literal blocks -/

theorem fetchAt_quoted (single : Bool) (t : List Char) :
    l.fetchAt (if single then '\'' else '"') t = l.fetchQuoted single := by
  cases single <;> simp [fetchAt, Cursor.atDocumentIndicator]

theorem fetchQuoted_eq {l l' : Lexer} {single : Bool} {text : List Char} {c : Cursor}
    {scalar : String} (hsave : l.saveKey = .ok l')
    (hcursor : l'.cursor = ⟨m, (if single then '\'' else '"') :: text, none⟩)
    (hread : Quoted.scan single m none text 0 (m.right 1) (some (.blanks [])) [] =
      .ok (scalar, c)) :
    l.fetchQuoted single =
      .ok { l'.push (.scalar scalar (if single then .singleQuoted else .doubleQuoted)) m with
        cursor := c, keyAllowed := false } := by
  have hskip : (⟨m, (if single then '\'' else '"') :: text, none⟩ : Cursor).skip 1 =
      ⟨m.right 1, text, none⟩ := by
    cases single <;> rfl
  have hq : Quoted.read single l'.cursor = .ok (scalar, c) := by
    rw [Quoted.read, hcursor]
    simp only [hskip]
    exact hread
  rw [fetchQuoted, hsave]
  dsimp only [bind, Except.bind]
  rw [hq, hcursor]

/-- **A quoted scalar and the end of its last line.** -/
theorem quoted (single : Bool) {text : List Char} {scalar : String} {m' : Mark} {i n : Nat}
    (h : InBlock l ka m ((if single then '\'' else '"') :: text) (i :: s) kinds)
    (hread : Quoted.scan single m none text 0 (m.right 1) (some (.blanks [])) [] =
      .ok (scalar, ⟨m', breakLine n t, none⟩)) (hm' : m.line ≤ m'.line) (hi : i < m.column)
    (ht : startsToken t) (hlt : t.length < text.length) :
    Leads l true n t (i :: s)
      (.scalar scalar (if single then .singleQuoted else .doubleQuoted) :: kinds) := by
  obtain ⟨l', hsave, -, hl'⟩ := h.saveKey
  have hfetch := (h.fetchHere_cons.trans (fetchAt_quoted single text)).trans
    (fetchQuoted_eq hsave hl'.cursor hread)
  have hkeys : ∀ k ∈ keyHere l ka m kinds, k.required = false :=
    fun k hk => h.required_keyHere (by simpa using hi) hk
  exact leads_of_fetch (m := m'.nextLine n) hfetch (hl'.push ..) (by simp) rfl
    (noneMissing_optional _ hkeys) (toNextToken_breakLine false ht (spaces n ++ t).length false m' n)
    (noneMissing_optional _ hkeys)
    (kept_of_line fun k hk => by rw [mark_keyHere hk]; simp; omega)
    (by rw [h.cursor]; simp; omega)

/-- **A literal block**, whose last line break is its own. -/
theorem literal {cs : List Char} {i n : Nat}
    (h : InBlock l ka m (Writer.literal (i + 2) cs ++ (spaces n ++ t)) (i :: s) kinds)
    (hfits : BlockScalar.FitsBlock cs) (hn : n ≤ i) (ht : startsToken t) :
    Leads l true n t (i :: s) (.scalar (String.ofList cs) .literal :: kinds) := by
  obtain ⟨m', hline, hcol, hread⟩ := BlockScalar.read_literal hfits
    (show n < i + 2 by omega) ht m
  obtain ⟨text, htext⟩ : ∃ text, Writer.literal (i + 2) cs = '|' :: text := ⟨_, rfl⟩
  have hlen : t.length < (Writer.literal (i + 2) cs ++ (spaces n ++ t)).length := by
    rw [htext]; simp; omega
  have hat : l.fetchHere = l.fetchBlockScalar true := by
    have h' := h
    rw [htext] at h'
    rw [h'.fetchHere_cons]
    simp [fetchAt, Cursor.atDocumentIndicator, h.flow]
  have hfetch : l.fetchHere =
      .ok { l.push (.scalar (String.ofList cs) .literal) m with
        cursor := ⟨m', t, none⟩, keyAllowed := true } := by
    rw [hat, fetchBlockScalar, h.dropKey]
    dsimp only [bind, Except.bind]
    rw [h.cursor, h.indent_cons, hread]
    rfl
  rw [← hcol]
  exact leads_of_fetch (m := m') hfetch (h.push ..) (by simp) rfl (noneMissing_none _)
    (toNextToken_spaces false ht _ true m' 0) (noneMissing_none _) rfl
    (by rw [h.cursor]; exact hlen)

/-! ## Empty collections -/

/-- The brackets of an empty sequence or the braces of an empty mapping. -/
inductive Brackets : (opening closing : Char) → (begins ends : Kind) → Prop where
  | sequence : Brackets '[' ']' .flowSequenceStart .flowSequenceEnd
  | mapping : Brackets '\x7b' '\x7d' .flowMappingStart .flowMappingEnd

/-- The opening character starts a flow context, in which no key is possible yet; the key that was
possible before it is kept, if any. -/
theorem openBracket {o e : Char} {begins ends : Kind} (hb : Brackets o e begins ends) {i n : Nat}
    (h : InBlock l ka m (o :: e :: breakLine n t) (i :: s) kinds) (hi : i < m.column) :
    ∃ l' key, Reaches l l' ∧ (∀ k ∈ key, k ∈ keyHere l ka m kinds) ∧
      Stands l' ⟨m.behind [o], e :: breakLine n t, none⟩ true 1 [none, key] (i :: s)
        (begins :: kinds) := by
  obtain ⟨l₁, hsave, -, hl₁⟩ := h.saveKey
  have hmissing (m₁ : Mark) : NoneMissing m₁ [none, keyHere l ka m kinds] := by
    intro key hkey
    rcases List.mem_cons.mp hkey with rfl | hkey
    · intro k hk; cases hk
    · exact noneMissing_optional m₁ (fun k hk => h.required_keyHere (by simpa using hi) hk) key hkey
  have hopen : l.fetchHere = .ok { l₁.pushIndicator begins with
      flow := l₁.flow + 1, keys := none :: l₁.keys, keyAllowed := true } := by
    have hat : l.fetchAt o (e :: breakLine n t) = l.fetchFlowStart begins := by
      cases hb <;> simp [fetchAt, Cursor.atDocumentIndicator]
    rw [h.fetchHere_cons, hat, fetchFlowStart, hsave]
    rfl
  have hstands : Stands { l₁.pushIndicator begins with
      flow := l₁.flow + 1, keys := none :: l₁.keys, keyAllowed := true }
      ⟨m.behind [o], e :: breakLine n t, none⟩ true 1 [none, keyHere l ka m kinds] (i :: s)
      (begins :: kinds) := by
    have hp := hl₁.pushIndicator (by cases hb <;> rfl) begins true
    exact ⟨hp.cursor, rfl, congrArg (· + 1) hl₁.flow, congrArg (none :: ·) hl₁.keys, hp.columns,
      hp.kinds⟩
  have hstarts : startsToken (e :: breakLine n t) := by cases hb <;> rfl
  obtain ⟨l₂, hr, hl₂⟩ := reaches_of_fetch hopen hstands (by cases hb <;> simp) rfl (hmissing _)
    (toNextToken_spaces true hstarts (e :: breakLine n t).length true (m.behind [o]) 0)
    (hmissing _) (by rw [h.cursor]; simp)
  simp only [Mark.right_zero, Nat.succ_ne_zero, if_false] at hl₂
  exact ⟨l₂, _, hr, fun k hk => (Option.mem_filter_iff.mp (Option.mem_filter_iff.mp hk).1).1, hl₂⟩

/-- The closing character ends the flow context, and the key that was possible before it is so
again. -/
theorem closeBracket {o e : Char} {begins ends : Kind} (hb : Brackets o e begins ends) {n : Nat}
    {key : Option PossibleKey} (hoptional : ∀ k ∈ key, k.required = false)
    (hline : ∀ k ∈ key, k.mark.line = m.line)
    (h : Stands l ⟨m, e :: breakLine n t, none⟩ true 1 [none, key] s kinds) (ht : startsToken t) :
    Leads l true n t s (ends :: kinds) := by
  have hclose : l.fetchHere = .ok { l.pushIndicator ends with
      flow := l.flow - 1, keys := if l.flow = 0 then l.keys else l.keys.tail,
      keyAllowed := false } := by
    have hat : l.fetchAt e (breakLine n t) = l.fetchFlowEnd ends := by
      cases hb <;> simp [fetchAt, Cursor.atDocumentIndicator]
    have hdrop : l.dropKey = .ok l := by rw [Lexer.dropKey, h.keys]
    rw [h.fetchHere_cons, hat, fetchFlowEnd, hdrop]
    rfl
  have hstands : Stands { l.pushIndicator ends with
      flow := l.flow - 1, keys := if l.flow = 0 then l.keys else l.keys.tail,
      keyAllowed := false } ⟨m.behind [e], breakLine n t, none⟩ false 0 [key] s (ends :: kinds) := by
    have hp := h.pushIndicator (by cases hb <;> rfl) ends false
    refine ⟨hp.cursor, rfl, congrArg (· - 1) h.flow, ?_, hp.columns, hp.kinds⟩
    show (if l.flow = 0 then l.keys else l.keys.tail) = _
    rw [h.flow, h.keys]
    rfl
  exact leads_of_fetch (m := (m.behind [e]).nextLine n) hclose hstands (by cases hb <;> simp) rfl
    (noneMissing_optional _ hoptional)
    (toNextToken_breakLine false ht (spaces n ++ t).length false _ n)
    (noneMissing_optional _ hoptional) (kept_of_line fun k hk => by rw [hline k hk]; simp)
    (by rw [h.cursor]; simp [breakLine]; omega)

/-- **An empty collection fills the rest of its line.** -/
theorem brackets {o e : Char} {begins ends : Kind} (hb : Brackets o e begins ends) {i n : Nat}
    (h : InBlock l ka m (o :: e :: breakLine n t) (i :: s) kinds) (hi : i < m.column)
    (ht : startsToken t) : Leads l true n t (i :: s) (ends :: begins :: kinds) := by
  obtain ⟨l₁, key, hr, hkey, h₁⟩ := h.openBracket hb hi
  have hoptional : ∀ k ∈ key, k.required = false :=
    fun k hk => h.required_keyHere (by simpa using hi) (hkey k hk)
  have hline : ∀ k ∈ key, k.mark.line = (m.behind [o]).line :=
    fun k hk => by rw [mark_keyHere (hkey k hk)]; rfl
  obtain ⟨l₂, m₂, hr', hm₂, h₂⟩ := closeBracket hb hoptional hline h₁ ht
  exact ⟨l₂, m₂, hr.trans hr', hm₂, h₂⟩

/-! ## Short keys -/

/-- The text of a key reads as a scalar in the same line. -/
def ReadsKey (l : Lexer) (m : Mark) (w rest : List Char) (scalar : Kind) : Prop :=
  ∀ l', l.saveKey = .ok l' → l'.indent = l.indent → l'.flow = 0 →
    l'.cursor = ⟨m, w ++ ':' :: rest, none⟩ →
      l.fetchHere = .ok { l'.push scalar m with
        cursor := ⟨m.behind w, ':' :: rest, none⟩, keyAllowed := false }

end InBlock

/-- A token is put in its place, behind the tokens that were there when the place was taken. -/
theorem Stands.insert {c : Cursor} {flow : Nat} {keys : List (Option PossibleKey)}
    {later : List Kind} (h : Stands l c ka flow keys s (later ++ kinds)) (kind : Kind)
    (mark : Mark) :
    Stands (l.insert kinds.length kind mark) c ka flow keys s (later ++ kind :: kinds) := by
  refine ⟨h.cursor, h.keyAllowed, h.flow, h.keys, h.columns, ?_⟩
  have hlater : l.tokens.length - kinds.length = later.length := by
    rw [h.length_tokens, List.length_append]; omega
  simp only [Lexer.insert, hlater, List.map_append, List.map_take, List.map_cons, List.map_drop,
    h.kinds, List.take_left, List.drop_left]

/-- A mapping begins in front of its first key. -/
theorem Stands.roll {c : Cursor} {keys : List (Option PossibleKey)} (later : List Kind)
    (h : Stands l c ka 0 keys s (later ++ kinds)) (column : Nat) (kind : Kind) (mark : Mark) :
    Stands (l.roll column kinds.length kind mark) c ka 0 keys (beginAt column kind s kinds).1
      (later ++ (beginAt column kind s kinds).2) := by
  have hiff := h.indent_lt_iff column
  unfold Lexer.roll beginAt
  simp only [h.flow, true_and, hiff]
  split
  · have hi := h.insert kind mark
    exact ⟨hi.cursor, hi.keyAllowed, hi.flow, hi.keys,
      congrArg ((column : Int) :: ·) h.columns, hi.kinds⟩
  · exact h

theorem close_of_head {n : Nat} (h : s.head?.all (· ≤ n)) (kinds : List Kind) :
    close n s kinds = (s, kinds) := by
  cases s with
  | nil => rfl
  | cons i s => exact close_of_le (by simpa using h) s kinds

namespace InBlock

/-- **A short key and its colon** begin a mapping where none is open. -/
theorem simpleKey {w rest : List Char} {scalar : Kind} {m' : Mark} {newLine : Bool}
    (h : InBlock l true m (w ++ ':' :: rest) s kinds) (hread : ReadsKey l m w rest scalar)
    (hscalar : scalar ≠ .streamEnd) (hlen : octets w ≤ longestKey) (hw : w ≠ [])
    (hs : s.head?.all (· ≤ m.column)) (hrest : Behind (m.behind (w ++ [':'])) t rest m' newLine)
    (ht : startsToken t) :
    Leads l newLine m'.column t (beginAt m.column .blockMappingStart s kinds).1
      (.value :: scalar :: .key :: (beginAt m.column .blockMappingStart s kinds).2) := by
  obtain ⟨l', hsave, hindent, hl'⟩ := h.saveKey
  have hfetch := hread l' hsave hindent hl'.flow hl'.cursor
  have hpush := hl'.push scalar m ⟨m.behind w, ':' :: rest, none⟩ false
  simp only [keyHere, if_true] at hpush
  have hfresh : isStale (m.behind w)
      ⟨l.indent == (m.column : Int), kinds.length, m⟩ = false :=
    not_isStale rfl (by simpa using hlen)
  obtain ⟨l₂, hr, hl₂⟩ := reaches_of_fetch hfetch hpush hscalar rfl (noneMissing_fresh hfresh)
    (toNextToken_spaces false (t := ':' :: rest) rfl (':' :: rest).length false
      (m.behind w) 0)
    (noneMissing_fresh hfresh)
    (by rw [h.cursor]; have := List.length_pos_iff.mpr hw; simp; omega)
  simp only [Mark.right_zero, if_true, kept_fresh hfresh] at hl₂
  have hs' : s.head?.all (· ≤ (m.behind w).column) := by
    cases s with
    | nil => rfl
    | cons i s =>
      have hi : i ≤ m.column := by simpa using hs
      exact decide_eq_true (Nat.le_trans hi (Nat.le_add_right ..))
  rw [close_of_head hs'] at hl₂
  -- At the colon the key is still fresh, so a token for it goes in front of the scalar.
  have hat : l₂.fetchAt ':' rest = l₂.fetchValue := by
    simp [fetchAt, Cursor.atDocumentIndicator, hrest.atSpace]
  have hnone : Stands { l₂ with keys := [none] } ⟨m.behind w, ':' :: rest, none⟩ false 0 [none]
      s ([scalar] ++ kinds) := ⟨hl₂.cursor, hl₂.keyAllowed, hl₂.flow, rfl, hl₂.columns, hl₂.kinds⟩
  have hroll := Stands.roll [scalar, .key] (hnone.insert .key m) m.column .blockMappingStart m
  have hvalue : l₂.fetchHere = .ok
      { ((({ l₂ with keys := [none] }).insert kinds.length .key m).roll m.column kinds.length
        .blockMappingStart m).pushIndicator .value with keyAllowed := false } := by
    rw [hl₂.fetchHere_cons, hat, fetchValue, hl₂.keys]
  obtain ⟨l₃, m₃, hr₃, hm₃, hl₃⟩ := leads_of_fetch (m := m') hvalue
    (hroll.pushIndicator rfl .value false) (by simp) rfl (noneMissing_none _)
    (by rw [Mark.behind_behind]; exact hrest.toNextToken ht false) (noneMissing_none _) rfl
    (by rw [hl₂.cursor]; have := hrest.length_lt; simp; omega)
  rw [Bool.false_or] at hl₃
  exact ⟨l₃, m₃, hr.trans hr₃, hm₃, hl₃⟩

end InBlock

/-! ## The end of the text -/

theorem unrolled_all (m : Mark) (s : List Nat) (ts : List Token) :
    ∀ i is, i :: is = columns s →
      (unrolled (-1) m i is ts).2.2 = List.replicate s.length ⟨.blockEnd, m⟩ ++ ts := by
  induction s generalizing ts with
  | nil =>
    rintro i is h
    obtain ⟨rfl, rfl⟩ := eq_of_columns_nil h
    rw [unrolled, if_neg (by omega)]
    rfl
  | cons j s ih =>
    rintro i is h
    obtain ⟨rfl, outer, is, rfl, hs⟩ := exists_of_columns_cons h
    rw [unrolled, if_pos (by omega), ih (⟨.blockEnd, m⟩ :: ts) outer is hs, List.length_cons,
      List.replicate_succ', List.append_assoc]
    rfl

/-- **The end of the text** ends every block collection that is open. -/
theorem Stands.fetchEnd {key : Option PossibleKey}
    (h : Stands l ⟨m, [], none⟩ ka 0 [key] s kinds) (hkey : ∀ k ∈ key, k.required = false) :
    ∃ l', l.fetchHere >>= dropStale = .ok l' ∧ l'.isOver ∧
      l'.tokens.map Token.kind =
        .streamEnd :: (List.replicate s.length .blockEnd ++ kinds) := by
  have hrest : l.cursor.rest = [] := by rw [h.cursor]
  have hhere : l.fetchHere = l.fetchEnd := by rw [fetchHere, hrest]
  -- The mark depends on whether a line is still open at the end, which does not matter here.
  obtain ⟨m₁, hend⟩ : ∃ m₁, l.fetchEnd = (do
      let l ← ({ l with cursor := { l.cursor with mark := m₁ } }.unroll (-1)).dropKey
      .ok ({ l with keyAllowed := false }.push .streamEnd m₁)) := ⟨_, rfl⟩
  rw [hhere, hend]
  have hunroll : ∃ l₁, ({ l with cursor := { l.cursor with mark := m₁ } } : Lexer).unroll (-1) = l₁ ∧
      l₁.keys = [key] ∧
        l₁.tokens.map Token.kind = List.replicate s.length .blockEnd ++ kinds := by
    refine ⟨_, rfl, ?_, ?_⟩
    · unfold unroll
      split <;> exact h.keys
    · unfold unroll
      rw [if_pos (show ({ l with cursor := { l.cursor with mark := m₁ } } : Lexer).flow = 0 from
        h.flow)]
      show ((unrolled (-1) m₁ l.indent l.indents l.tokens).2.2).map Token.kind = _
      rw [unrolled_all m₁ s l.tokens l.indent l.indents h.columns, List.map_append, h.kinds]
      simp
  obtain ⟨l₁, he, hkeys, hkinds⟩ := hunroll
  rw [he]
  obtain ⟨l₂, hdrop, hkeys₂, hkinds₂⟩ : ∃ l₂, l₁.dropKey = .ok l₂ ∧ l₂.keys = [none] ∧
      l₂.tokens.map Token.kind = List.replicate s.length .blockEnd ++ kinds := by
    unfold dropKey
    rw [hkeys]
    cases key with
    | none => exact ⟨l₁, rfl, hkeys, hkinds⟩
    | some k =>
      simp only [hkey k rfl, Bool.false_eq_true, if_false]
      exact ⟨_, rfl, rfl, hkinds⟩
  rw [hdrop]
  have hmissing : NoneMissing l₂.cursor.mark l₂.keys := by rw [hkeys₂]; exact noneMissing_none _
  have hlast : ({ l₂ with keyAllowed := false }.push .streamEnd m₁).dropStale =
      .ok { { l₂ with keyAllowed := false }.push .streamEnd m₁ with
        keys := kept l₂.cursor.mark l₂.keys } := dropStale_eq hmissing
  exact ⟨_, hlast, rfl, congrArg (Kind.streamEnd :: ·) hkinds₂⟩

end Steps

end ConfigVault.Yaml.Lexer
