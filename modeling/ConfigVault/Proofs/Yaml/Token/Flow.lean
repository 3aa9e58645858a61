import ConfigVault.Proofs.Yaml.Token.Block
import ConfigVault.Proofs.Yaml.Token.JsonString

/-! # Tokens inside of brackets

One lemma for each thing that a JSON text is made of: a bracket, a comma, a word, a string, and a key
with its colon.  Each says where the lexer stands afterwards and which tokens there are (`InFlow`).

Lines and columns mean nothing inside of brackets, so nothing can go wrong there but a string that is
cut off.  `Outcome` therefore says both, where the lexer gets and that it gets no further.  A key that
is too long, or that breaks its line, is no failure here: it is only not announced as a key.
-/
namespace ConfigVault.Yaml.Lexer

open Writer (spaces)
open Token (Kind)
open InBlock (Brackets)

/-! ## Outcomes -/

/-- The lexer leads to one with the property, or else to one that finds an error. -/
def Outcome (l : Lexer) (ok : Bool) (P : Lexer → Prop) : Prop :=
  if ok then ∃ l', Reaches l l' ∧ P l' else ∃ l' e, Reaches l l' ∧ l'.fetchHere = .error e

namespace Outcome

variable {l : Lexer} {P Q : Lexer → Prop}

theorem fails {e : SyntaxError} (h : l.fetchHere = .error e) : Outcome l false P := ⟨l, e, .refl l, h⟩

/-- **Outcomes one after the other**: the first error ends it all. -/
theorem bind {a b : Bool} (h : Outcome l a P) (h' : ∀ l', P l' → Outcome l' b Q) :
    Outcome l (a && b) Q := by
  cases a with
  | false => exact h
  | true =>
    obtain ⟨l₁, hr, hl₁⟩ := h
    have hnext := h' l₁ hl₁
    rw [Bool.true_and]
    cases b with
    | false =>
      obtain ⟨l₂, e, hr', he⟩ := hnext
      exact ⟨l₂, e, hr.trans hr', he⟩
    | true =>
      obtain ⟨l₂, hr', hl₂⟩ := hnext
      exact ⟨l₂, hr.trans hr', hl₂⟩

end Outcome

/-! ## Places inside of brackets -/

/-- From behind one token the lexer moves on to the next; where a key could begin it still can. -/
structure MovesTo (flow : Nat) (m : Mark) (rest : List Char) (m' : Mark) (t : List Char) : Prop where
  next : ∀ ka : Bool, ∃ ka' : Bool, (ka → ka') ∧
    toNextToken (flow != 0) (rest.length + 1) ka ⟨m, rest, none⟩ = (ka', ⟨m', t, none⟩)
  length_le : t.length ≤ rest.length

namespace MovesTo

variable {flow : Nat} {m : Mark} {t : List Char}

theorem here (ht : startsToken t) : MovesTo flow m t m t :=
  ⟨fun ka => ⟨ka, id, toNextToken_spaces (flow != 0) ht t.length ka m 0⟩, Nat.le_refl _⟩

theorem space (ht : startsToken t) : MovesTo flow m (' ' :: t) (m.right 1) t :=
  ⟨fun ka => ⟨ka, id, toNextToken_spaces (flow != 0) ht _ ka m 1⟩, by simp⟩

theorem line (ht : startsToken t) (n : Nat) : MovesTo flow m (breakLine n t) (m.nextLine n) t :=
  ⟨fun ka => ⟨_, fun hka => by rw [hka]; rfl,
    toNextToken_breakLine (flow != 0) ht (spaces n ++ t).length ka m n⟩, by
    rw [breakLine, List.length_cons, List.length_append]; omega⟩

end MovesTo

/-- Behind one token the text of the next follows, wherever that is. -/
def Leaves (flow : Nat) (rest t : List Char) : Prop := ∀ m, ∃ m', MovesTo flow m rest m' t

namespace Leaves

variable {flow : Nat} {t : List Char}

theorem here (ht : startsToken t) : Leaves flow t t := fun m => ⟨m, .here ht⟩

theorem line (ht : startsToken t) (n : Nat) : Leaves flow (breakLine n t) t :=
  fun m => ⟨m.nextLine n, .line ht n⟩

theorem of_follows {rest : List Char} (h : Plain.Follows rest t) : Leaves flow rest t := by
  cases h with
  | comma t => exact .here rfl
  | closing n hx t => exact .line (by rcases hx with rfl | rfl <;> rfl) n

end Leaves

/-- The possible key, if it still is one at a mark. -/
def keptKey (m : Mark) (key : Option PossibleKey) : Option PossibleKey :=
  key.filter fun k => !isStale m k

/-- No key has to be one. -/
def Optional (keys : List (Option PossibleKey)) : Prop :=
  ∀ key ∈ keys, ∀ k ∈ key, k.required = false

/-- One more possible key, if there is one, that does not have to be a key either. -/
theorem Optional.cons {key : Option PossibleKey} {keys : List (Option PossibleKey)}
    (hkey : ∀ k ∈ key, k.required = false) (h : Optional keys) : Optional (key :: keys) :=
  List.forall_mem_cons.mpr ⟨hkey, h⟩

theorem Optional.tail {key : Option PossibleKey} {keys : List (Option PossibleKey)}
    (h : Optional (key :: keys)) : Optional keys := (List.forall_mem_cons.mp h).2

theorem Optional.none_cons {keys : List (Option PossibleKey)} (h : Optional keys) :
    Optional (none :: keys) := h.cons fun _ hk => by cases hk

theorem Optional.noneMissing {keys : List (Option PossibleKey)} (h : Optional keys) (m : Mark) :
    NoneMissing m keys := by
  intro key hkey k hk hr
  rw [h key hkey k hk] at hr
  cases hr

theorem Optional.kept {keys : List (Option PossibleKey)} (h : Optional keys) (m : Mark) :
    Optional (kept m keys) := by
  intro key hkey k hk
  obtain ⟨key', hkey', rfl⟩ := List.mem_map.mp hkey
  exact h key' hkey' k (Option.mem_filter_iff.mp hk).1

/-- The lexer stands inside of so many brackets, with this possible key of the innermost ones.  A key
may begin there if it is said so, and nothing has to be a key. -/
def InFlow (l : Lexer) (begins : Bool) (m : Mark) (t : List Char) (flow : Nat)
    (key : Option PossibleKey) (kinds : List Kind) : Prop :=
  ∃ (ka : Bool) (outer : List (Option PossibleKey)), (begins → ka) ∧ outer.length = flow ∧
    Optional (key :: outer) ∧
    Stands l ⟨m, t, none⟩ ka flow (key :: outer) [] kinds

namespace InFlow

variable {l l₁ : Lexer} {begins : Bool} {m m' : Mark} {t rest : List Char} {flow : Nat}
  {key : Option PossibleKey} {kind : Kind} {kinds : List Kind}

theorem fetchHere_cons {x : Char} (h : InFlow l begins m (x :: t) flow key kinds) :
    l.fetchHere = l.fetchAt x t := by
  obtain ⟨ka, outer, -, -, -, hstands⟩ := h
  exact hstands.fetchHere_cons

theorem cursor_eq (h : InFlow l begins m t flow key kinds) : l.cursor = ⟨m, t, none⟩ := by
  obtain ⟨ka, outer, -, -, -, hstands⟩ := h
  exact hstands.cursor

theorem weaken (h : InFlow l begins m t flow key kinds) : InFlow l false m t flow key kinds := by
  obtain ⟨ka, outer, -, hlength, hoptional, hstands⟩ := h
  exact ⟨ka, outer, by simp, hlength, hoptional, hstands⟩

/-- A step of a run. -/
theorem of_fetch (hfetch : l.fetchHere = .ok l₁)
    (h : InFlow l₁ begins m rest flow key (kind :: kinds)) (hkind : kind ≠ .streamEnd)
    (hmove : MovesTo flow m rest m' t) (hlt : rest.length < l.cursor.rest.length) :
    Outcome l true
      (InFlow · begins m' t flow (keptKey m' (keptKey m key)) (kind :: kinds)) := by
  obtain ⟨ka, outer, hbegins, hlength, hoptional, hstands⟩ := h
  obtain ⟨ka', hka, hnext⟩ := hmove.next ka
  obtain ⟨l', hr, hl'⟩ := reaches_of_fetch hfetch hstands hkind rfl (hoptional.noneMissing m) hnext
    (hoptional.noneMissing m') (Nat.lt_of_le_of_lt hmove.length_le hlt)
  have hclose : close m'.column [] (kind :: kinds) = ([], kind :: kinds) := rfl
  rw [hclose, ite_self, ite_self] at hl'
  exact ⟨l', hr, ka', kept m' (kept m outer), fun hb => hka (hbegins hb),
    by simp [kept, hlength], (hoptional.kept m).kept m', hl'⟩

/-- The possible key of the innermost brackets is given up. -/
theorem dropKey (h : InFlow l begins m t flow key kinds) :
    ∃ l', l.dropKey = .ok l' ∧ InFlow l' begins m t flow none kinds := by
  obtain ⟨ka, outer, hbegins, hlength, hoptional, hstands⟩ := h
  unfold Lexer.dropKey
  rw [hstands.keys]
  cases key with
  | none => exact ⟨l, rfl, ka, outer, hbegins, hlength, hoptional, hstands⟩
  | some k =>
    simp only [hoptional (some k) (by simp) k rfl, Bool.false_eq_true, if_false]
    exact ⟨_, rfl, ka, outer, hbegins, hlength, hoptional.tail.none_cons, hstands.cursor, hstands.keyAllowed,
      hstands.flow, rfl, hstands.columns, hstands.kinds⟩

/-- What comes next may be a key, where one can begin. -/
theorem saveKey (h : InFlow l begins m t flow key kinds) :
    ∃ l' key', l.saveKey = .ok l' ∧ InFlow l' begins m t flow key' kinds ∧
      (begins → key' = some ⟨false, kinds.length, m⟩) := by
  obtain ⟨ka, outer, hbegins, hlength, hoptional, hstands⟩ := id h
  unfold Lexer.saveKey
  rw [hstands.keyAllowed]
  cases ka with
  | false => exact ⟨l, key, rfl, h, fun hb => by cases hbegins hb⟩
  | true =>
    obtain ⟨l₁, hdrop, ka₁, outer₁, hbegins₁, hlength₁, hoptional₁, hstands₁⟩ := h.dropKey
    have hrequired : (l₁.flow == 0 && l₁.indent == (m.column : Int)) = false := by
      have hindent : (l₁.indent == (m.column : Int)) = false := by
        rw [hstands₁.indent_nil]
        exact beq_false_of_ne (by omega)
      rw [hindent, Bool.and_false]
    have hmark : l.cursor.mark = m := hstands.mark_eq
    rw [hdrop, hmark, if_pos rfl]
    refine ⟨_, _, rfl, ⟨ka₁, outer₁, hbegins₁, hlength₁, hoptional₁.tail.cons ?_, hstands₁.cursor,
      hstands₁.keyAllowed, hstands₁.flow, congrArg (_ :: ·) (congrArg List.tail hstands₁.keys),
      hstands₁.columns, hstands₁.kinds⟩, fun _ => by rw [hrequired, hstands₁.length_tokens]⟩
    rintro k ⟨⟩
    exact hrequired

/-- A token of one character. -/
theorem pushIndicator {x : Char} (h : InFlow l begins m (x :: rest) flow key kinds)
    (hx : isBreak x = false) (kind : Kind) (ka : Bool) :
    InFlow { l.pushIndicator kind with keyAllowed := ka } ka (m.behind [x]) rest flow key
      (kind :: kinds) := by
  obtain ⟨ka₀, outer, -, hlength, hoptional, hstands⟩ := h
  exact ⟨ka, outer, id, hlength, hoptional, hstands.pushIndicator hx kind ka⟩

/-- A token, behind which no key may begin in the same line. -/
theorem push (h : InFlow l begins m t flow key kinds) (kind : Kind) (mark : Mark) (m' : Mark)
    (ka : Bool) :
    InFlow { l.push kind mark with cursor := ⟨m', rest, none⟩, keyAllowed := ka } false m' rest flow
      key (kind :: kinds) := by
  obtain ⟨ka₀, outer, -, hlength, hoptional, hstands⟩ := h
  exact ⟨ka, outer, by simp, hlength, hoptional, hstands.push kind mark _ ka⟩

end InFlow

/-- The lexer stands somewhere inside of so many brackets. -/
def Inside (l : Lexer) (t : List Char) (flow : Nat) (kinds : List Kind) : Prop :=
  ∃ m key, InFlow l false m t flow key kinds

/-- The lexer stands where an entry begins, which may be a key. -/
def AtEntry (l : Lexer) (t : List Char) (flow : Nat) (kinds : List Kind) : Prop :=
  ∃ m key, InFlow l true m t flow key kinds

theorem AtEntry.inside {l : Lexer} {t : List Char} {flow : Nat} {kinds : List Kind}
    (h : AtEntry l t flow kinds) : Inside l t flow kinds := by
  obtain ⟨m, key, h⟩ := h
  exact ⟨m, key, h.weaken⟩

/-- A word is a plain scalar, inside of brackets and outside. -/
theorem fetchAt_word {l : Lexer} {c : Char} {cs rest : List Char} (h : Style.isWord (c :: cs))
    (hdash : rest.head? ≠ some '-') (hpoint : rest.head? ≠ some '.') :
    l.fetchAt c (cs ++ rest) = l.fetchPlain := by
  have hfits := Style.fitsPlain_of_isWord h
  obtain ⟨-, hblank, hbreak, hopen, hcolon, -, hquestion, -⟩ :=
    Style.wordChar_facts (Style.isWordChar_of_mem h c (by simp))
  obtain ⟨-, -, -, hfirst, -⟩ := Style.fitsPlain_cons hfits
  obtain ⟨h1, h2, h3, h4, h5, h6, h7, h8, h9, h10, h11, h12, h13, h14, h15, h16⟩ :=
    ne_of_isOpening hopen
  have hind := not_atDocumentIndicator (Style.fitsPlain_iff.mp hfits).2.2.2.2 (by simp) rest hdash
    hpoint l.cursor.mark.column
  have hminus : c = '-' → atSpace (cs ++ rest) = false := fun he =>
    Plain.atSpace_append (Style.atSpace_of_beforeSpace (hfirst (.inr (.inr he)))) rest
  -- Of the characters of a word only the minus sign is an indicator, and then not in front of text.
  have hstarts : startsPlain (l.flow != 0) c (cs ++ rest) = true := by
    by_cases he : c = '-'
    · have hhead : (cs ++ rest).head?.any isBlank = false := by
        have hspace := hminus he
        cases hcs : cs ++ rest with
        | nil => rfl
        | cons d t =>
          rw [hcs] at hspace
          simpa using (Bool.or_eq_false_iff.mp hspace).1
      unfold startsPlain
      rw [hhead, he]
      simp
    · have hindicator : isIndicator c = false := by
        simp [isIndicator, h1, h2, h3, h4, h5, h6, h7, h8, h9, h10, h11, h12, h13, h14, h15, h16, he,
          hcolon, hquestion]
      simp [startsPlain, hblank, hbreak, hindicator]
  have hdash' : ¬ (c = '-' ∧ atSpace (cs ++ rest) = true) := fun he => by
    rw [hminus he.1] at he; exact Bool.false_ne_true he.2
  unfold fetchAt
  rw [List.cons_append] at hind
  simp only [hind, h2, h3, h4, h5, h6, h7, h8, h9, h10, h11, h12, h13, h14, hcolon, hquestion, hdash',
    hstarts, and_false, false_and, if_false, Bool.false_eq_true, if_true]

namespace Inside

variable {l : Lexer} {t rest : List Char} {flow : Nat} {kinds : List Kind} {o e : Char}
  {start stop : Kind}

/-! ## Indicators -/

/-- **An opening bracket.** -/
theorem opening (hb : Brackets o e start stop) (h : Inside l (o :: rest) flow kinds)
    (hrest : Leaves (flow + 1) rest t) :
    Outcome l true (AtEntry · t (flow + 1) (start :: kinds)) := by
  obtain ⟨m, key, h⟩ := h
  obtain ⟨m', hmove⟩ := hrest (m.behind [o])
  obtain ⟨l₁, key₁, hsave, hl₁, -⟩ := h.saveKey
  have hat : l.fetchAt o rest = l.fetchFlowStart start := by
    cases hb <;> simp [fetchAt, Cursor.atDocumentIndicator]
  have hfetch : l.fetchHere = .ok { l₁.pushIndicator start with
      flow := l₁.flow + 1, keys := none :: l₁.keys, keyAllowed := true } := by
    rw [h.fetchHere_cons, hat, fetchFlowStart, hsave]
    rfl
  have hinside : InFlow { l₁.pushIndicator start with
      flow := l₁.flow + 1, keys := none :: l₁.keys, keyAllowed := true } true (m.behind [o]) rest
      (flow + 1) none (start :: kinds) := by
    obtain ⟨ka, outer, -, hlength, hoptional, hstands⟩ :=
      hl₁.pushIndicator (by cases hb <;> rfl) start true
    exact ⟨true, key₁ :: outer, id, by rw [List.length_cons, hlength], hoptional.none_cons,
      hstands.cursor, rfl, congrArg (· + 1) hstands.flow, congrArg (none :: ·) hstands.keys,
      hstands.columns, hstands.kinds⟩
  obtain ⟨l', hr, hl'⟩ := InFlow.of_fetch hfetch hinside (by cases hb <;> simp) hmove
    (by rw [h.cursor_eq]; simp)
  exact ⟨l', hr, m', _, hl'⟩

/-- **A closing bracket.** -/
theorem closing (hb : Brackets o e start stop) (h : Inside l (e :: rest) (flow + 1) kinds)
    (hrest : Leaves flow rest t) : Outcome l true (Inside · t flow (stop :: kinds)) := by
  obtain ⟨m, key, h⟩ := h
  obtain ⟨m', hmove⟩ := hrest (m.behind [e])
  obtain ⟨l₁, hdrop, hl₁⟩ := h.dropKey
  have hat : l.fetchAt e rest = l.fetchFlowEnd stop := by
    cases hb <;> simp [fetchAt, Cursor.atDocumentIndicator]
  have hfetch : l.fetchHere = .ok { l₁.pushIndicator stop with
      flow := l₁.flow - 1, keys := if l₁.flow = 0 then l₁.keys else l₁.keys.tail,
      keyAllowed := false } := by
    rw [h.fetchHere_cons, hat, fetchFlowEnd, hdrop]
    rfl
  obtain ⟨ka, outer, -, hlength, hoptional, hstands⟩ :=
    hl₁.pushIndicator (by cases hb <;> rfl) stop false
  obtain ⟨key', outer, rfl⟩ := List.exists_cons_of_length_eq_add_one hlength
  have houtside : InFlow { l₁.pushIndicator stop with
      flow := l₁.flow - 1, keys := if l₁.flow = 0 then l₁.keys else l₁.keys.tail,
      keyAllowed := false } false (m.behind [e]) rest flow key' (stop :: kinds) := by
    have hflow : l₁.flow = flow + 1 := hstands.flow
    have hkeys : l₁.keys = none :: key' :: outer := hstands.keys
    refine ⟨false, outer, id, by simpa using hlength, hoptional.tail, hstands.cursor, rfl,
      congrArg (· - 1) hflow, ?_, hstands.columns, hstands.kinds⟩
    show (if l₁.flow = 0 then l₁.keys else l₁.keys.tail) = _
    rw [hflow, hkeys]
    rfl
  obtain ⟨l', hr, hl'⟩ := InFlow.of_fetch hfetch houtside (by cases hb <;> simp) hmove
    (by rw [h.cursor_eq]; simp)
  exact ⟨l', hr, m', _, hl'⟩

/-- **A comma**, behind which the next entry begins. -/
theorem comma (h : Inside l (',' :: rest) flow kinds) (hrest : Leaves flow rest t) :
    Outcome l true (AtEntry · t flow (.flowEntry :: kinds)) := by
  obtain ⟨m, key, h⟩ := h
  obtain ⟨m', hmove⟩ := hrest (m.behind [','])
  obtain ⟨l₁, hdrop, hl₁⟩ := h.dropKey
  have hat : l.fetchAt ',' rest = l.fetchFlowEntry := by
    simp [fetchAt, Cursor.atDocumentIndicator]
  have hfetch : l.fetchHere = .ok { l₁.pushIndicator .flowEntry with keyAllowed := true } := by
    rw [h.fetchHere_cons, hat, fetchFlowEntry, hdrop]
    rfl
  obtain ⟨l', hr, hl'⟩ := InFlow.of_fetch hfetch (hl₁.pushIndicator rfl .flowEntry true) (by simp)
    hmove (by rw [h.cursor_eq]; simp)
  exact ⟨l', hr, m', _, hl'⟩

/-! ## Scalars -/

/-- **A word**, with the line break that may follow it. -/
theorem word {cs : List Char} (hw : Style.isWord cs) (h : Inside l (cs ++ rest) (flow + 1) kinds)
    (hrest : Plain.Follows rest t) :
    Outcome l true (Inside · t (flow + 1) (.scalar (String.ofList cs) .plain :: kinds)) := by
  obtain ⟨m, key, h⟩ := h
  have hfits := Style.fitsPlain_of_isWord hw
  have hword := Style.isWordChar_of_mem hw
  obtain ⟨c, cs, rfl⟩ : ∃ c cs', cs = c :: cs' := by
    cases cs with
    | nil => cases hw
    | cons c cs => exact ⟨c, cs, rfl⟩
  have hat : l.fetchAt c (cs ++ rest) = l.fetchPlain := by
    refine fetchAt_word hw ?_ ?_ <;> cases hrest <;> simp [breakLine]
  obtain ⟨l₁, key₁, hsave, hl₁, -⟩ := h.saveKey
  have hflow : (l₁.flow != 0) = true := by
    obtain ⟨_, _, -, -, -, hstands⟩ := hl₁
    rw [hstands.flow]
    rfl
  obtain ⟨m₁, broke, hscan⟩ := @Plain.scan_flow (l₁.indent + 1) m m (c :: cs) rest t (by simp)
    (Style.isRun_of_word hword true false) (Style.last_of_fitsPlain hfits) hrest
  have hfetch := (h.fetchHere_cons.trans hat).trans (fetchPlain_eq hsave hflow hl₁.cursor_eq hscan)
  have hstarts : startsToken t := by
    cases hrest with
    | comma => rfl
    | closing n hx => rcases hx with rfl | rfl <;> rfl
  have hlt : t.length < l.cursor.rest.length := by
    rw [h.cursor_eq]
    cases hrest
    all_goals
      simp only [breakLine, List.length_cons, List.length_append]
      omega
  obtain ⟨l', hr, hl'⟩ := InFlow.of_fetch hfetch (hl₁.push _ m m₁ broke) (by simp)
    (MovesTo.here hstarts) hlt
  exact ⟨l', hr, m₁, _, hl'⟩

end Inside

theorem length_lt_quoted (s : String) (rest : List Char) :
    rest.length < (Json.quoted s ++ rest).length := by
  rw [Json.quoted, List.cons_append, List.length_cons, List.length_append]
  omega

/-- **A string is fetched**, unless it is cut off.  It is a possible key where one may begin. -/
theorem InFlow.fetchString {l : Lexer} {begins : Bool} {m : Mark} {rest : List Char} {flow : Nat}
    {key : Option PossibleKey} {kinds : List Kind} (s : String)
    (h : InFlow l begins m (Json.quoted s ++ rest) flow key kinds) :
    if Quoted.isCut false s.toList then ∃ e, l.fetchHere = .error e
    else ∃ l₁ m₁ key₁, l.fetchHere = .ok l₁ ∧
      InFlow l₁ false m₁ rest flow key₁ (.scalar (Quoted.asRead s) .doubleQuoted :: kinds) ∧
      (begins → key₁ = some ⟨false, kinds.length, m⟩) ∧
      m₁.index = m.index + octets (Json.quoted s) ∧
      m₁.line = m.line + s.toList.countP Quoted.isRawBreak := by
  have htext : Json.quoted s ++ rest = '"' :: (s.toList.flatMap Json.escaped ++ '"' :: rest) := by
    simp [Json.quoted]
  rw [htext] at h
  obtain ⟨l₁, key₁, hsave, hl₁, hkey₁⟩ := h.saveKey
  have hquoted : l.fetchHere = l.fetchQuoted false :=
    h.fetchHere_cons.trans (InBlock.fetchAt_quoted false _)
  have hscan := Quoted.read_jsonString s m rest
  unfold Quoted.ScansTo at hscan
  split
  case isTrue hcut =>
    rw [if_pos hcut] at hscan
    obtain ⟨e, hscan⟩ := hscan
    refine ⟨e, ?_⟩
    have hread : Quoted.read false l₁.cursor = .error e := by
      rw [Quoted.read, hl₁.cursor_eq]
      exact hscan
    rw [hquoted, fetchQuoted, hsave]
    show (Quoted.read false l₁.cursor >>= _) = _
    rw [hread]
    rfl
  case isFalse hcut =>
    rw [if_neg hcut, String.ofList_toList] at hscan
    obtain ⟨m₁, hindex, hline, hscan⟩ := hscan
    have hfetch : l.fetchQuoted false = .ok _ := InBlock.fetchQuoted_eq hsave hl₁.cursor_eq hscan
    refine ⟨_, m₁, key₁, hquoted.trans hfetch, hl₁.push _ m m₁ false, hkey₁, ?_, hline⟩
    have hquote : '"'.utf8Size = 1 := rfl
    rw [hindex, Mark.right_index, Json.quoted, octets_cons, octets_append, octets_cons, octets_nil,
      hquote]
    omega

/-- **A string that is a value.** -/
theorem Inside.string {l : Lexer} {t rest : List Char} {flow : Nat} {kinds : List Kind} (s : String)
    (h : Inside l (Json.quoted s ++ rest) flow kinds) (hrest : Leaves flow rest t) :
    Outcome l (!Quoted.isCut false s.toList)
      (Inside · t flow (.scalar (Quoted.asRead s) .doubleQuoted :: kinds)) := by
  obtain ⟨m, key, h⟩ := h
  have hfetch := h.fetchString s
  cases hcut : Quoted.isCut false s.toList with
  | true =>
    rw [hcut, if_pos rfl] at hfetch
    obtain ⟨e, he⟩ := hfetch
    exact .fails he
  | false =>
    rw [hcut, if_neg Bool.false_ne_true] at hfetch
    obtain ⟨l₁, m₁, key₁, hfetch, hl₁, -⟩ := hfetch
    obtain ⟨m', hmove⟩ := hrest m₁
    obtain ⟨l', hr, hl'⟩ := InFlow.of_fetch hfetch hl₁ (by simp) hmove
      (by rw [h.cursor_eq]; exact length_lt_quoted s rest)
    exact ⟨l', hr, m', _, hl'⟩

/-! ## Keys -/

/-- A JSON string that is announced as a key: it stands in one line and does not take too many octets,
however few characters those may be. -/
def isKeyText (k : String) : Bool :=
  !k.toList.any Quoted.isRawBreak && decide (octets (Json.quoted k) ≤ longestKey)

/-- The tokens of a key without its colon. -/
def keyKinds (k : String) : List Kind :=
  if isKeyText k then [.key, .scalar (Quoted.asRead k) .doubleQuoted]
  else [.scalar (Quoted.asRead k) .doubleQuoted]

/-- **What decides whether a string is still possible as a key** behind it. -/
theorem isStale_eq {k : String} {m m₁ : Mark} (required : Bool) (position : Nat)
    (hindex : m₁.index = m.index + octets (Json.quoted k))
    (hline : m₁.line = m.line + k.toList.countP Quoted.isRawBreak) :
    isStale m₁ ⟨required, position, m⟩ = !isKeyText k := by
  have hbreak : decide (m.line < m₁.line) = k.toList.any Quoted.isRawBreak := by
    rw [hline, Bool.eq_iff_iff, decide_eq_true_iff, List.any_eq_true, Nat.lt_add_right_iff_pos,
      List.countP_pos_iff]
  have hlong : decide (m.index + longestKey < m₁.index) =
      !decide (octets (Json.quoted k) ≤ longestKey) := by
    rw [hindex, ← decide_not, decide_eq_decide]
    omega
  show (decide (m.line < m₁.line) || decide (m.index + longestKey < m₁.index)) = _
  rw [hbreak, hlong, isKeyText, Bool.not_and, Bool.not_not]

namespace InFlow

variable {l : Lexer} {begins : Bool} {m : Mark} {t : List Char} {flow : Nat} {kinds : List Kind}

theorem fetchHere_colon {key : Option PossibleKey}
    (h : InFlow l begins m (':' :: ' ' :: t) flow key kinds) : l.fetchHere = l.fetchValue := by
  rw [h.fetchHere_cons]
  simp [fetchAt, Cursor.atDocumentIndicator, atSpace, isBlank]

/-- **The colon of an announced key** puts its token in front of it. -/
theorem colon {scalar : Kind} {m₀ : Mark}
    (h : InFlow l begins m (':' :: ' ' :: t) (flow + 1) (some ⟨false, kinds.length, m₀⟩)
      (scalar :: kinds)) (ht : startsToken t) :
    Outcome l true (Inside · t (flow + 1) (.value :: scalar :: .key :: kinds)) := by
  obtain ⟨ka, outer, -, hlength, hoptional, hstands⟩ := id h
  have hnone : Stands { l with keys := none :: outer } ⟨m, ':' :: ' ' :: t, none⟩ ka (flow + 1)
      (none :: outer) [] ([scalar] ++ kinds) :=
    ⟨hstands.cursor, hstands.keyAllowed, hstands.flow, rfl, hstands.columns, hstands.kinds⟩
  have hinsert := hnone.insert .key m₀
  -- Inside of brackets a key begins no block mapping.
  have hroll : ({ l with keys := none :: outer }.insert kinds.length .key m₀).roll m₀.column
      kinds.length .blockMappingStart m₀ =
        { l with keys := none :: outer }.insert kinds.length .key m₀ :=
    if_neg fun hflow => absurd (hinsert.flow.symm.trans hflow.1) (by omega)
  have hfetch : l.fetchHere = .ok
      { ({ l with keys := none :: outer }.insert kinds.length .key m₀).pushIndicator .value with
        keyAllowed := false } := by
    rw [h.fetchHere_colon, fetchValue, hstands.keys]
    simp only [hroll]
  have hinside : InFlow _ false (m.behind [':']) (' ' :: t) (flow + 1) none
      (.value :: scalar :: .key :: kinds) :=
    ⟨false, outer, id, hlength, hoptional.tail.none_cons,
      hinsert.pushIndicator rfl .value false⟩
  obtain ⟨l', hr, hl'⟩ := of_fetch hfetch hinside (by simp) (MovesTo.space ht)
    (by rw [h.cursor_eq]; simp)
  exact ⟨l', hr, _, _, hl'⟩

/-- **The colon of what is not announced as a key** is only a colon. -/
theorem bareColon (h : InFlow l begins m (':' :: ' ' :: t) (flow + 1) none kinds)
    (ht : startsToken t) : Outcome l true (Inside · t (flow + 1) (.value :: kinds)) := by
  obtain ⟨ka, outer, -, hlength, hoptional, hstands⟩ := id h
  have hflow : l.flow = flow + 1 := hstands.flow
  have hrequire : l.requireKeyAllowed .valueNotAllowed = .ok () :=
    if_neg fun hf => absurd (hflow.symm.trans hf.1) (by omega)
  have hroll : l.rollHere .blockMappingStart = l :=
    if_neg fun hf => absurd (hflow.symm.trans hf.1) (by omega)
  have hfetch : l.fetchHere = .ok { l.pushIndicator .value with keyAllowed := l.flow == 0 } := by
    rw [h.fetchHere_colon, fetchValue, hstands.keys]
    simp only [hrequire, hroll]
    rfl
  have hinside : InFlow { l.pushIndicator .value with keyAllowed := l.flow == 0 } false
      (m.behind [':']) (' ' :: t) (flow + 1) none (.value :: kinds) :=
    ⟨_, outer, by simp, hlength, hoptional, hstands.pushIndicator rfl .value _⟩
  obtain ⟨l', hr, hl'⟩ := of_fetch hfetch hinside (by simp) (MovesTo.space ht)
    (by rw [h.cursor_eq]; simp)
  exact ⟨l', hr, _, _, hl'⟩

end InFlow

/-- **A key and its colon.** -/
theorem AtEntry.key {l : Lexer} {t : List Char} {flow : Nat} {kinds : List Kind} (k : String)
    (h : AtEntry l (Json.quoted k ++ ':' :: ' ' :: t) (flow + 1) kinds) (ht : startsToken t) :
    Outcome l (!Quoted.isCut false k.toList)
      (Inside · t (flow + 1) (.value :: ((keyKinds k).reverse ++ kinds))) := by
  obtain ⟨m, key, h⟩ := h
  have hfetch := h.fetchString k
  cases hcut : Quoted.isCut false k.toList with
  | true =>
    rw [hcut, if_pos rfl] at hfetch
    obtain ⟨e, he⟩ := hfetch
    exact .fails he
  | false =>
    rw [hcut, if_neg Bool.false_ne_true] at hfetch
    obtain ⟨l₁, m₁, key₁, hfetch, hl₁, hkey₁, hindex, hline⟩ := hfetch
    obtain rfl := hkey₁ rfl
    have hstale : isStale m₁ ⟨false, kinds.length, m⟩ = !isKeyText k :=
      isStale_eq false kinds.length hindex hline
    have hhere : MovesTo (flow + 1) m₁ (':' :: ' ' :: t) m₁ (':' :: ' ' :: t) := .here rfl
    have hscalar := InFlow.of_fetch hfetch hl₁ (by simp) hhere
      (by rw [h.cursor_eq]; exact length_lt_quoted k _)
    refine Outcome.bind hscalar fun l₂ hl₂ => ?_
    -- The colon stands right behind the string, so nothing but the string makes it stale.
    unfold keyKinds
    cases hk : isKeyText k with
    | true =>
      rw [hk] at hstale
      have hkept : keptKey m₁ (some ⟨false, kinds.length, m⟩) = some ⟨false, kinds.length, m⟩ := by
        simp [keptKey, Option.filter, hstale]
      rw [hkept, hkept] at hl₂
      exact hl₂.colon ht
    | false =>
      rw [hk] at hstale
      have hgone : keptKey m₁ (some ⟨false, kinds.length, m⟩) = none := by
        simp [keptKey, Option.filter, hstale]
      rw [hgone] at hl₂
      exact hl₂.bareColon ht

end ConfigVault.Yaml.Lexer
