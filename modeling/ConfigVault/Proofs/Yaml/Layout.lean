import ConfigVault.Proofs.Json.Basic
import ConfigVault.Proofs.Yaml.Resolve
import ConfigVault.Proofs.Yaml.Token.Block
import ConfigVault.Proofs.Yaml.Writer

/-! # The tokens of written text

The block layout of a value is cut into the tokens that the value is made of (`kindsOf`), whatever
is written before and behind it.  The proof follows the writer: scalars fill the rest of a line
(`scalarLine`), items and entries follow each other in a column (`items`, `entries`), and the
collections that end behind a part are those to the right of what comes next.  For a whole document
this gives the tokens of the text (`tokens_document`).
-/
namespace ConfigVault.Yaml

open Token (Kind)

/-! ## The tokens of a value -/

/-- The token of a string. -/
def stringKind (s : String) : Kind := .scalar s (styleOf s)

/-- The token of a word. -/
def wordKind (cs : List Char) : Kind := .scalar (String.ofList cs) .plain

mutual

/-- The tokens of a value.  A list under a short key is `flush` with it, and then nothing marks where
it begins and ends. -/
def kindsOf (flush : Bool) : Json → List Kind
  | .array (v :: vs) =>
    if flush then itemKinds (v :: vs)
    else .blockSequenceStart :: (itemKinds (v :: vs) ++ [.blockEnd])
  | .object (m :: ms) => .blockMappingStart :: (entryKinds (m :: ms) ++ [.blockEnd])
  | .array [] => [.flowSequenceStart, .flowSequenceEnd]
  | .object [] => [.flowMappingStart, .flowMappingEnd]
  | .string s => [stringKind s]
  | v => [wordKind ((Writer.inline? v).getD [])]

/-- The tokens of items. -/
def itemKinds : List Json → List Kind
  | [] => []
  | v :: vs => .blockEntry :: (kindsOf false v ++ itemKinds vs)

/-- The tokens of entries. -/
def entryKinds : List (String × Json) → List Kind
  | [] => []
  | (k, v) :: es =>
    .key :: stringKind k :: .value :: (kindsOf (Writer.isSimpleKey k) v ++ entryKinds es)

end

/-- A value that takes lines of its own. -/
def isBlock : Json → Bool
  | .array (_ :: _) => true
  | .object (_ :: _) => true
  | _ => false

/-- The text of a value that begins behind an indicator wherever it stands. -/
def scalarLine (width : Nat) : Json → List Char
  | .string s => Writer.stringLine width s
  | v => (Writer.inline? v).getD [] ++ ['\n']

namespace Lexer

open Writer (spaces)

section Scalars

variable {l : Lexer} {ka : Bool} {m : Mark} {t : List Char} {s : List Nat} {kinds : List Kind}
  {i n : Nat}

theorem append_break_append (w : List Char) (n : Nat) (t : List Char) :
    w ++ ['\n'] ++ (spaces n ++ t) = w ++ breakLine n t := by
  simp [breakLine]

/-- **A string is read back in its style**, up to the end of its last line. -/
theorem InBlock.stringLine {str : String}
    (h : InBlock l ka m (Writer.stringLine (i + 2) str ++ (spaces n ++ t)) (i :: s) kinds)
    (hi : i < m.column) (hn : n ≤ i) (ht : startsToken t) :
    Leads l true n t (i :: s) (stringKind str :: kinds) := by
  unfold stringKind
  have hlen (w : List Char) : t.length < (w ++ breakLine n t).length := by
    simp [breakLine]; omega
  rcases Style.styleOf_cases str with ⟨hs, hq, hf⟩ | ⟨hs, hf, hno⟩ | hs | ⟨hs, hf, hmem⟩ <;>
    rw [hs] <;> simp only [Writer.stringLine, hs] at h
  · -- Plain.
    rw [append_break_append] at h
    have := h.plain (Writer.ne_nil_of_needsQuotes hq) hf hi hn ht
    rwa [String.ofList_toList] at this
  · -- In single quotes, which may go over several lines.
    have hlines : Quoted.FitsLines str.toList := by
      simp only [Style.fitsSingle, Bool.and_eq_true, Bool.not_eq_true'] at hf
      exact ⟨fun c hc => Style.isPrintable_of_mem hf.1.1 hc,
        fun c hc he => hno (he ▸ hc), hf.1.2, hf.2⟩
    have hquote : (breakLine n t).head? ≠ some '\'' := by simp [breakLine]
    obtain ⟨m', hle, hread⟩ := Quoted.read_singleQuoted hlines (show 0 < i + 2 by omega) m hquote
    rw [Quoted.singleQuoted_eq, Quoted.endsWithBreak_eq] at h
    simp only [List.append_assoc, List.cons_append, List.nil_append] at h
    simpa using InBlock.quoted true h (by simpa [breakLine] using hread) hle hi ht
      (by simp; omega)
  · -- In double quotes.
    have hread := Quoted.read_doubleQuoted m str.toList (breakLine n t)
    simp only [Writer.doubleQuoted, List.append_assoc, List.cons_append, List.nil_append] at h
    simpa using InBlock.quoted false h (by simpa [breakLine] using hread) (by simp) hi
      ht (by simp; omega)
  · -- As a literal block, which ends with its last line.
    have hblock : BlockScalar.FitsBlock str.toList := by
      simp only [Style.fitsLiteral, Bool.and_eq_true] at hf
      exact ⟨by simpa using hf.1.1.2, fun c hc => Style.isPrintable_of_mem hf.1.1.1 hc⟩
    have := h.literal hblock hn ht
    rwa [String.ofList_toList] at this

/-- **A value that takes one line, or is a string, is read back.** -/
theorem InBlock.scalarLine {v : Json} (hv : isBlock v = false) (flush : Bool)
    (h : InBlock l ka m (Yaml.scalarLine (i + 2) v ++ (spaces n ++ t)) (i :: s) kinds)
    (hi : i < m.column) (hn : n ≤ i) (ht : startsToken t) :
    Leads l true n t (i :: s) ((kindsOf flush v).reverse ++ kinds) := by
  have hword (cs : List Char) (hw : Style.isWord cs)
      (h : InBlock l ka m (cs ++ ['\n'] ++ (spaces n ++ t)) (i :: s) kinds) :
      Leads l true n t (i :: s) (wordKind cs :: kinds) := by
    rw [append_break_append] at h
    exact h.plain (by rintro rfl; cases hw) (Style.fitsPlain_of_isWord hw) hi hn ht
  cases v with
  | string str => exact h.stringLine hi hn ht
  | null => exact hword _ rfl h
  | bool b => exact hword _ (by cases b <;> rfl) h
  | int j => exact hword _ (isWord_int j) h
  | float x => exact hword _ (isWord_float false x) h
  | array vs =>
    cases vs with
    | nil => exact InBlock.brackets .sequence h hi ht
    | cons => cases hv
  | object ms =>
    cases ms with
    | nil => exact InBlock.brackets .mapping h hi ht
    | cons => cases hv

theorem scalarLine_ne_nil (width : Nat) (v : Json) : Yaml.scalarLine width v ≠ [] := by
  unfold Yaml.scalarLine
  split
  · exact Writer.stringLine_ne_nil width _
  · simp

theorem startsToken_scalarLine {v : Json} (hv : isBlock v = false) (width : Nat) :
    startsToken (Yaml.scalarLine width v) := by
  have hword (cs : List Char) (hw : Style.isWord cs) : startsToken (cs ++ ['\n']) :=
    Writer.startsToken_append (by rintro rfl; cases hw)
      (Writer.startsToken_plain (Style.fitsPlain_of_isWord hw)) _
  cases v with
  | string str => exact Writer.startsToken_stringLine width str
  | null => rfl
  | bool b => cases b <;> rfl
  | int j => exact hword _ (isWord_int j)
  | float x => exact hword _ (isWord_float false x)
  | array vs =>
    cases vs with
    | nil => rfl
    | cons => cases hv
  | object ms =>
    cases ms with
    | nil => rfl
    | cons => cases hv

/-- A key in plain style ends at the colon, since there is space behind it. -/
theorem InBlock.readsPlainKey {k : String} {rest : List Char}
    (h : InBlock l true m (k.toList ++ ':' :: rest) s kinds) (hne : k.toList ≠ [])
    (hf : Style.fitsPlain k.toList) (hs : s.head?.all (· ≤ m.column)) (hrest : atSpace rest) :
    InBlock.ReadsKey l m k.toList rest (.scalar k .plain) := by
  intro l' hsave hindent hflow hcursor
  have hind : l.indent ≤ m.column := by
    cases s with
    | nil => rw [h.indent_nil]; omega
    | cons i s => rw [h.indent_cons]; simp at hs; omega
  have hscan : Plain.scan false (l.indent + 1) m none (k.toList ++ ':' :: rest) m none [] = _ :=
    Plain.scan_key hne (Style.isRun_of_fitsPlain hf) (Style.last_of_fitsPlain hf) (by omega) hrest
  have hat : l.fetchHere = l.fetchPlain :=
    h.fetchHere_plain hne hf (not_atDocumentIndicator (Style.fitsPlain_iff.mp hf).2.2.2.2 hne
      (':' :: rest) (by simp) (by simp) m.column)
  have houtside : (l'.flow != 0) = false := by rw [hflow]; rfl
  rw [hat, fetchPlain_eq hsave houtside hcursor (hindent ▸ hscan), String.ofList_toList]

/-- **A short key is read back**, wherever the mapping stands. -/
theorem InBlock.readsKey {k : String} {rest : List Char}
    (h : InBlock l true m (Writer.keyText k ++ ':' :: rest) s kinds) (hk : Writer.isSimpleKey k)
    (hs : s.head?.all (· ≤ m.column)) (hrest : atSpace rest) :
    InBlock.ReadsKey l m (Writer.keyText k) rest (stringKind k) := by
  obtain ⟨-, hbreak⟩ := (Writer.isSimpleKey_iff k).mp hk
  have hno : '\n' ∉ k.toList := fun hn => by cases hbreak '\n' hn
  unfold stringKind
  unfold Writer.keyText at h ⊢
  rcases Style.styleOf_cases k with ⟨hstyle, hq, hf⟩ | ⟨hstyle, hf, -⟩ | hstyle | ⟨-, -, hn⟩
  · rw [hstyle] at h ⊢
    exact h.readsPlainKey (Writer.ne_nil_of_needsQuotes hq) hf hs hrest
  · intro l' hsave hindent hflow hcursor
    rw [hstyle] at h hcursor ⊢
    simp only [Writer.singleQuoted_of_no_break hbreak, List.cons_append, List.append_assoc,
      List.nil_append] at h hcursor ⊢
    have hcolon : (':' :: rest).head? ≠ some '\'' := by simp
    have hscan := Quoted.read_singleLine hbreak m hcolon
    rw [h.fetchHere_cons]
    refine ((InBlock.fetchAt_quoted true _).trans
      (InBlock.fetchQuoted_eq hsave hcursor hscan)).trans ?_
    simp
  · intro l' hsave hindent hflow hcursor
    rw [hstyle] at h hcursor ⊢
    simp only [Writer.doubleQuoted, List.cons_append, List.append_assoc, List.nil_append]
      at h hcursor ⊢
    have hscan := Quoted.read_doubleQuoted m k.toList (':' :: rest)
    rw [h.fetchHere_cons]
    refine ((InBlock.fetchAt_quoted false _).trans
      (InBlock.fetchQuoted_eq hsave hcursor hscan)).trans ?_
    simp [Writer.doubleQuoted]
  · -- No key of one line is a literal block.
    exact absurd hn hno

end Scalars

/-! ## Collections -/

/-- The text of a value that begins behind an indicator, without the space in front of it. -/
def behindText (width : Nat) : Json → List Char
  | .array (v :: vs) => Writer.items (width + 2) true (v :: vs)
  | .object (m :: ms) => Writer.entries (width + 2) true (m :: ms)
  | v => scalarLine (width + 2) v

theorem behindIndicator_eq (width : Nat) (v : Json) :
    Writer.behindIndicator width v = ' ' :: behindText width v := by
  cases v with
  | array vs => cases vs <;> rfl
  | object ms => cases ms <;> rfl
  | _ => rfl

/-- The text of a value under a short key, without what is in front of it. -/
def underText (width : Nat) : Json → List Char
  | .array (v :: vs) => Writer.items width true (v :: vs)
  | .object (m :: ms) => Writer.entries (width + 2) true (m :: ms)
  | v => scalarLine (width + 2) v

/-- The column of a collection under a short key. -/
def underColumn (width : Nat) : Json → Nat
  | .object _ => width + 2
  | _ => width

theorem items_fresh (width : Nat) (v : Json) (vs : List Json) :
    Writer.items width false (v :: vs) = spaces width ++ Writer.items width true (v :: vs) := by
  simp [Writer.items]

theorem entries_fresh (width : Nat) (e : String × Json) (es : List (String × Json)) :
    Writer.entries width false (e :: es) = spaces width ++ Writer.entries width true (e :: es) := by
  obtain ⟨k, v⟩ := e
  simp [Writer.entries]

/-- An entry, when its mapping is indented already. -/
theorem entries_cons (width : Nat) (k : String) (v : Json) (es : List (String × Json)) :
    Writer.entries width true ((k, v) :: es) =
      if Writer.isSimpleKey k then
        Writer.keyText k ++ ':' :: (Writer.behindKey width v ++ Writer.entries width false es)
      else
        '?' :: ' ' :: (Writer.stringLine (width + 2) k ++ (spaces width ++
          ':' :: ' ' :: (behindText width v ++ Writer.entries width false es))) := by
  simp only [Writer.entries, if_true, List.nil_append, behindIndicator_eq]
  split <;> simp

/-- A value under a short key begins behind a space, or a collection in the next line. -/
theorem behindKey_eq (width : Nat) (v : Json) :
    Writer.behindKey width v =
      if isBlock v then breakLine (underColumn width v) (underText width v)
      else ' ' :: underText width v := by
  cases v with
  | array vs =>
    cases vs with
    | nil => rfl
    | cons v vs =>
      rw [Writer.behindKey, items_fresh]
      rfl
  | object ms =>
    cases ms with
    | nil => rfl
    | cons e es =>
      rw [Writer.behindKey, entries_fresh]
      rfl
  | _ => rfl

theorem startsToken_items (width : Nat) (v : Json) (vs : List Json) (t : List Char) :
    startsToken (Writer.items width true (v :: vs) ++ t) := by
  simp [Writer.items, startsToken, isBlank, isBreak]

theorem startsToken_entries (width : Nat) (e : String × Json) (es : List (String × Json))
    (t : List Char) : startsToken (Writer.entries width true (e :: es) ++ t) := by
  obtain ⟨k, v⟩ := e
  rw [entries_cons]
  split
  · rw [List.append_assoc]
    exact Writer.startsToken_append (Writer.keyText_ne_nil k) (Writer.startsToken_keyText k) _
  · rfl

theorem startsToken_behindText (width : Nat) (v : Json) (t : List Char) :
    startsToken (behindText width v ++ t) := by
  have hscalar (hv : isBlock v = false) : startsToken (scalarLine (width + 2) v ++ t) :=
    Writer.startsToken_append (scalarLine_ne_nil _ v) (startsToken_scalarLine hv _) t
  cases v with
  | array vs =>
    cases vs with
    | nil => exact hscalar rfl
    | cons => exact startsToken_items ..
  | object ms =>
    cases ms with
    | nil => exact hscalar rfl
    | cons => exact startsToken_entries ..
  | _ => exact hscalar rfl

theorem startsToken_underText (width : Nat) (v : Json) (t : List Char) :
    startsToken (underText width v ++ t) := by
  have hbehind := startsToken_behindText width v t
  cases v with
  | array vs =>
    cases vs with
    | nil => exact hbehind
    | cons => exact startsToken_items ..
  | object ms =>
    cases ms with
    | nil => exact hbehind
    | cons => exact startsToken_entries ..
  | _ => exact hbehind

/-- **A value behind an indicator is cut into its tokens**, in a collection at column `i`. -/
def LexesBehind (v : Json) : Prop :=
  ∀ (l : Lexer) (m : Mark) (t : List Char) (i n : Nat) (s : List Nat) (kinds : List Kind),
    InBlock l true m (behindText i v ++ (spaces n ++ t)) (i :: s) kinds → m.column = i + 2 →
      n ≤ i → startsToken t → Leads l true n t (i :: s) ((kindsOf false v).reverse ++ kinds)

/-- **A value under a short key is cut into its tokens**, in a mapping at column `i`. -/
def LexesUnder (v : Json) : Prop :=
  ∀ (l : Lexer) (m : Mark) (t : List Char) (i n : Nat) (s : List Nat) (kinds : List Kind),
    InBlock l (isBlock v) m (underText i v ++ (spaces n ++ t)) (i :: s) kinds →
      (if isBlock v then m.column = underColumn i v else i < m.column) →
        n ≤ i → startsToken t → Leads l true n t (i :: s) ((kindsOf true v).reverse ++ kinds)

section Collections

variable {l : Lexer} {m : Mark} {t : List Char} {i n : Nat} {s s' : List Nat}
  {kinds kinds' : List Kind}

theorem Leads.close_lt {ka : Bool} (h : Leads l ka n t (i :: s) kinds) (hn : n < i) :
    Leads l ka n t s (.blockEnd :: kinds) := by
  unfold Leads at h ⊢
  rwa [close_of_lt hn] at h

/-- **Items are cut into their tokens**, in a sequence that begins with the first of them or is open
already. -/
theorem InBlock.items {vs : List Json} (hne : vs ≠ []) (hvs : ∀ v ∈ vs, LexesBehind v)
    (h : InBlock l true m (Writer.items i true vs ++ (spaces n ++ t)) s kinds)
    (hm : m.column = i) (hbegin : beginAt i .blockSequenceStart s kinds = (i :: s', kinds'))
    (hn : n ≤ i) (ht : startsToken t) :
    Leads l true n t (i :: s') ((itemKinds vs).reverse ++ kinds') := by
  induction vs generalizing l m s kinds kinds' with
  | nil => exact absurd rfl hne
  | cons v vs ih =>
    -- Behind the first item the next one begins, or what comes behind all of them.
    obtain ⟨n', t', htext, hn', ht', hrest⟩ : ∃ n' t',
        Writer.items i false vs ++ (spaces n ++ t) = spaces n' ++ t' ∧ n' ≤ i ∧ startsToken t' ∧
          ∀ l₁ kinds₁, Leads l₁ true n' t' (i :: s') kinds₁ →
            Leads l₁ true n t (i :: s') ((itemKinds vs).reverse ++ kinds₁) := by
      cases vs with
      | nil => exact ⟨n, t, rfl, hn, ht, fun _ _ h => h⟩
      | cons w vs =>
        refine ⟨i, _, by rw [items_fresh, List.append_assoc], Nat.le_refl i,
          startsToken_items .., fun l₁ kinds₁ h₁ => h₁.bind (Nat.le_refl i) fun l₂ m₂ hm₂ h₂ => ?_⟩
        exact ih (by simp) (fun u hu => hvs u (by simp [hu])) h₂ hm₂ (beginAt_self ..)
    rw [Writer.items, behindIndicator_eq] at h
    simp only [if_true, List.nil_append, List.cons_append, List.append_assoc, htext] at h
    have hdash := h.dash (startsToken_behindText i v _)
    rw [hm, hbegin] at hdash
    have hitem := hdash.bind (Nat.le_add_right i 2) fun l₁ m₁ hm₁ h₁ =>
      hvs v (by simp) l₁ m₁ t' i n' s' _ h₁ hm₁ hn' ht'
    have := hrest _ _ hitem
    simpa [itemKinds] using this

theorem head_of_beginAt {kind : Kind} (h : beginAt i kind s kinds = (i :: s', kinds')) :
    s.head?.all (· ≤ i) := by
  unfold beginAt at h
  split at h
  case isTrue hlt =>
    cases s with
    | nil => rfl
    | cons j s =>
      have : j < i := by simpa using hlt
      exact decide_eq_true (Nat.le_of_lt this)
  case isFalse =>
    rw [(Prod.mk.inj h).1]
    simp

/-- **A short key, its colon and the value under it.** -/
theorem InBlock.simpleEntry {k : String} {v : Json} (hk : Writer.isSimpleKey k) (hv : LexesUnder v)
    (h : InBlock l true m (Writer.keyText k ++ ':' :: (Writer.behindKey i v ++ (spaces n ++ t))) s
      kinds)
    (hm : m.column = i) (hbegin : beginAt i .blockMappingStart s kinds = (i :: s', kinds'))
    (hn : n ≤ i) (ht : startsToken t) :
    Leads l true n t (i :: s')
      ((kindsOf true v).reverse ++ .value :: stringKind k :: .key :: kinds') := by
  have hhead := hm ▸ head_of_beginAt hbegin
  -- A collection begins in the next line, and everything else behind the colon.
  obtain ⟨m', hm', hgap⟩ : ∃ m' : Mark,
      (if isBlock v then m'.column = underColumn i v else i < m'.column) ∧
      Behind (m.behind (Writer.keyText k ++ [':'])) (underText i v ++ (spaces n ++ t))
        (Writer.behindKey i v ++ (spaces n ++ t)) m' (isBlock v) := by
    rw [behindKey_eq]
    cases isBlock v with
    | true =>
      refine ⟨(m.behind (Writer.keyText k ++ [':'])).nextLine (underColumn i v), by simp, ?_⟩
      rw [if_pos rfl, breakLine, List.cons_append, List.append_assoc]
      exact .line _
    | false => exact ⟨_, by simp; omega, .space⟩
  have hkey := h.simpleKey (h.readsKey hk hhead hgap.atSpace) (by simp [stringKind])
    (Writer.octets_keyText hk) (Writer.keyText_ne_nil k) hhead hgap (startsToken_underText ..)
  rw [hm, hbegin] at hkey
  have hcolumn : i ≤ m'.column := by
    revert hm'
    cases v <;> cases isBlock _ <;> simp [underColumn] <;> omega
  exact hkey.bind hcolumn fun l₁ m₁ hm₁ h₁ =>
    hv l₁ m₁ t i n s' _ h₁ (by rw [hm₁]; exact hm') hn ht

/-- **A long key behind its question mark**, and the value behind the colon of its own line. -/
theorem InBlock.longEntry {k : String} {v : Json} (hv : LexesBehind v)
    (h : InBlock l true m ('?' :: ' ' :: (Writer.stringLine (i + 2) k ++ (spaces i ++
      ':' :: ' ' :: (behindText i v ++ (spaces n ++ t))))) s kinds)
    (hm : m.column = i) (hbegin : beginAt i .blockMappingStart s kinds = (i :: s', kinds'))
    (hn : n ≤ i) (ht : startsToken t) :
    Leads l true n t (i :: s')
      ((kindsOf false v).reverse ++ .value :: stringKind k :: .key :: kinds') := by
  have hquestion := h.question
    (Writer.startsToken_append (Writer.stringLine_ne_nil (i + 2) k)
      (Writer.startsToken_stringLine ..) _)
  rw [hm, hbegin] at hquestion
  have hkey := hquestion.bind (Nat.le_add_right i 2) fun l₁ m₁ hm₁ h₁ =>
    h₁.stringLine (by omega) (Nat.le_refl i) rfl
  have hcolon := hkey.bind (Nat.le_refl i) fun l₁ m₁ hm₁ h₁ => by
    have := h₁.colon hm₁ (startsToken_behindText ..)
    rwa [hm₁] at this
  exact hcolon.bind (Nat.le_add_right i 2) fun l₁ m₁ hm₁ h₁ => hv l₁ m₁ t i n s' _ h₁ hm₁ hn ht

/-- **Entries are cut into their tokens**, in a mapping that begins with the first of them or is open
already. -/
theorem InBlock.entries {es : List (String × Json)} (hne : es ≠ [])
    (hes : ∀ e ∈ es, LexesBehind e.2 ∧ LexesUnder e.2)
    (h : InBlock l true m (Writer.entries i true es ++ (spaces n ++ t)) s kinds)
    (hm : m.column = i) (hbegin : beginAt i .blockMappingStart s kinds = (i :: s', kinds'))
    (hn : n ≤ i) (ht : startsToken t) :
    Leads l true n t (i :: s') ((entryKinds es).reverse ++ kinds') := by
  induction es generalizing l m s kinds kinds' with
  | nil => exact absurd rfl hne
  | cons e es ih =>
    obtain ⟨k, v⟩ := e
    obtain ⟨hbehind, hunder⟩ : LexesBehind v ∧ LexesUnder v := hes (k, v) (by simp)
    -- Behind the first entry the next one begins, or what comes behind all of them.
    obtain ⟨n', t', htext, hn', ht', hrest⟩ : ∃ n' t',
        Writer.entries i false es ++ (spaces n ++ t) = spaces n' ++ t' ∧ n' ≤ i ∧ startsToken t' ∧
          ∀ l₁ kinds₁, Leads l₁ true n' t' (i :: s') kinds₁ →
            Leads l₁ true n t (i :: s') ((entryKinds es).reverse ++ kinds₁) := by
      cases es with
      | nil => exact ⟨n, t, rfl, hn, ht, fun _ _ h => h⟩
      | cons e es =>
        refine ⟨i, _, by rw [entries_fresh, List.append_assoc], Nat.le_refl i,
          startsToken_entries .., fun l₁ kinds₁ h₁ => h₁.bind (Nat.le_refl i) fun l₂ m₂ hm₂ h₂ => ?_⟩
        exact ih (by simp) (fun u hu => hes u (by simp [hu])) h₂ hm₂ (beginAt_self ..)
    rw [entries_cons] at h
    cases hk : Writer.isSimpleKey k with
    | true =>
      rw [if_pos hk, List.append_assoc, List.cons_append, List.append_assoc, htext] at h
      have := hrest _ _ (h.simpleEntry hk hunder hm hbegin hn' ht')
      simpa [entryKinds, hk] using this
    | false =>
      rw [if_neg (by simp [hk])] at h
      simp only [List.cons_append, List.append_assoc, htext] at h
      have := hrest _ _ (h.longEntry hbehind hm hbegin hn' ht')
      simpa [entryKinds, hk] using this

end Collections

theorem lexes_scalar {v : Json} (hv : isBlock v = false)
    (hbehind : ∀ i, behindText i v = Yaml.scalarLine (i + 2) v)
    (hunder : ∀ i, underText i v = Yaml.scalarLine (i + 2) v) : LexesBehind v ∧ LexesUnder v := by
  refine ⟨fun l m t i n s kinds h hm hn ht => ?_, fun l m t i n s kinds h hm hn ht => ?_⟩
  · rw [hbehind] at h
    exact h.scalarLine hv false (by omega) hn ht
  · rw [hunder] at h
    rw [hv, if_neg (by simp)] at hm
    exact h.scalarLine hv true hm hn ht

/-- **Every value is cut into its tokens**, wherever it stands. -/
theorem lexes (v : Json) : LexesBehind v ∧ LexesUnder v := by
  induction v using Json.induction with
  | null => exact lexes_scalar rfl (fun _ => rfl) fun _ => rfl
  | bool b => exact lexes_scalar rfl (fun _ => rfl) fun _ => rfl
  | int i => exact lexes_scalar rfl (fun _ => rfl) fun _ => rfl
  | float x => exact lexes_scalar rfl (fun _ => rfl) fun _ => rfl
  | string str => exact lexes_scalar rfl (fun _ => rfl) fun _ => rfl
  | array vs ih =>
    cases vs with
    | nil => exact lexes_scalar rfl (fun _ => rfl) fun _ => rfl
    | cons v vs =>
      -- An item stands behind its dash, whatever the sequence stands behind.
      have hitems : ∀ u ∈ v :: vs, LexesBehind u := fun u hu => (ih u hu).1
      refine ⟨fun l m t i n s kinds h hm hn ht => ?_, fun l m t i n s kinds h hm hn ht => ?_⟩
      · have := (h.items (by simp) hitems hm (beginAt_of_lt (by omega) ..) (by omega) ht).close_lt
          (by omega)
        simpa [kindsOf] using this
      · -- A flush sequence stands in the column of its mapping and is not ended by it.
        have := h.items (by simp) hitems hm (beginAt_self ..) hn ht
        simpa [kindsOf] using this
  | object ms ih =>
    cases ms with
    | nil => exact lexes_scalar rfl (fun _ => rfl) fun _ => rfl
    | cons e es =>
      refine ⟨fun l m t i n s kinds h hm hn ht => ?_, fun l m t i n s kinds h hm hn ht => ?_⟩
      · have := (h.entries (by simp) ih hm (beginAt_of_lt (by omega) ..) (by omega) ht).close_lt
          (by omega)
        simpa [kindsOf] using this
      · have := (h.entries (by simp) ih hm (beginAt_of_lt (by omega) ..) (by omega) ht).close_lt
          (by omega)
        simpa [kindsOf] using this

/-! ## Documents -/

/-- The lexer of a text begins in front of it, behind the token that begins the stream. -/
theorem ofSource_eq {t : List Char} (ht : startsToken t) :
    ∃ l₀ l, TokenStream.ofSource ⟨t, none⟩ = run (t.length + 1) l₀ ∧ l₀.cursor.fault = none ∧
      l₀.tokens ≠ [] ∧ l₀.advance = .ok l ∧ InBlock l true Mark.start t [] [.streamStart] := by
  have hfetch : (ofSource ⟨t, none⟩).fetch >>= dropStale =
      .ok ⟨⟨Mark.start, t, none⟩, [⟨.streamStart, Mark.start⟩], 0, -1, [], true, [none]⟩ := rfl
  have hstands : Stands ⟨⟨Mark.start, t, none⟩, [⟨.streamStart, Mark.start⟩], 0, -1, [], true, [none]⟩
      ⟨Mark.start, t, none⟩ true 0 [none] [] [.streamStart] := ⟨rfl, rfl, rfl, rfl, rfl, rfl⟩
  obtain ⟨l, hadvance, hl⟩ := hstands.advance
    (toNextToken_spaces false ht t.length true Mark.start 0) (noneMissing_none _)
  refine ⟨_, l, ?_, rfl, by simp, hadvance, hl⟩
  show run (t.length + 2) (ofSource ⟨t, none⟩) = _
  rw [run, hfetch]
  rfl

end Lexer

/-- **A written mapping is cut into its tokens**, and nothing is wrong with its text. -/
theorem tokens_document {ms : List (String × Json)} (hne : ms ≠ []) :
    ∃ ts, TokenStream.ofSource ⟨Writer.document (.object ms), none⟩ = ⟨ts, none⟩ ∧
      ts.map Token.kind = .streamStart :: (kindsOf false (.object ms) ++ [.streamEnd]) := by
  obtain ⟨e, es, rfl⟩ := List.exists_cons_of_ne_nil hne
  have hstart := Lexer.startsToken_entries 0 e es []
  rw [List.append_nil] at hstart
  obtain ⟨l₀, l, hrun, hfault, htokens, hadvance, hl⟩ := Lexer.ofSource_eq hstart
  have hentries : Lexer.Leads l true 0 [] [0] ((entryKinds (e :: es)).reverse ++ _) :=
    Lexer.InBlock.entries (n := 0) (by simp) (fun e _ => Lexer.lexes e.2) (by simpa using hl) rfl rfl
      (Nat.le_refl 0) rfl
  obtain ⟨l', m, hreaches, -, hl'⟩ := hentries
  rw [Lexer.close_of_le (Nat.le_refl 0)] at hl'
  obtain ⟨l'', hend, hover', hkinds⟩ := hl'.fetchEnd fun k hk => by cases hk
  refine ⟨l''.tokens.reverse, ?_, ?_⟩
  · show TokenStream.ofSource ⟨Writer.entries 0 true (e :: es), none⟩ = _
    rw [hrun]
    exact Lexer.run_of_reaches hfault htokens hadvance hreaches hend hover'
      (by rw [hl.cursor]; exact Nat.lt_succ_self _)
  · rw [List.map_reverse, hkinds]
    simp [kindsOf]

end ConfigVault.Yaml
