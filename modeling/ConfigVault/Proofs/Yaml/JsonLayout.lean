import ConfigVault.Proofs.Json.Texts
import ConfigVault.Proofs.Yaml.Layout
import ConfigVault.Proofs.Yaml.Resolve
import ConfigVault.Proofs.Yaml.Token.Flow
import ConfigVault.Proofs.Yaml.Writer

/-! # JSON text and its tokens

JSON layout cut into tokens by the YAML lexer: brackets, commas and scalars come out as they went in,
but strings fold and keys may not be announced (`flowKinds`).  The lexer gets through a value if and
only if none of its strings is cut off (`lexesFlow`), and then through the whole document
(`tokens_pretty`).
-/
namespace ConfigVault.Yaml

open Token (Kind)
open Writer (spaces)

mutual

/-- The kinds of tokens of a value in JSON layout. -/
def flowKinds : Json → List Kind
  | .null => [.scalar "null" .plain]
  | .bool b => [.scalar (if b then "true" else "false") .plain]
  | .int i => [.scalar (toString i) .plain]
  | .float x => [.scalar (String.ofList x.jsonText) .plain]
  | .string s => [.scalar (Quoted.asRead s) .doubleQuoted]
  | .array [] => [.flowSequenceStart, .flowSequenceEnd]
  | .array (v :: vs) =>
    .flowSequenceStart :: (flowKinds v ++ moreItemKinds vs ++ [.flowSequenceEnd])
  | .object [] => [.flowMappingStart, .flowMappingEnd]
  | .object ((k, v) :: ms) =>
    .flowMappingStart :: (Lexer.keyKinds k ++ .value :: flowKinds v ++ moreMemberKinds ms ++
      [.flowMappingEnd])

/-- The kinds of tokens of items behind others. -/
def moreItemKinds : List Json → List Kind
  | [] => []
  | v :: vs => .flowEntry :: (flowKinds v ++ moreItemKinds vs)

/-- The kinds of tokens of members behind others. -/
def moreMemberKinds : List (String × Json) → List Kind
  | [] => []
  | (k, v) :: ms =>
    .flowEntry :: (Lexer.keyKinds k ++ .value :: flowKinds v ++ moreMemberKinds ms)

end

/-- No line of a string begins like a document. -/
def isUncut (s : String) : Bool := !Quoted.isCut false s.toList

namespace Lexer

/-! ## Texts -/

/-- The text of items behind others. -/
def moreItems (depth : Nat) : List Json → List Char
  | [] => []
  | v :: vs => ',' :: Json.prettyItems depth (v :: vs)

/-- The text of members behind others. -/
def moreMembers (depth : Nat) : List (String × Json) → List Char
  | [] => []
  | m :: ms => ',' :: Json.prettyMembers depth (m :: ms)

theorem prettyItems_cons (depth : Nat) (v : Json) (vs : List Json) (rest : List Char) :
    Json.prettyItems depth (v :: vs) ++ rest =
      breakLine (2 * depth) (Json.pretty depth v ++ (moreItems depth vs ++ rest)) := by
  cases vs with
  | nil => simp [Json.prettyItems, Json.newLine, moreItems, breakLine, spaces]
  | cons u vs => simp [Json.prettyItems, Json.newLine, moreItems, breakLine, spaces]

theorem prettyMembers_cons (depth : Nat) (k : String) (v : Json) (ms : List (String × Json))
    (rest : List Char) :
    Json.prettyMembers depth ((k, v) :: ms) ++ rest =
      breakLine (2 * depth) (Json.quoted k ++ ':' :: ' ' ::
        (Json.pretty depth v ++ (moreMembers depth ms ++ rest))) := by
  cases ms with
  | nil => simp [Json.prettyMembers, Json.newLine, moreMembers, breakLine, spaces]
  | cons m ms => simp [Json.prettyMembers, Json.newLine, moreMembers, breakLine, spaces]

theorem newLine_append (depth : Nat) (t : List Char) :
    Json.newLine depth ++ t = breakLine (2 * depth) t := rfl

theorem startsToken_word {cs : List Char} (h : Style.isWord cs) (rest : List Char) :
    startsToken (cs ++ rest) := by
  have hfits := Style.fitsPlain_of_isWord h
  have hne : cs ≠ [] := by rintro rfl; cases h
  exact Writer.startsToken_append hne (Writer.startsToken_plain hfits) rest

/-- The word that a scalar is in JSON text. -/
def word? : Json → Option (List Char)
  | .null => some "null".toList
  | .bool b => some (if b then "true" else "false").toList
  | .int i => some (toString i).toList
  | .float x => some x.jsonText
  | _ => none

theorem isWord_word? {v : Json} {cs : List Char} (h : word? v = some cs) : Style.isWord cs := by
  cases v with
  | null => cases h; rfl
  | bool b => cases h; cases b <;> rfl
  | int i => cases h; exact isWord_int i
  | float x => cases h; exact isWord_float true x
  | _ => cases h

/-- Every value begins with a token. -/
theorem startsToken_pretty (depth : Nat) (v : Json) (rest : List Char) :
    startsToken (Json.pretty depth v ++ rest) := by
  cases v with
  | string s => rfl
  | array vs => cases vs <;> rfl
  | object ms => cases ms <;> rfl
  | null => exact startsToken_word (isWord_word? (v := .null) rfl) rest
  | bool b => exact startsToken_word (isWord_word? (v := .bool b) rfl) rest
  | int i => exact startsToken_word (isWord_word? (v := .int i) rfl) rest
  | float x => exact startsToken_word (isWord_word? (v := .float x) rfl) rest

/-! ## Values -/

open Plain (Follows)
open InBlock (Brackets)

/-- **A value inside of brackets** is cut into its tokens, unless one of its strings is cut off. -/
def LexesFlow (v : Json) : Prop :=
  ∀ (l : Lexer) (depth flow : Nat) (kinds : List Kind) (rest t : List Char),
    Inside l (Json.pretty depth v ++ rest) (flow + 1) kinds → Follows rest t →
      Outcome l (v.all isUncut isUncut)
        (Inside · t (flow + 1) ((flowKinds v).reverse ++ kinds))

theorem lexesFlow_word {v : Json} {cs : List Char} (hw : word? v = some cs)
    (htext : ∀ depth, Json.pretty depth v = cs) (hall : v.all isUncut isUncut)
    (hkinds : flowKinds v = [.scalar (String.ofList cs) .plain]) : LexesFlow v := by
  intro l depth flow kinds rest t h hrest
  rw [htext] at h
  rw [hall, hkinds]
  exact h.word (isWord_word? hw) hrest

theorem lexesFlow_string (s : String) : LexesFlow (.string s) := by
  intro l depth flow kinds rest t h hrest
  exact h.string s (.of_follows hrest)

section Collections

variable {l : Lexer} {depth flow n : Nat} {kinds : List Kind} {rest : List Char} {x : Char}

/-- **The items of a sequence**, up to its closing bracket. -/
theorem Inside.items {v : Json} {vs : List Json} (hvs : ∀ u ∈ v :: vs, LexesFlow u)
    (hx : x = ']' ∨ x = '\x7d')
    (h : Inside l (Json.pretty depth v ++ (moreItems depth vs ++ breakLine n (x :: rest)))
      (flow + 1) kinds) :
    Outcome l (v.all isUncut isUncut && Json.allItems isUncut isUncut vs)
      (Inside · (x :: rest) (flow + 1) ((flowKinds v ++ moreItemKinds vs).reverse ++ kinds)) := by
  induction vs generalizing l v kinds with
  | nil =>
    have hv := hvs v (by simp) l depth flow kinds _ _ h (.closing n hx rest)
    simpa [Json.allItems, moreItemKinds] using hv
  | cons u vs ih =>
    rw [moreItems, List.cons_append, prettyItems_cons] at h
    refine (hvs v (by simp) l depth flow kinds _ _ h (.comma _)).bind fun l₁ h₁ => ?_
    have hcomma := h₁.comma (.line (startsToken_pretty depth u _) (2 * depth))
    have hrest := hcomma.bind fun l₂ h₂ =>
      ih (fun w hw => hvs w (List.mem_cons_of_mem _ hw)) h₂.inside
    simpa [Json.allItems, moreItemKinds] using hrest

/-- **The members of a mapping**, up to its closing brace. -/
theorem AtEntry.members {k : String} {v : Json} {ms : List (String × Json)}
    (hms : ∀ m ∈ (k, v) :: ms, LexesFlow m.2) (hx : x = ']' ∨ x = '\x7d')
    (h : AtEntry l (Json.quoted k ++ ':' :: ' ' ::
      (Json.pretty depth v ++ (moreMembers depth ms ++ breakLine n (x :: rest)))) (flow + 1) kinds) :
    Outcome l (isUncut k && v.all isUncut isUncut && Json.allMembers isUncut isUncut ms)
      (Inside · (x :: rest) (flow + 1)
        ((keyKinds k ++ .value :: flowKinds v ++ moreMemberKinds ms).reverse ++ kinds)) := by
  induction ms generalizing l k v kinds with
  | nil =>
    have hkey := h.key k (startsToken_pretty depth v _)
    have hv := hkey.bind fun l₁ h₁ => hms (k, v) (by simp) l₁ depth flow _ _ _ h₁ (.closing n hx rest)
    simpa [Json.allMembers, moreMemberKinds, isUncut] using hv
  | cons m ms ih =>
    obtain ⟨k', v'⟩ := m
    rw [moreMembers, List.cons_append, prettyMembers_cons] at h
    have hkey := h.key k (startsToken_pretty depth v _)
    have hv := hkey.bind fun l₁ h₁ => hms (k, v) (by simp) l₁ depth flow _ _ _ h₁ (.comma _)
    have hcomma := hv.bind fun l₁ h₁ =>
      (h₁.comma (.line (t := Json.quoted k' ++ _) rfl (2 * depth))).bind fun l₂ h₂ =>
        ih (fun m hm => hms m (List.mem_cons_of_mem _ hm)) h₂
    simpa [Json.allMembers, moreMemberKinds, isUncut, Bool.and_assoc] using hcomma

end Collections

theorem pretty_array (depth : Nat) (v : Json) (vs : List Json) (rest : List Char) :
    Json.pretty depth (.array (v :: vs)) ++ rest =
      '[' :: breakLine (2 * (depth + 1)) (Json.pretty (depth + 1) v ++ (moreItems (depth + 1) vs ++
        breakLine (2 * depth) (']' :: rest))) := by
  rw [← prettyItems_cons, ← newLine_append]
  simp [Json.pretty]

theorem pretty_object (depth : Nat) (k : String) (v : Json) (ms : List (String × Json))
    (rest : List Char) :
    Json.pretty depth (.object ((k, v) :: ms)) ++ rest =
      '\x7b' :: breakLine (2 * (depth + 1)) (Json.quoted k ++ ':' :: ' ' ::
        (Json.pretty (depth + 1) v ++ (moreMembers (depth + 1) ms ++
          breakLine (2 * depth) ('\x7d' :: rest)))) := by
  rw [← prettyMembers_cons, ← newLine_append]
  simp [Json.pretty]

section Brackets

variable {l : Lexer} {depth flow : Nat} {kinds : List Kind} {rest t : List Char}

/-- A sequence with its brackets. -/
theorem Inside.array {v : Json} {vs : List Json} (hvs : ∀ u ∈ v :: vs, LexesFlow u)
    (h : Inside l (Json.pretty depth (.array (v :: vs)) ++ rest) flow kinds)
    (hrest : Leaves flow rest t) :
    Outcome l ((Json.array (v :: vs)).all isUncut isUncut)
      (Inside · t flow ((flowKinds (.array (v :: vs))).reverse ++ kinds)) := by
  rw [pretty_array] at h
  have hopen := h.opening .sequence (.line (startsToken_pretty _ v _) _)
  have hitems := hopen.bind fun l₁ h₁ => Inside.items hvs (.inl rfl) h₁.inside
  have hclose := hitems.bind fun l₁ h₁ => h₁.closing .sequence hrest
  simpa [Json.all, Json.allItems, flowKinds] using hclose

/-- A mapping with its braces. -/
theorem Inside.object {k : String} {v : Json} {ms : List (String × Json)}
    (hms : ∀ m ∈ (k, v) :: ms, LexesFlow m.2)
    (h : Inside l (Json.pretty depth (.object ((k, v) :: ms)) ++ rest) flow kinds)
    (hrest : Leaves flow rest t) :
    Outcome l ((Json.object ((k, v) :: ms)).all isUncut isUncut)
      (Inside · t flow ((flowKinds (.object ((k, v) :: ms))).reverse ++ kinds)) := by
  rw [pretty_object] at h
  have hopen := h.opening .mapping (.line (t := Json.quoted k ++ _) rfl _)
  have hmembers := hopen.bind fun l₁ h₁ => AtEntry.members hms (.inr rfl) h₁
  have hclose := hmembers.bind fun l₁ h₁ => h₁.closing .mapping hrest
  simpa [Json.all, Json.allMembers, flowKinds] using hclose

/-- An empty collection. -/
theorem Inside.empty {o e : Char} {start stop : Kind} (hb : Brackets o e start stop)
    (h : Inside l (o :: e :: rest) flow kinds) (hrest : Leaves flow rest t) :
    Outcome l true (Inside · t flow (stop :: start :: kinds)) :=
  (h.opening hb (.here (by cases hb <;> rfl))).bind fun _ h₁ => h₁.inside.closing hb hrest

end Brackets

/-- **Every value inside of brackets** is cut into its tokens, or its first bad string is found. -/
theorem lexesFlow (v : Json) : LexesFlow v := by
  induction v using Json.induction with
  | null => exact lexesFlow_word rfl (fun _ => rfl) rfl rfl
  | bool b => exact lexesFlow_word rfl (fun _ => rfl) rfl (by cases b <;> rfl)
  | int i => exact lexesFlow_word rfl (fun _ => rfl) rfl (by simp [flowKinds])
  | float x => exact lexesFlow_word rfl (fun _ => rfl) rfl rfl
  | string s => exact lexesFlow_string s
  | array vs ih =>
    intro l depth flow kinds rest t h hrest
    cases vs with
    | nil => exact h.empty .sequence (.of_follows hrest)
    | cons v vs => exact h.array ih (.of_follows hrest)
  | object ms ih =>
    intro l depth flow kinds rest t h hrest
    cases ms with
    | nil => exact h.empty .mapping (.of_follows hrest)
    | cons m ms => exact h.object ih (.of_follows hrest)

end Lexer

/-! ## Documents -/

/-- **A JSON text is cut into its tokens**, or its first bad string is a fault of the stream. -/
theorem tokens_pretty {ms : List (String × Json)} (hne : ms ≠ []) :
    if (Json.object ms).all isUncut isUncut then
      ∃ ts, TokenStream.ofSource ⟨Json.pretty 0 (.object ms) ++ ['\n'], none⟩ = ⟨ts, none⟩ ∧
        ts.map Token.kind = .streamStart :: (flowKinds (.object ms) ++ [.streamEnd])
    else (TokenStream.ofSource ⟨Json.pretty 0 (.object ms) ++ ['\n'], none⟩).fault.isSome := by
  obtain ⟨⟨k, v⟩, ms, rfl⟩ := List.exists_cons_of_ne_nil hne
  obtain ⟨l₀, l, hrun, hfault, htokens, hadvance, hl⟩ :=
    Lexer.ofSource_eq (Lexer.startsToken_pretty 0 (.object ((k, v) :: ms)) ['\n'])
  have hinside : Lexer.Inside l (Json.pretty 0 (.object ((k, v) :: ms)) ++ ['\n']) 0 [.streamStart] :=
    ⟨Mark.start, none, true, [], by simp, rfl, by simp [Lexer.Optional], hl⟩
  have hout := hinside.object (fun m _ => Lexer.lexesFlow m.2)
    (Lexer.Leaves.line (t := []) rfl 0)
  have hfuel : l.cursor.rest.length <
      (Json.pretty 0 (.object ((k, v) :: ms)) ++ ['\n']).length + 1 := by
    rw [hl.cursor]
    exact Nat.lt_succ_self _
  rw [hrun]
  unfold Lexer.Outcome at hout
  split
  case isTrue h =>
    rw [if_pos h] at hout
    obtain ⟨l', hreaches, m, key, ka, outer, -, hlength, hoptional, hl'⟩ := hout
    obtain rfl := List.eq_nil_of_length_eq_zero hlength
    obtain ⟨l'', hend, hover, hkinds⟩ := hl'.fetchEnd (hoptional key (by simp))
    refine ⟨l''.tokens.reverse,
      Lexer.run_of_reaches hfault htokens hadvance hreaches hend hover hfuel, ?_⟩
    rw [List.map_reverse, hkinds]
    simp
  case isFalse h =>
    rw [if_neg h] at hout
    obtain ⟨l', e, hreaches, he⟩ := hout
    exact Lexer.fault_run_of_reaches hfault htokens hadvance hreaches he hfuel

end ConfigVault.Yaml
