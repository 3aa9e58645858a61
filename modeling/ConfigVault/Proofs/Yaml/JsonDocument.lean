import ConfigVault.Proofs.Yaml.Document
import ConfigVault.Proofs.Yaml.Node.Flow
import ConfigVault.Proofs.Yaml.Node.Rest

/-! # JSON text as a YAML document

What JSON text says as YAML.  There is a single sound document in it if and only if documents may
hold all its characters, no string is cut off, and no key breaks its line or is too long; its root
then shows the value with its strings as they are read (`allOf_prettyText`).
-/
namespace ConfigVault.Yaml

open Token (Kind)
open Writer (AllAllowed allAllowed_append allAllowed_cons allAllowed_nil allAllowed_spaces
  allAllowed_word)

/-! ## The characters -/

/-- JSON text writes the character so that documents may hold it: it escapes control characters
below the space, and leaves the others as they are. -/
def isCarried (c : Char) : Bool := decide (c.toNat < 32) || isAllowed c

/-- Documents may hold every character of the written string. -/
def isCarriedText (s : String) : Bool := s.toList.all isCarried

theorem isAllowed_jsonDigit : ∀ d, d < 16 → isAllowed (Json.hexDigit d) := by decide

theorem allAllowed_escaped_iff (c : Char) : AllAllowed (Json.escaped c) ↔ isCarried c := by
  unfold Json.escaped
  split
  case h_8 =>
    split
    case isTrue h =>
      refine iff_of_true ?_ (by simp [isCarried, h])
      have hhigh := isAllowed_jsonDigit (c.toNat / 16) (by omega)
      have hlow := isAllowed_jsonDigit (c.toNat % 16) (by omega)
      simpa [AllAllowed] using ⟨rfl, rfl, rfl, hhigh, hlow⟩
    case isFalse h => simp [AllAllowed, isCarried, h]
  all_goals exact iff_of_true (by simp [AllAllowed, isAllowed]) rfl

theorem allAllowed_quoted_iff (s : String) : AllAllowed (Json.quoted s) ↔ isCarriedText s := by
  have hchars : AllAllowed (s.toList.flatMap Json.escaped) ↔ isCarriedText s := by
    rw [isCarriedText, List.all_eq_true]
    refine ⟨fun h c hc => (allAllowed_escaped_iff c).mp fun d hd => ?_, fun h d hd => ?_⟩
    · exact h d (List.mem_flatMap.mpr ⟨c, hc, hd⟩)
    · obtain ⟨c, hc, hd⟩ := List.mem_flatMap.mp hd
      exact (allAllowed_escaped_iff c).mpr (h c hc) d hd
  have hquote : isAllowed '"' := rfl
  simp [Json.quoted, allAllowed_append, allAllowed_cons, allAllowed_nil, hchars, hquote]

theorem allAllowed_breakLine_iff (n : Nat) (t : List Char) :
    AllAllowed (breakLine n t) ↔ AllAllowed t := by
  have hbreak : isAllowed '\n' := rfl
  simp [breakLine, allAllowed_append, allAllowed_cons, allAllowed_spaces, hbreak]

theorem allAllowed_items_iff {vs : List Json}
    (h : ∀ v ∈ vs, ∀ depth, AllAllowed (Json.pretty depth v) ↔ v.all isCarriedText isCarriedText)
    (depth : Nat) :
    AllAllowed (Json.prettyItems depth vs) ↔ Json.allItems isCarriedText isCarriedText vs := by
  induction vs with
  | nil => exact iff_of_true allAllowed_nil rfl
  | cons v vs ih =>
    have hmore : AllAllowed (Lexer.moreItems depth vs) ↔
        Json.allItems isCarriedText isCarriedText vs := by
      have hcomma : isAllowed ',' := rfl
      rw [← ih fun u hu => h u (List.mem_cons_of_mem v hu)]
      cases vs <;> simp [Lexer.moreItems, Json.prettyItems, allAllowed_cons, hcomma]
    have htext := Lexer.prettyItems_cons depth v vs []
    rw [List.append_nil, List.append_nil] at htext
    rw [htext, allAllowed_breakLine_iff, allAllowed_append, h v (by simp), hmore, Json.allItems,
      Bool.and_eq_true]

theorem allAllowed_members_iff {ms : List (String × Json)}
    (h : ∀ m ∈ ms, ∀ depth, AllAllowed (Json.pretty depth m.2) ↔ m.2.all isCarriedText isCarriedText)
    (depth : Nat) :
    AllAllowed (Json.prettyMembers depth ms) ↔ Json.allMembers isCarriedText isCarriedText ms := by
  induction ms with
  | nil => exact iff_of_true allAllowed_nil rfl
  | cons m ms ih =>
    obtain ⟨k, v⟩ := m
    have hcolon : isAllowed ':' := rfl
    have hspace : isAllowed ' ' := rfl
    have hmore : AllAllowed (Lexer.moreMembers depth ms) ↔
        Json.allMembers isCarriedText isCarriedText ms := by
      have hcomma : isAllowed ',' := rfl
      rw [← ih fun u hu => h u (List.mem_cons_of_mem _ hu)]
      cases ms <;> simp [Lexer.moreMembers, Json.prettyMembers, allAllowed_cons, hcomma]
    have htext := Lexer.prettyMembers_cons depth k v ms []
    rw [List.append_nil, List.append_nil] at htext
    rw [htext, allAllowed_breakLine_iff, allAllowed_append, allAllowed_quoted_iff, allAllowed_cons,
      allAllowed_cons, allAllowed_append, h (k, v) (by simp), hmore, Json.allMembers]
    simp [hcolon, hspace, and_assoc]

/-- **Documents may hold JSON text** if and only if they may hold each of its strings. -/
theorem allAllowed_pretty_iff (v : Json) (depth : Nat) :
    AllAllowed (Json.pretty depth v) ↔ v.all isCarriedText isCarriedText := by
  induction v using Json.induction generalizing depth with
  | null => exact iff_of_true (allAllowed_word (Lexer.isWord_word? (v := .null) rfl)) rfl
  | bool b => exact iff_of_true (allAllowed_word (Lexer.isWord_word? (v := .bool b) rfl)) rfl
  | int i => exact iff_of_true (allAllowed_word (Lexer.isWord_word? (v := .int i) rfl)) rfl
  | float x => exact iff_of_true (allAllowed_word (Lexer.isWord_word? (v := .float x) rfl)) rfl
  | string s => exact allAllowed_quoted_iff s
  | array vs ih =>
    have hopen : isAllowed '[' := rfl
    have hclose : isAllowed ']' := rfl
    cases vs with
    | nil => exact iff_of_true (by simp [Json.pretty, AllAllowed, hopen, hclose]) rfl
    | cons v vs =>
      have htext : Json.pretty depth (.array (v :: vs)) =
          '[' :: (Json.prettyItems (depth + 1) (v :: vs) ++ breakLine (2 * depth) [']']) := by
        simp [Json.pretty, Json.newLine, breakLine, Writer.spaces]
      rw [htext, allAllowed_cons, allAllowed_append, allAllowed_breakLine_iff,
        allAllowed_items_iff ih]
      simp [allAllowed_cons, allAllowed_nil, hopen, hclose, Json.all]
  | object ms ih =>
    have hopen : isAllowed '\x7b' := rfl
    have hclose : isAllowed '\x7d' := rfl
    cases ms with
    | nil => exact iff_of_true (by simp [Json.pretty, AllAllowed, hopen, hclose]) rfl
    | cons m ms =>
      have htext : Json.pretty depth (.object (m :: ms)) =
          '\x7b' :: (Json.prettyMembers (depth + 1) (m :: ms) ++ breakLine (2 * depth) ['\x7d']) := by
        simp [Json.pretty, Json.newLine, breakLine, Writer.spaces]
      rw [htext, allAllowed_cons, allAllowed_append, allAllowed_breakLine_iff,
        allAllowed_members_iff ih]
      simp [allAllowed_cons, allAllowed_nil, hopen, hclose, Json.all]

/-! ## The document -/

/-- The string is read as one token, whatever it is. -/
def isScannable (s : String) : Bool := isCarriedText s && isUncut s

/-- The string is read as a key. -/
def isScannableKey (k : String) : Bool := isScannable k && Lexer.isKeyText k

theorem all_isScannable (v : Json) :
    v.all isScannable isScannableKey =
      (v.all isCarriedText isCarriedText && v.all isUncut isUncut && Node.keysFit v) := by
  have hboth : v.all isScannable isScannable =
      (v.all isCarriedText isCarriedText && v.all isUncut isUncut) := Json.all_and v
  have hkeys : v.all isScannable isScannableKey =
      (v.all isScannable isScannable && Node.keysFit v) := by
    rw [Node.keysFit, ← Json.all_and]
    simp only [Bool.and_true]
    rfl
  rw [hkeys, hboth]

/-- The octets of a JSON text. -/
def jsonBytes (v : Json) : List UInt8 := Text.Utf8.encodeString (v.prettyText ++ "\n")

theorem jsonBytes_eq (v : Json) : jsonBytes v = Text.Utf8.encode (Json.pretty 0 v ++ ['\n']) := by
  rw [jsonBytes, Text.Utf8.encodeString, Json.prettyText, String.toList_append, String.toList_ofList]
  rfl

/-- A document whose content goes wrong is the last one. -/
theorem Document.ofTokens_error {stop e : DocumentFault} {us : List Token} {t : Token}
    (hstart : isExplicitStart t = false) (hend : t.kind ≠ .streamEnd)
    (hnode : (content ⟨defaultHandles, stop⟩ (t :: us)).rest = .error e) (fuel : Nat) :
    ∃ node, ofTokens stop (fuel + 1) true (t :: us) = [⟨node, some e⟩] := by
  rw [ofTokens]
  simp only [if_true, beq_iff_eq, hend, if_false, hstart, Bool.not_false, Bool.and_self]
  rw [finish, hnode]
  exact ⟨_, rfl⟩

/-- The tokens of a value in JSON layout are a single document, if all keys were announced. -/
theorem Document.allOf_of_flowKinds {bytes : List UInt8} {ts : List Token}
    {ms : List (String × Json)} (hne : ms ≠ [])
    (htokens : TokenStream.ofSource (Source.ofBytes bytes) = ⟨ts, none⟩)
    (hkinds : ts.map Token.kind = .streamStart :: (flowKinds (.object ms) ++ [.streamEnd])) :
    if Node.keysFit (.object ms) then
      ∃ node, allOf bytes = [⟨node, none⟩] ∧ Shows ((Json.object ms).mapTexts Quoted.asRead) node
    else ∀ node, allOf bytes ≠ [⟨node, none⟩] := by
  obtain ⟨e, es, rfl⟩ := List.exists_cons_of_ne_nil hne
  obtain ⟨m₀, us, m₁, rfl, hus⟩ := Node.exists_of_map_between hkinds
  obtain ⟨m₂, us', rfl, -⟩ := Node.exists_of_map_cons hus
  have hnode : (content ⟨defaultHandles, .endOfStream⟩
      (⟨.flowMappingStart, m₂⟩ :: us' ++ [⟨.streamEnd, m₁⟩])).Reads _ _ _ _ :=
    Node.parsesFlow (.object (e :: es)) _ _ true false [] _ ⟨.streamEnd, m₁⟩ [] hus (by simp; omega)
  rw [allOf]
  simp only [htokens]
  -- Either all keys fit and the node is read to its end, or it goes wrong and so does the document.
  unfold Parsed.Reads at hnode
  split
  case isTrue hkeys =>
    rw [if_pos hkeys] at hnode
    obtain ⟨hanchors, hrest, hshows⟩ := hnode
    refine ⟨_, ofTokens_eq rfl (by simp) rfl ?_, hshows⟩
    rw [← hanchors, ← hrest]
    rfl
  case isFalse hkeys =>
    rw [if_neg hkeys] at hnode
    obtain ⟨fault, hfault⟩ := hnode
    obtain ⟨node, hdocument⟩ := ofTokens_error rfl (by simp) hfault
      (Token.mk .flowMappingStart m₂ :: us' ++ [Token.mk .streamEnd m₁]).length
    intro node' h
    cases hdocument.symm.trans h

/-- **A JSON text is a single sound document** if and only if every string of it can be read where it
stands, and then its root shows the value with its strings as they are read. -/
theorem allOf_jsonBytes {ms : List (String × Json)} (hne : ms ≠ []) :
    if (Json.object ms).all isScannable isScannableKey then
      ∃ node, Document.allOf (jsonBytes (.object ms)) = [⟨node, none⟩] ∧
        Shows ((Json.object ms).mapTexts Quoted.asRead) node
    else ∀ node, Document.allOf (jsonBytes (.object ms)) ≠ [⟨node, none⟩] := by
  rw [all_isScannable]
  have hbreak : AllAllowed ['\n'] := by
    intro c hc
    rw [List.mem_singleton.mp hc]
    rfl
  have hchars : AllAllowed (Json.pretty 0 (.object ms) ++ ['\n']) ↔
      (Json.object ms).all isCarriedText isCarriedText := by
    rw [allAllowed_append, allAllowed_pretty_iff]
    exact and_iff_left hbreak
  -- Three things can go wrong, one behind the other: a character, a string or a key.
  by_cases hcarried : (Json.object ms).all isCarriedText isCarriedText = true
  · have hsource : Source.ofBytes (jsonBytes (.object ms)) =
        ⟨Json.pretty 0 (.object ms) ++ ['\n'], none⟩ := by
      rw [jsonBytes_eq]
      exact Source.ofBytes_encode (hchars.mpr hcarried)
    have htokens := tokens_pretty hne
    rw [← hsource] at htokens
    rw [hcarried, Bool.true_and]
    by_cases huncut : (Json.object ms).all isUncut isUncut = true
    · rw [if_pos huncut] at htokens
      obtain ⟨ts, hts, hkinds⟩ := htokens
      rw [huncut, Bool.true_and]
      exact Document.allOf_of_flowKinds hne hts hkinds
    · rw [if_neg huncut] at htokens
      rw [if_neg (by simp [huncut])]
      intro node hnode
      rw [(Document.fault_of_allOf hnode).1] at htokens
      cases htokens
  · rw [if_neg (by simp [hcarried])]
    intro node hnode
    -- Some character is a fault of the source, wherever it stands.
    have hnone := (Document.fault_of_allOf hnode).2
    refine hcarried (hchars.mp fun c hc => ?_)
    cases ha : isAllowed c with
    | true => rfl
    | false =>
      have hfault := Source.fault_ofBytes_encode hc ha
      rw [← jsonBytes_eq, hnone] at hfault
      cases hfault

end ConfigVault.Yaml
