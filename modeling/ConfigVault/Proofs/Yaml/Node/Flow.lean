import ConfigVault.Proofs.Yaml.JsonLayout
import ConfigVault.Proofs.Yaml.Node.Block

/-! # The nodes of JSON text

The tokens of a JSON text make a node that shows the value, with its strings as they were read
(`parsesFlow`).  The one thing that can go wrong is a key that was not announced: its colon stands
where the mapping should go on, so nothing is left of the document from there on.
-/
namespace ConfigVault.Yaml

open Token (Kind)

namespace Parsed

variable {α β : Type}

/-- The part was read: it has the property, and these anchors and tokens come behind it.  If not all is
well, it went wrong. -/
def Reads (p : Parsed α) (ok : Bool) (anchors : Anchors) (ts : List Token) (P : α → Prop) : Prop :=
  if ok then p.anchors = anchors ∧ p.rest = .ok ts ∧ P p.value else ∃ e, p.rest = .error e

variable {ok ok' : Bool} {anchors anchors' : Anchors} {ts ts' : List Token}

theorem Reads.map {p : Parsed α} {P : α → Prop} {Q : β → Prop} {f : α → β}
    (h : p.Reads ok anchors ts P) (hf : ∀ x, P x → Q (f x)) : (p.map f).Reads ok anchors ts Q := by
  cases ok with
  | false => exact h
  | true => exact ⟨h.1, h.2.1, hf _ h.2.2⟩

/-- Two parts, one behind the other: the second is read only if nothing went wrong with the first. -/
theorem Reads.next {γ : Type} {p : Parsed α} {q : Anchors → List Token → Parsed β} {r : Parsed γ}
    {f : α → β → γ} {P : α → Prop} {Q : β → Prop} {R : γ → Prop} (h : p.Reads ok anchors ts P)
    (h' : (q anchors ts).Reads ok' anchors' ts' Q) (hR : ∀ x y, P x → Q y → R (f x y))
    (herror : ∀ e, p.rest = .error e → r.rest = .error e)
    (hok : ∀ us, p.rest = .ok us →
      r = ⟨f p.value (q p.anchors us).value, (q p.anchors us).anchors, (q p.anchors us).rest⟩) :
    r.Reads (ok && ok') anchors' ts' R := by
  cases ok with
  | false =>
    obtain ⟨e, he⟩ := h
    exact ⟨e, herror e he⟩
  | true =>
    obtain ⟨rfl, hrest, hP⟩ := h
    rw [hok ts hrest, Bool.true_and]
    cases ok' with
    | false => exact h'
    | true => exact ⟨h'.1, h'.2.1, hR _ _ hP h'.2.2⟩

theorem Reads.andMore {p : Parsed Node} {more : Anchors → List Token → Parsed (List Node)}
    {P : Node → Prop} {Q R : List Node → Prop} (h : p.Reads ok anchors ts P)
    (h' : (more anchors ts).Reads ok' anchors' ts' Q) (hR : ∀ n ns, P n → Q ns → R (n :: ns)) :
    (p.andMore more).Reads (ok && ok') anchors' ts' R :=
  h.next h' hR (fun e he => by rw [Parsed.andMore, he]) fun us hus => by rw [Parsed.andMore, hus]

theorem Reads.andValue {p : Parsed Node} {value : Anchors → List Token → Parsed Node}
    {P Q : Node → Prop} (h : p.Reads ok anchors ts P)
    (h' : (value anchors ts).Reads ok' anchors' ts' Q) :
    (p.andValue value).Reads (ok && ok') anchors' ts' fun e => P e.1 ∧ Q e.2 :=
  h.next h' (fun _ _ hk hv => ⟨hk, hv⟩) (fun e he => by rw [Parsed.andValue, he]) fun us hus => by
    rw [Parsed.andValue, hus]

theorem Reads.andEntries {p : Parsed (Node × Node)}
    {more : Anchors → List Token → Parsed (List (Node × Node))} {P : Node × Node → Prop}
    {Q R : List (Node × Node) → Prop} (h : p.Reads ok anchors ts P)
    (h' : (more anchors ts).Reads ok' anchors' ts' Q) (hR : ∀ e es, P e → Q es → R (e :: es)) :
    (p.andEntries more).Reads (ok && ok') anchors' ts' R :=
  h.next h' hR (fun e he => by rw [Parsed.andEntries, he]) fun us hus => by
    rw [Parsed.andEntries, hus]

end Parsed

namespace Node

/-- All keys of the value are announced. -/
def keysFit (v : Json) : Bool := v.all (fun _ => true) Lexer.isKeyText

/-- **The tokens of a value inside of brackets make a node that shows it**, unless a key of it was not
announced. -/
def ParsesFlow (v : Json) : Prop :=
  ∀ (g : Grammar) (fuel : Nat) (block inMapping : Bool) (anchors : Anchors) (us : List Token)
    (t : Token) (ts : List Token), us.map Token.kind = flowKinds v → 2 * us.length + 2 ≤ fuel →
      (ofTokens g fuel block inMapping anchors (us ++ t :: ts)).Reads (keysFit v) anchors (t :: ts)
        (Shows (v.mapTexts Quoted.asRead))

/-- The first token of a value inside of brackets. -/
theorem flowKinds_eq_cons (v : Json) :
    ∃ k ks, flowKinds v = k :: ks ∧ k ≠ .flowSequenceEnd ∧ k ≠ .flowMappingEnd ∧ k ≠ .flowEntry ∧
      k ≠ .key ∧ k ≠ .value := by
  cases v with
  | array vs => cases vs <;> exact ⟨_, _, rfl, by simp, by simp, by simp, by simp, by simp⟩
  | object ms => cases ms <;> exact ⟨_, _, rfl, by simp, by simp, by simp, by simp, by simp⟩
  | _ => exact ⟨_, _, rfl, by simp, by simp, by simp, by simp, by simp⟩

/-- A value of one token. -/
theorem parsesFlow_scalar {v : Json} {text : String} {style : ScalarStyle}
    (hk : flowKinds v = [.scalar text style]) (hkeys : keysFit v = true)
    (h : ∀ m, Shows (v.mapTexts Quoted.asRead) (.scalar m .none style text)) : ParsesFlow v := by
  intro g fuel block inMapping anchors us t ts hus hfuel
  rw [hk] at hus
  obtain ⟨m, rfl⟩ := exists_of_map_singleton hus
  obtain ⟨fuel, rfl⟩ : ∃ f, fuel = f + 1 := ⟨fuel - 1, by omega⟩
  rw [hkeys]
  exact ⟨rfl, rfl, h m⟩

section Collections

variable {g : Grammar} {fuel : Nat} {anchors : Anchors} {us ts ts' : List Token} {t : Token}
  {ok : Bool} {began : Mark}

theorem exists_of_flowKinds {v : Json} (hus : us.map Token.kind = flowKinds v) :
    ∃ u us', us = u :: us' ∧ u.kind ≠ .flowSequenceEnd ∧ u.kind ≠ .flowMappingEnd ∧
      u.kind ≠ .flowEntry ∧ u.kind ≠ .key ∧ u.kind ≠ .value := by
  obtain ⟨k, ks, hk, h⟩ := flowKinds_eq_cons v
  rw [hk] at hus
  obtain ⟨m, us', rfl, -⟩ := exists_of_map_cons hus
  exact ⟨_, us', rfl, h⟩

/-! ## Sequences -/

theorem flowItem_cons (hend : t.kind ≠ .flowSequenceEnd) (hkey : t.kind ≠ .key) (ts : List Token) :
    flowItem g (fuel + 1) began anchors (t :: ts) =
      (ofTokens g fuel false false anchors (t :: ts)).andMore fun anchors ts =>
        flowItems g fuel began false anchors ts := by
  rw [flowItem]
  split
  case h_1 h => exact absurd h hend
  case h_2 h => exact absurd h hkey
  case h_3 => rfl

theorem flowItems_first (hend : t.kind ≠ .flowSequenceEnd) (ts : List Token) :
    flowItems g (fuel + 1) began true anchors (t :: ts) = flowItem g fuel began anchors (t :: ts) := by
  simp [flowItems, hend]

theorem flowItems_entry (m : Mark) (ts : List Token) :
    flowItems g (fuel + 1) began false anchors (⟨.flowEntry, m⟩ :: ts) =
      flowItem g fuel began anchors ts := rfl

/-- An item and those behind it. -/
theorem reads_item {v : Json} {vs : List Json} (hv : ParsesFlow v)
    (hus : us.map Token.kind = flowKinds v) (hfuel : 2 * us.length + 2 ≤ fuel)
    (hmore : (flowItems g fuel began false anchors (t :: ts)).Reads ok anchors ts' (ShowItems vs)) :
    (flowItem g (fuel + 1) began anchors (us ++ t :: ts)).Reads (keysFit v && ok) anchors ts'
      (ShowItems (v.mapTexts Quoted.asRead :: vs)) := by
  have hitem := hv g fuel false false anchors us t ts hus hfuel
  obtain ⟨u, us', rfl, hend, -, -, hkey, -⟩ := exists_of_flowKinds hus
  rw [List.cons_append, flowItem_cons hend hkey]
  exact hitem.andMore hmore fun n ns hn hns => .cons hn hns

/-- **The items of a flow sequence**, up to and with its closing bracket. -/
theorem reads_items {v : Json} {vs : List Json} (hvs : ∀ u ∈ v :: vs, ParsesFlow u) (m : Mark)
    (hus : us.map Token.kind = flowKinds v ++ moreItemKinds vs) (hfuel : 2 * us.length + 3 ≤ fuel) :
    (flowItem g fuel began anchors (us ++ ⟨.flowSequenceEnd, m⟩ :: ts)).Reads
      (keysFit v && Json.allItems (fun _ => true) Lexer.isKeyText vs) anchors ts
      (ShowItems (Json.mapItems Quoted.asRead (v :: vs))) := by
  induction vs generalizing v us fuel with
  | nil =>
    rw [moreItemKinds, List.append_nil] at hus
    obtain ⟨fuel, rfl⟩ : ∃ f, fuel = f + 2 := ⟨fuel - 2, by omega⟩
    exact reads_item (hvs v (by simp)) hus (by omega) ⟨rfl, rfl, .nil⟩
  | cons w vs ih =>
    obtain ⟨us₁, us₂, rfl, hus₁, hus₂⟩ := exists_of_map_append hus
    obtain ⟨n, us₃, rfl, hus₃⟩ := exists_of_map_cons hus₂
    rw [List.length_append, List.length_cons] at hfuel
    obtain ⟨fuel, rfl⟩ : ∃ f, fuel = f + 2 := ⟨fuel - 2, by omega⟩
    rw [List.append_assoc, List.cons_append]
    refine reads_item (hvs v (by simp)) hus₁ (by omega) ?_
    rw [flowItems_entry]
    exact ih (fun u hu => hvs u (List.mem_cons_of_mem _ hu)) hus₃ (by omega)

/-! ## Mappings -/

/-- A key that is announced stands in one line, so it is read as it is. -/
theorem asRead_of_isKeyText {k : String} (h : Lexer.isKeyText k) : Quoted.asRead k = k := by
  have hraw : ∀ c ∈ k.toList, Quoted.isRawBreak c = false := by
    have hany := (Bool.and_eq_true_iff.mp h).1
    simpa using hany
  rw [Quoted.asRead_eq_iff]
  exact Quoted.keepsLines_of_no_break hraw

theorem flowValue_cons (m : Mark) {u : Token} (hend : u.kind ≠ .flowMappingEnd)
    (hentry : u.kind ≠ .flowEntry) (us : List Token) :
    flowValue g (fuel + 1) .flowMappingEnd anchors (⟨.value, m⟩ :: u :: us) =
      ofTokens g fuel false false anchors (u :: us) := by
  simp [flowValue, endsFlowEntry, hend, hentry]

theorem flowEntry_key (m n : Mark) (text : String) (style : ScalarStyle) (ts : List Token) :
    flowEntry g (fuel + 1) began anchors (⟨.key, m⟩ :: ⟨.scalar text style, n⟩ :: ts) =
      ((ofTokens g fuel false false anchors (⟨.scalar text style, n⟩ :: ts)).andValue
        fun anchors ts => flowValue g fuel .flowMappingEnd anchors ts).andEntries
          fun anchors ts => flowEntries g fuel began false anchors ts := by
  simp [flowEntry, endsFlowEntry]

theorem flowEntries_first (hend : t.kind ≠ .flowMappingEnd) (ts : List Token) :
    flowEntries g (fuel + 1) began true anchors (t :: ts) =
      flowEntry g fuel began anchors (t :: ts) := by
  simp [flowEntries, hend]

theorem flowEntries_entry (m : Mark) (ts : List Token) :
    flowEntries g (fuel + 1) began false anchors (⟨.flowEntry, m⟩ :: ts) =
      flowEntry g fuel began anchors ts := rfl

/-- **A key that was not announced** ends the document: its colon is no separator. -/
theorem flowEntry_bare (m n : Mark) (text : String) (style : ScalarStyle) (ts : List Token) :
    ∃ e, (flowEntry g (fuel + 2) began anchors
      (⟨.scalar text style, m⟩ :: ⟨.value, n⟩ :: ts)).rest = .error e := ⟨_, rfl⟩

/-- A member and those behind it. -/
theorem reads_member {k : String} {v : Json} {ms : List (String × Json)} (hv : ParsesFlow v)
    (hus : us.map Token.kind = Lexer.keyKinds k ++ .value :: flowKinds v)
    (hfuel : 2 * us.length ≤ fuel)
    (hmore : (flowEntries g fuel began false anchors (t :: ts)).Reads ok anchors ts'
      (ShowEntries ms)) :
    (flowEntry g (fuel + 1) began anchors (us ++ t :: ts)).Reads
      (Lexer.isKeyText k && keysFit v && ok) anchors ts'
      (ShowEntries ((k, v.mapTexts Quoted.asRead) :: ms)) := by
  obtain ⟨us₁, us₂, rfl, hus₁, hus₂⟩ := exists_of_map_append hus
  obtain ⟨n, us₃, rfl, hus₃⟩ := exists_of_map_cons hus₂
  rw [List.length_append, List.length_cons] at hfuel
  unfold Lexer.keyKinds at hus₁
  -- A key that was not announced stands there as a bare scalar, and its colon is one too many.
  cases hk : Lexer.isKeyText k with
  | false =>
    rw [hk, if_neg Bool.false_ne_true] at hus₁
    obtain ⟨m, rfl⟩ := exists_of_map_singleton hus₁
    obtain ⟨fuel, rfl⟩ : ∃ f, fuel = f + 1 := ⟨fuel - 1, by omega⟩
    exact flowEntry_bare m n _ _ _
  | true =>
    rw [hk, if_pos rfl] at hus₁
    obtain ⟨m, m', rfl⟩ := exists_of_map_pair hus₁
    simp only [List.length_cons, List.length_nil] at hfuel
    obtain ⟨fuel, rfl⟩ : ∃ f, fuel = f + 1 := ⟨fuel - 1, by omega⟩
    have hvalue := hv g fuel false false anchors us₃ t ts hus₃ (by omega)
    obtain ⟨u, us₄, rfl, -, hend, hentry, -⟩ := exists_of_flowKinds hus₃
    rw [List.cons_append, ← flowValue_cons n hend hentry] at hvalue
    have hkey : (ofTokens g (fuel + 1) false false anchors
        (⟨.scalar (Quoted.asRead k) .doubleQuoted, m'⟩ :: ⟨.value, n⟩ :: u :: (us₄ ++ t :: ts))).Reads
          true anchors (⟨.value, n⟩ :: u :: (us₄ ++ t :: ts)) (Shows (.string k)) := by
      refine ⟨rfl, rfl, ?_⟩
      rw [ofTokens_scalar, asRead_of_isKeyText hk]
      exact .string m' (by rintro ⟨⟩)
    have hmember := (hkey.andValue hvalue).andEntries hmore
      (R := ShowEntries ((k, v.mapTexts Quoted.asRead) :: ms)) fun e es he hes => .cons he.1 he.2 hes
    rw [Bool.true_and] at hmember ⊢
    rw [← flowEntry_key m] at hmember
    exact hmember

/-- **The entries of a flow mapping**, up to and with its closing brace. -/
theorem reads_members {k : String} {v : Json} {ms : List (String × Json)}
    (hms : ∀ e ∈ (k, v) :: ms, ParsesFlow e.2) (m : Mark)
    (hus : us.map Token.kind = Lexer.keyKinds k ++ .value :: flowKinds v ++ moreMemberKinds ms)
    (hfuel : 2 * us.length + 1 ≤ fuel) :
    (flowEntry g fuel began anchors (us ++ ⟨.flowMappingEnd, m⟩ :: ts)).Reads
      (Lexer.isKeyText k && keysFit v && Json.allMembers (fun _ => true) Lexer.isKeyText ms) anchors ts
      (ShowEntries (Json.mapMembers Quoted.asRead ((k, v) :: ms))) := by
  induction ms generalizing k v us fuel with
  | nil =>
    rw [moreMemberKinds, List.append_nil] at hus
    have hlength : 2 ≤ us.length := by
      have := congrArg List.length hus
      rw [List.length_map, List.length_append, List.length_cons] at this
      obtain ⟨_, _, hk, -⟩ := flowKinds_eq_cons v
      rw [hk, List.length_cons] at this
      omega
    obtain ⟨fuel, rfl⟩ : ∃ f, fuel = f + 2 := ⟨fuel - 2, by omega⟩
    exact reads_member (hms (k, v) (by simp)) hus (by omega) ⟨rfl, rfl, .nil⟩
  | cons e ms ih =>
    obtain ⟨k', v'⟩ := e
    obtain ⟨us₁, us₂, rfl, hus₁, hus₂⟩ := exists_of_map_append hus
    obtain ⟨n, us₃, rfl, hus₃⟩ := exists_of_map_cons hus₂
    rw [List.length_append, List.length_cons] at hfuel
    obtain ⟨fuel, rfl⟩ : ∃ f, fuel = f + 2 := ⟨fuel - 2, by omega⟩
    rw [List.append_assoc, List.cons_append]
    refine reads_member (hms (k, v) (by simp)) hus₁ (by omega) ?_
    rw [flowEntries_entry]
    exact ih (fun e he => hms e (List.mem_cons_of_mem _ he)) hus₃ (by omega)

end Collections

theorem parsesFlow_array {vs : List Json} (hvs : ∀ v ∈ vs, ParsesFlow v) :
    ParsesFlow (.array vs) := by
  intro g fuel block inMapping anchors us t ts hus hfuel
  obtain ⟨fuel, rfl⟩ : ∃ f, fuel = f + 2 := ⟨fuel - 2, by omega⟩
  cases vs with
  | nil =>
    obtain ⟨m, m', rfl⟩ := exists_of_map_pair hus
    exact ⟨rfl, rfl, .array m .nil⟩
  | cons v vs =>
    obtain ⟨m, us', m', rfl, hus'⟩ := exists_of_map_between hus
    rw [List.length_cons, List.length_append, List.length_singleton] at hfuel
    have hitems := @reads_items g fuel anchors us' (t :: ts) m v vs hvs m' hus' (by omega)
    -- The sequence does not end before its first item.
    obtain ⟨us₁, us₂, rfl, hus₁, -⟩ := exists_of_map_append hus'
    obtain ⟨u, us₃, rfl, hend, -⟩ := exists_of_flowKinds hus₁
    rw [List.cons_append, List.append_assoc, List.cons_append, List.cons_append, List.append_assoc,
      ofTokens_flowSequence, List.singleton_append, flowItems_first hend]
    simp only [List.cons_append, List.append_assoc] at hitems
    exact hitems.map fun nodes h => .array m h

theorem parsesFlow_object {ms : List (String × Json)} (hms : ∀ m ∈ ms, ParsesFlow m.2) :
    ParsesFlow (.object ms) := by
  intro g fuel block inMapping anchors us t ts hus hfuel
  obtain ⟨fuel, rfl⟩ : ∃ f, fuel = f + 2 := ⟨fuel - 2, by omega⟩
  cases ms with
  | nil =>
    obtain ⟨m, m', rfl⟩ := exists_of_map_pair hus
    exact ⟨rfl, rfl, .object m .nil⟩
  | cons e es =>
    obtain ⟨k, v⟩ := e
    obtain ⟨m, us', m', rfl, hus'⟩ := exists_of_map_between hus
    rw [List.length_cons, List.length_append, List.length_singleton] at hfuel
    have hmembers := @reads_members g fuel anchors us' (t :: ts) m k v es hms m' hus' (by omega)
    -- The mapping does not end before its first key.
    obtain ⟨u, us₁, rfl, hend⟩ : ∃ u us₁, us' = u :: us₁ ∧ u.kind ≠ .flowMappingEnd := by
      unfold Lexer.keyKinds at hus'
      split at hus' <;> obtain ⟨n, us₁, rfl, -⟩ := exists_of_map_cons hus' <;>
        exact ⟨_, us₁, rfl, by simp⟩
    rw [List.cons_append, List.append_assoc, List.cons_append, List.singleton_append,
      ofTokens_flowMapping, flowEntries_first hend]
    exact hmembers.map fun entries h => .object m h

/-- **The tokens of every value inside of brackets** make a node that shows it. -/
theorem parsesFlow (v : Json) : ParsesFlow v := by
  induction v using Json.induction with
  | null => exact parsesFlow_scalar rfl rfl .null
  | bool b => exact parsesFlow_scalar rfl rfl (.bool · b)
  | int i => exact parsesFlow_scalar rfl rfl (.int · i)
  | float x => exact parsesFlow_scalar rfl rfl (.float · true x)
  | string s => exact parsesFlow_scalar rfl rfl fun m => .string m (by rintro ⟨⟩)
  | array vs ih => exact parsesFlow_array ih
  | object ms ih => exact parsesFlow_object ih

end Node

end ConfigVault.Yaml
