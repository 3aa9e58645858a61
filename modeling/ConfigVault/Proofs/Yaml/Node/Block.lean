import ConfigVault.Proofs.Yaml.Layout
import ConfigVault.Proofs.Yaml.Node.Shows
import ConfigVault.Yaml.Node.OfTokens

/-! # The nodes of written text

The tokens of a written value make a node that shows the value (`parses`), and nothing else is taken
from the tokens that follow.  A list that is flush with its key has no token at its end; it is over
because what follows is no item.
-/
namespace ConfigVault.Yaml.Node

open Token (Kind)

/-! ## One token -/

section Tokens

variable {g : Grammar} {fuel : Nat} {block inMapping : Bool} {anchors : Anchors} {m : Mark}
  {ts : List Token}

theorem ofTokens_scalar (text : String) (style : ScalarStyle) :
    ofTokens g (fuel + 1) block inMapping anchors (⟨.scalar text style, m⟩ :: ts) =
      ⟨.scalar m .none style text, anchors, .ok ts⟩ := rfl

theorem ofTokens_flowSequence :
    ofTokens g (fuel + 1) block inMapping anchors (⟨.flowSequenceStart, m⟩ :: ts) =
      (flowItems g fuel m true anchors ts).map (.sequence m .none) := rfl

theorem ofTokens_flowMapping :
    ofTokens g (fuel + 1) block inMapping anchors (⟨.flowMappingStart, m⟩ :: ts) =
      (flowEntries g fuel m true anchors ts).map (.mapping m .none) := rfl

theorem ofTokens_blockSequence :
    ofTokens g (fuel + 1) true inMapping anchors (⟨.blockSequenceStart, m⟩ :: ts) =
      (blockItems g fuel m anchors ts).map (.sequence m .none) := rfl

theorem ofTokens_blockMapping :
    ofTokens g (fuel + 1) true inMapping anchors (⟨.blockMappingStart, m⟩ :: ts) =
      (blockEntries g fuel m anchors ts).map (.mapping m .none) := rfl

theorem ofTokens_flush :
    ofTokens g (fuel + 1) true true anchors (⟨.blockEntry, m⟩ :: ts) =
      (flushItems g fuel anchors (⟨.blockEntry, m⟩ :: ts)).map (.sequence m .none) := rfl

end Tokens

/-! ## Values -/

/-- The first token of a value in block layout begins a node. -/
theorem kindsOf_eq_cons (flush : Bool) (v : Json) :
    ∃ k ks, kindsOf flush v = k :: ks ∧ (k = .blockEntry → flush = true) ∧ k ≠ .blockEnd ∧
      k ≠ .key ∧ k ≠ .value := by
  cases v with
  | array vs =>
    cases vs with
    | nil => exact ⟨_, _, rfl, by simp, by simp, by simp, by simp⟩
    | cons v vs =>
      cases flush with
      | true => exact ⟨_, _, rfl, fun _ => rfl, by simp, by simp, by simp⟩
      | false => exact ⟨_, _, rfl, by simp, by simp, by simp, by simp⟩
  | object ms =>
    cases ms with
    | nil => exact ⟨_, _, rfl, by simp, by simp, by simp, by simp⟩
    | cons m ms => exact ⟨_, _, rfl, by simp, by simp, by simp, by simp⟩
  | string s => exact ⟨_, _, rfl, by simp [stringKind], by simp [stringKind], by simp [stringKind],
      by simp [stringKind]⟩
  | _ => exact ⟨_, _, rfl, by simp [wordKind], by simp [wordKind], by simp [wordKind],
      by simp [wordKind]⟩

/-- **The tokens of a value make a node that shows it**, in front of a token that is no item. -/
def Parses (flush : Bool) (v : Json) : Prop :=
  ∀ (g : Grammar) (fuel : Nat) (inMapping : Bool) (anchors : Anchors) (us : List Token) (t : Token)
    (ts : List Token), us.map Token.kind = kindsOf flush v → 2 * us.length + 2 ≤ fuel →
      (flush = true → inMapping = true ∧ t.kind ≠ .blockEntry) →
        ∃ node, ofTokens g fuel true inMapping anchors (us ++ t :: ts) =
          ⟨node, anchors, .ok (t :: ts)⟩ ∧ Shows v node

/-- What is left of a list of tokens when the first kinds are taken. -/
theorem exists_of_map_append {us : List Token} {ks ls : List Kind}
    (h : us.map Token.kind = ks ++ ls) :
    ∃ vs ws, us = vs ++ ws ∧ vs.map Token.kind = ks ∧ ws.map Token.kind = ls := by
  obtain ⟨vs, ws, rfl, hvs, hws⟩ := List.map_eq_append_iff.mp h
  exact ⟨vs, ws, rfl, hvs, hws⟩

theorem exists_of_map_cons {us : List Token} {k : Kind} {ks : List Kind}
    (h : us.map Token.kind = k :: ks) :
    ∃ m us', us = ⟨k, m⟩ :: us' ∧ us'.map Token.kind = ks := by
  obtain ⟨t, us', rfl, rfl, hus⟩ := List.map_eq_cons_iff.mp h
  exact ⟨t.mark, us', rfl, hus⟩

theorem exists_of_map_singleton {us : List Token} {k : Kind} (h : us.map Token.kind = [k]) :
    ∃ m, us = [⟨k, m⟩] := by
  obtain ⟨m, us', rfl, hnil⟩ := exists_of_map_cons h
  exact ⟨m, by rw [List.map_eq_nil_iff.mp hnil]⟩

/-- What stands between two tokens. -/
theorem exists_of_map_between {us : List Token} {k l : Kind} {ks : List Kind}
    (h : us.map Token.kind = k :: (ks ++ [l])) :
    ∃ m us' m', us = ⟨k, m⟩ :: (us' ++ [⟨l, m'⟩]) ∧ us'.map Token.kind = ks := by
  obtain ⟨m, us₁, rfl, hus₁⟩ := exists_of_map_cons h
  obtain ⟨us₂, ws, rfl, hus₂, hws⟩ := exists_of_map_append hus₁
  obtain ⟨m', rfl⟩ := exists_of_map_singleton hws
  exact ⟨m, us₂, m', rfl, hus₂⟩

theorem exists_of_map_pair {us : List Token} {k l : Kind} (h : us.map Token.kind = [k, l]) :
    ∃ m m', us = [⟨k, m⟩, ⟨l, m'⟩] := by
  obtain ⟨m, us', m', rfl, hnil⟩ := @exists_of_map_between us k l [] h
  exact ⟨m, m', by rw [List.map_eq_nil_iff.mp hnil]; rfl⟩

/-- A value of one token. -/
theorem parses_scalar {flush : Bool} {v : Json} {text : String} {style : ScalarStyle}
    (hk : kindsOf flush v = [.scalar text style])
    (h : ∀ m, Shows v (.scalar m .none style text)) : Parses flush v := by
  intro g fuel inMapping anchors us t ts hus hfuel _
  rw [hk] at hus
  obtain ⟨m, rfl⟩ := exists_of_map_singleton hus
  obtain ⟨fuel, rfl⟩ : ∃ f, fuel = f + 1 := ⟨fuel - 1, by omega⟩
  exact ⟨_, ofTokens_scalar text style, h m⟩

theorem keepsText_styleOf (s : String) : KeepsText (styleOf s) s := by
  intro hplain
  rcases Style.styleOf_cases s with ⟨-, hq, -⟩ | ⟨h, -⟩ | h | ⟨h, -⟩
  · simp only [Style.needsQuotes, Bool.or_eq_false_iff, bne_eq_false_iff_eq] at hq
    exact hq.1
  · rw [h] at hplain; cases hplain
  · rw [h] at hplain; cases hplain
  · rw [h] at hplain; cases hplain

theorem parses_string (flush : Bool) (s : String) : Parses flush (.string s) :=
  parses_scalar rfl fun m => .string m (keepsText_styleOf s)

section Collections

variable {g : Grammar} {fuel : Nat} {anchors : Anchors} {t u : Token} {us ts : List Token}

theorem blockItems_cons (began n : Mark) (hentry : u.kind ≠ .blockEntry) (hend : u.kind ≠ .blockEnd) :
    blockItems g (fuel + 1) began anchors (⟨.blockEntry, n⟩ :: u :: us) =
      (ofTokens g fuel true false anchors (u :: us)).andMore fun anchors ts =>
        blockItems g fuel began anchors ts := by
  simp [blockItems, hentry, hend]

theorem flushItems_cons (n : Mark) (hentry : u.kind ≠ .blockEntry) (hend : endsBlockPart u = false) :
    flushItems g (fuel + 1) anchors (⟨.blockEntry, n⟩ :: u :: us) =
      (ofTokens g fuel true false anchors (u :: us)).andMore fun anchors ts =>
        flushItems g fuel anchors ts := by
  simp [flushItems, hentry, hend]

theorem flushItems_end (h : t.kind ≠ .blockEntry) :
    flushItems g (fuel + 1) anchors (t :: ts) = ⟨[], anchors, .ok (t :: ts)⟩ := by
  unfold flushItems
  split
  · rename_i heq; exact absurd heq h
  · rfl

theorem blockEntries_cons (began n : Mark) (hend : endsBlockPart u = false) :
    blockEntries g (fuel + 1) began anchors (⟨.key, n⟩ :: u :: us) =
      ((ofTokens g fuel true true anchors (u :: us)).andValue fun anchors ts =>
        blockValue g fuel anchors ts).andEntries fun anchors ts =>
          blockEntries g fuel began anchors ts := by
  simp [blockEntries, hend]

theorem blockValue_cons (n : Mark) (hend : endsBlockPart u = false) :
    blockValue g (fuel + 1) anchors (⟨.value, n⟩ :: u :: us) =
      ofTokens g fuel true true anchors (u :: us) := by
  simp [blockValue, hend]

/-- A value does not end where it begins. -/
theorem exists_of_kindsOf {flush : Bool} {v : Json} (h : us.map Token.kind = kindsOf flush v) :
    ∃ u us', us = u :: us' ∧ (u.kind = .blockEntry → flush = true) ∧ u.kind ≠ .blockEnd ∧
      endsBlockPart u = false := by
  obtain ⟨k, ks, hk, hentry, hend, hkey, hvalue⟩ := kindsOf_eq_cons flush v
  rw [hk] at h
  obtain ⟨m, us', rfl, -⟩ := exists_of_map_cons h
  exact ⟨_, us', rfl, hentry, hend, by simp [endsBlockPart, hend, hkey, hvalue]⟩

/-- **Items one after the other**, up to a token that ends them, for whatever goes from one item to
the next. -/
theorem items_eq {r : Nat → Anchors → List Token → Parsed (List Node)} {ts rest : List Token}
    (hcons : ∀ {fuel : Nat} {anchors : Anchors} {n : Mark} {u : Token} {us : List Token},
      u.kind ≠ .blockEntry → u.kind ≠ .blockEnd → endsBlockPart u = false →
        r (fuel + 1) anchors (⟨.blockEntry, n⟩ :: u :: us) =
          (ofTokens g fuel true false anchors (u :: us)).andMore (r fuel))
    (hend : ∀ {fuel : Nat} {anchors : Anchors},
      r (fuel + 1) anchors (t :: ts) = ⟨[], anchors, .ok rest⟩)
    {vs : List Json} (hvs : ∀ v ∈ vs, Parses false v) (anchors : Anchors)
    (hus : us.map Token.kind = itemKinds vs) (hfuel : 2 * us.length + 1 ≤ fuel) :
    ∃ nodes, r fuel anchors (us ++ t :: ts) = ⟨nodes, anchors, .ok rest⟩ ∧ ShowItems vs nodes := by
  -- On the items: each takes its own tokens, for which a part of the fuel is enough.
  induction vs generalizing us fuel with
  | nil =>
    obtain rfl := List.map_eq_nil_iff.mp hus
    obtain ⟨fuel, rfl⟩ : ∃ f, fuel = f + 1 := ⟨fuel - 1, by omega⟩
    exact ⟨[], hend, .nil⟩
  | cons v vs ih =>
    obtain ⟨n, us₁, rfl, hus₁⟩ := exists_of_map_cons hus
    obtain ⟨us₂, ws, rfl, hus₂, hws⟩ := exists_of_map_append hus₁
    obtain ⟨fuel, rfl⟩ : ∃ f, fuel = f + 1 := ⟨fuel - 1, by omega⟩
    simp only [List.length_cons, List.length_append] at hfuel
    obtain ⟨u, us₃, hu, hentry, hblock, hpart⟩ := exists_of_kindsOf hus₂
    obtain ⟨t', ts', hnext⟩ : ∃ t' ts', ws ++ t :: ts = t' :: ts' :=
      List.exists_cons_of_ne_nil (by simp)
    obtain ⟨node, hnode, hshows⟩ := hvs v (by simp) g fuel false anchors us₂ t' ts' hus₂ (by omega)
      (by simp)
    obtain ⟨nodes, hnodes, hshow⟩ := ih (fun v hv => hvs v (by simp [hv])) hws
      (show _ ≤ fuel by omega)
    refine ⟨node :: nodes, ?_, .cons hshows hshow⟩
    rw [List.cons_append, List.append_assoc, hnext, hu, List.cons_append,
      hcons (fun he => by cases hentry he) hblock hpart, ← List.cons_append, ← hu, hnode, ← hnext]
    simp [Parsed.andMore, hnodes]

/-- **The items of a block sequence**, up to and with its end. -/
theorem blockItems_eq {vs : List Json} (hvs : ∀ v ∈ vs, Parses false v) (began m : Mark)
    (anchors : Anchors) (ts : List Token) (hus : us.map Token.kind = itemKinds vs)
    (hfuel : 2 * us.length + 1 ≤ fuel) :
    ∃ nodes, blockItems g fuel began anchors (us ++ ⟨.blockEnd, m⟩ :: ts) =
      ⟨nodes, anchors, .ok ts⟩ ∧ ShowItems vs nodes :=
  items_eq (r := fun fuel => blockItems g fuel began)
    (fun hentry hend _ => blockItems_cons began _ hentry hend) rfl hvs anchors hus hfuel

/-- **The items of a flush sequence**, up to a token that is no item. -/
theorem flushItems_eq {vs : List Json} (hvs : ∀ v ∈ vs, Parses false v) (ht : t.kind ≠ .blockEntry)
    (anchors : Anchors) (ts : List Token) (hus : us.map Token.kind = itemKinds vs)
    (hfuel : 2 * us.length + 1 ≤ fuel) :
    ∃ nodes, flushItems g fuel anchors (us ++ t :: ts) = ⟨nodes, anchors, .ok (t :: ts)⟩ ∧
      ShowItems vs nodes :=
  items_eq (r := flushItems g) (fun hentry _ hpart => flushItems_cons _ hentry hpart)
    (flushItems_end ht) hvs anchors hus hfuel

/-- **The entries of a block mapping**, up to and with its end. -/
theorem blockEntries_eq {es : List (String × Json)}
    (hes : ∀ e ∈ es, ∀ flush, Parses flush e.2) (began m : Mark)
    (anchors : Anchors) (ts : List Token) (hus : us.map Token.kind = entryKinds es)
    (hfuel : 2 * us.length + 1 ≤ fuel) :
    ∃ entries, blockEntries g fuel began anchors (us ++ ⟨.blockEnd, m⟩ :: ts) =
      ⟨entries, anchors, .ok ts⟩ ∧ ShowEntries es entries := by
  induction es generalizing us fuel with
  | nil =>
    obtain rfl := List.map_eq_nil_iff.mp hus
    obtain ⟨fuel, rfl⟩ : ∃ f, fuel = f + 1 := ⟨fuel - 1, by omega⟩
    exact ⟨[], rfl, .nil⟩
  | cons e es ih =>
    obtain ⟨k, v⟩ := e
    obtain ⟨n, us₁, rfl, hus₁⟩ := exists_of_map_cons hus
    obtain ⟨nk, us₂, rfl, hus₂⟩ := exists_of_map_cons hus₁
    obtain ⟨nv, us₃, rfl, hus₃⟩ := exists_of_map_cons hus₂
    obtain ⟨us₄, ws, rfl, hus₄, hws⟩ := exists_of_map_append hus₃
    obtain ⟨fuel, rfl⟩ : ∃ f, fuel = f + 2 := ⟨fuel - 2, by simp at hfuel; omega⟩
    simp only [List.length_cons, List.length_append] at hfuel
    obtain ⟨u, us₅, hu, -, -, hend⟩ := exists_of_kindsOf hus₄
    -- What follows the value is the next key or the end, so a flush list is over there.
    obtain ⟨t', ts', hnext, ht'⟩ : ∃ t' ts', ws ++ ⟨.blockEnd, m⟩ :: ts = t' :: ts' ∧
        t'.kind ≠ .blockEntry := by
      cases es with
      | nil =>
        obtain rfl := List.map_eq_nil_iff.mp hws
        exact ⟨_, _, rfl, by simp⟩
      | cons e es =>
        obtain ⟨m', ws, rfl, -⟩ := exists_of_map_cons hws
        exact ⟨_, _, rfl, by simp⟩
    obtain ⟨node, hnode, hshows⟩ := hes (k, v) (by simp) (Writer.isSimpleKey k) g fuel true anchors
      us₄ t' ts' hus₄ (by omega) (fun _ => ⟨rfl, ht'⟩)
    obtain ⟨entries, hentries, hshow⟩ := ih (fun e he => hes e (by simp [he])) hws
      (show _ ≤ fuel + 1 by omega)
    refine ⟨(.scalar nk .none (styleOf k) k, node) :: entries, ?_,
      .cons (.string nk (keepsText_styleOf k)) hshows hshow⟩
    simp only [List.cons_append, List.append_assoc]
    rw [blockEntries_cons began n (by simp [endsBlockPart, stringKind]), stringKind,
      ofTokens_scalar, hnext, hu, List.cons_append]
    simp only [Parsed.andValue]
    rw [blockValue_cons nv hend, ← List.cons_append, ← hu, hnode, ← hnext]
    simp [Parsed.andEntries, hentries]

end Collections

theorem parses_array {vs : List Json} (hvs : ∀ v ∈ vs, Parses false v) (flush : Bool) :
    Parses flush (.array vs) := by
  intro g fuel inMapping anchors us t ts hus hfuel hflush
  obtain ⟨fuel, rfl⟩ : ∃ f, fuel = f + 2 := ⟨fuel - 2, by omega⟩
  cases vs with
  | nil =>
    obtain ⟨m, m', rfl⟩ := exists_of_map_pair hus
    exact ⟨_, rfl, .array m .nil⟩
  | cons v vs =>
    cases flush with
    | false =>
      obtain ⟨m, us', m', rfl, hus'⟩ := exists_of_map_between hus
      obtain ⟨nodes, hnodes, hshow⟩ := blockItems_eq (g := g) hvs m m' anchors (t :: ts) hus'
        (show _ ≤ fuel + 1 by simp at hfuel; omega)
      refine ⟨.sequence m .none nodes, ?_, .array m hshow⟩
      rw [List.cons_append, ofTokens_blockSequence, List.append_assoc, List.singleton_append,
        hnodes]
      rfl
    | true =>
      obtain ⟨rfl, ht⟩ := hflush rfl
      have hus' : us.map Token.kind = itemKinds (v :: vs) := hus
      obtain ⟨m, us₁, rfl, hus₁⟩ := exists_of_map_cons hus'
      obtain ⟨nodes, hnodes, hshow⟩ := flushItems_eq (g := g) hvs ht anchors ts hus
        (show _ ≤ fuel + 1 by omega)
      refine ⟨.sequence m .none nodes, ?_, .array m hshow⟩
      rw [List.cons_append, ofTokens_flush, ← List.cons_append, hnodes]
      rfl

theorem parses_object {ms : List (String × Json)} (hms : ∀ m ∈ ms, ∀ flush, Parses flush m.2)
    (flush : Bool) : Parses flush (.object ms) := by
  intro g fuel inMapping anchors us t ts hus hfuel hflush
  obtain ⟨fuel, rfl⟩ : ∃ f, fuel = f + 2 := ⟨fuel - 2, by omega⟩
  cases ms with
  | nil =>
    obtain ⟨m, m', rfl⟩ := exists_of_map_pair hus
    exact ⟨_, rfl, .object m .nil⟩
  | cons e es =>
    obtain ⟨m, us', m', rfl, hus'⟩ := exists_of_map_between hus
    obtain ⟨entries, hentries, hshow⟩ := blockEntries_eq (g := g) hms m m' anchors (t :: ts) hus'
      (show _ ≤ fuel + 1 by simp at hfuel; omega)
    refine ⟨.mapping m .none entries, ?_, .object m hshow⟩
    rw [List.cons_append, ofTokens_blockMapping, List.append_assoc, List.singleton_append,
      hentries]
    rfl

/-- **The tokens of every value make a node that shows it.** -/
theorem parses (flush : Bool) (v : Json) : Parses flush v := by
  induction v using Json.induction generalizing flush with
  | null => exact parses_scalar rfl .null
  | bool b =>
    refine parses_scalar ?_ (.bool · b)
    cases b <;> rfl
  | int i =>
    refine parses_scalar ?_ (.int · i)
    rw [kindsOf, wordKind, Writer.inline?, Option.getD_some, String.ofList_toList] <;> simp
  | float x => exact parses_scalar rfl (.float · false x)
  | string s => exact parses_string flush s
  | array vs ih => exact parses_array (fun v hv => ih v hv false) flush
  | object ms ih => exact parses_object ih flush

end ConfigVault.Yaml.Node
