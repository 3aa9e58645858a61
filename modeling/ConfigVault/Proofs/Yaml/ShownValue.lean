import ConfigVault.Proofs.Json.Basic
import ConfigVault.Proofs.Yaml.Node.Shows
import ConfigVault.Proofs.Yaml.Value

/-! # JSON values read for their own sake

A JSON value is a value of a document too (`Value.ofJson`).  A node that shows it is read as it, if
documents can hold it in the first place and no two members of an object have the same name
(`Json.Readable`): `Value.readNested_of_shows`.
-/
namespace ConfigVault

open Yaml Codec

/-- **The value can be read for its own sake** where so many collections can be entered. -/
inductive Json.Readable : Nat → Json → Prop where
  | null (d : Nat) : Readable d .null
  | bool (d : Nat) (b : Bool) : Readable d (.bool b)
  | int (d : Nat) {i : Int} (h : isNarrow i) : Readable d (.int i)
  | float (d : Nat) {x : Binary64} (h : x.IsNormal) : Readable d (.float x)
  | string (d : Nat) (s : String) : Readable d (.string s)
  | array {d : Nat} {vs : List Json} (h : ∀ v ∈ vs, Readable d v) : Readable (d + 1) (.array vs)
  | object {d : Nat} {ms : List (String × Json)} (hnames : (ms.map Prod.fst).Nodup)
    (h : ∀ m ∈ ms, Readable d m.2) : Readable (d + 1) (.object ms)

/-- What can be read can be read where more collections can be entered. -/
theorem Json.Readable.mono {d e : Nat} {v : Json} (h : v.Readable d) (hd : d ≤ e) : v.Readable e := by
  induction h generalizing e with
  | null d => exact .null e
  | bool d b => exact .bool e b
  | int d hi => exact .int e hi
  | float d hx => exact .float e hx
  | string d s => exact .string e s
  | array _ ih =>
    obtain ⟨e, rfl⟩ : ∃ e', e = e' + 1 := ⟨e - 1, by omega⟩
    exact .array fun v hv => ih v hv (by omega)
  | object hnames _ ih =>
    obtain ⟨e, rfl⟩ : ∃ e', e = e' + 1 := ⟨e - 1, by omega⟩
    exact .object hnames fun m hm => ih m hm (by omega)

namespace Yaml.Value

mutual

/-- The value that a JSON value is in a document. -/
def ofJson : Json → Value
  | .null => .null
  | .bool b => .bool b
  | .int i => .int i
  | .float x => .float (.finite x)
  | .string s => .string s
  | .array vs => .sequence (ofJsonItems vs)
  | .object ms => .mapping (ofJsonMembers ms)

/-- The items of a document that the items of an array are. -/
def ofJsonItems : List Json → List Value
  | [] => []
  | v :: vs => ofJson v :: ofJsonItems vs

/-- The entries of a document that the members of an object are. -/
def ofJsonMembers : List (String × Json) → List (Value × Value)
  | [] => []
  | (k, v) :: ms => (.string k, ofJson v) :: ofJsonMembers ms

end

theorem ofJsonItems_eq (vs : List Json) : ofJsonItems vs = vs.map ofJson := by
  induction vs with
  | nil => rfl
  | cons v vs ih => rw [ofJsonItems, ih, List.map_cons]

theorem ofJsonMembers_eq (ms : List (String × Json)) :
    ofJsonMembers ms = ms.map fun m => (.string m.1, ofJson m.2) := by
  induction ms with
  | nil => rfl
  | cons m ms ih => rw [ofJsonMembers, ih, List.map_cons]

theorem ofJson_ne_null {v : Json} (h : v ≠ .null) : ofJson v ≠ .null := by
  cases v with
  | null => exact absurd rfl h
  | _ => simp [ofJson]

/-! ## Reading -/

/-- A scalar without tag is read as its meaning. -/
theorem readNested_scalar {k : Nat} {p : Place} {tagged : Bool} {m : Mark} {style : ScalarStyle}
    {text : String} {v : Value}
    (h : ofScalar text (if style = .plain then resolve text else .string) = .ok v) :
    readNested k p tagged (.scalar m .none style text) = pure v := by
  have hread : readNested k p tagged (.scalar m .none style text) = p.locate m
      (lift (ofScalar text (if style = .plain then resolve text else .string))) := by
    cases k <;> cases tagged <;> rfl
  rw [hread, h]
  rfl

theorem readNested_string {k : Nat} {p : Place} {tagged : Bool} {s : String} {node : Node}
    (h : Shows (.string s) node) : readNested k p tagged node = pure (.string s) := by
  cases h with
  | @string m style s hkeep =>
    apply readNested_scalar
    split
    case isTrue hstyle => rw [hkeep hstyle, ofScalar]
    case isFalse => rfl

theorem readNested_sequence (k : Nat) (p : Place) (tagged : Bool) (m : Mark) (items : List Node) :
    readNested (k + 1) p tagged (.sequence m .none items) = p.locate m
      (p.enter m >>= fun inner =>
        .sequence <$> inner.items (fun p node => readNested k p false node) 0 items) := by
  cases tagged <;> rfl

theorem readNested_mapping (k : Nat) (p : Place) (tagged : Bool) (m : Mark)
    (entries : List (Node × Node)) :
    readNested (k + 1) p tagged (.mapping m .none entries) = p.locate m
      (p.enter m >>= fun inner =>
        Place.entries (addEntry inner (readNested k) tagged) [] entries >>= fun es =>
          pure (.mapping es.reverse)) := by
  cases tagged <;> rfl

/-- Strings are the same value only if they are the same string. -/
theorem any_same_string {es : List (Value × Value)} {names : List String} {k : String}
    (hes : es.map Prod.fst = names.map .string) (hk : k ∉ names) :
    es.any (fun e => same e.1 (.string k)) = false := by
  rw [List.any_eq_false]
  intro e he
  have hmem : e.1 ∈ names.map Value.string := hes ▸ List.mem_map_of_mem he
  obtain ⟨l, hl, hname⟩ := List.mem_map.mp hmem
  rw [← hname, same, beq_iff_eq]
  rintro rfl
  exact hk hl

theorem entries_of_shows {part : NodeReader} {p : Place} {tagged : Bool} {ms : List (String × Json)}
    {entries : List (Node × Node)} (hshows : ShowEntries ms entries)
    (hkey : ∀ (s : String) (node : Node), Shows (.string s) node →
      part p tagged node = pure (.string s))
    (h : ∀ m ∈ ms, ∀ (q : Place) (node : Node), q.depth = p.depth → Shows m.2 node →
      part q false node = pure (ofJson m.2))
    (acc : List (Value × Value)) (names : List String) (hacc : acc.map Prod.fst = names.map .string)
    (hnames : (ms.map Prod.fst).Nodup) (hapart : ∀ m ∈ ms, m.1 ∉ names) :
    Place.entries (addEntry p part tagged) acc entries =
      pure ((ms.map fun m => (.string m.1, ofJson m.2)).reverse ++ acc) := by
  -- On the members: `names` are those read so far, and none of the members has one of them.
  induction ms generalizing entries acc names with
  | nil => cases hshows; rfl
  | cons m ms ih =>
    cases hshows with
    | @cons k v ms key node entries hk hv hms =>
      rw [List.map_cons, List.nodup_cons] at hnames
      have hfresh := any_same_string hacc (hapart (k, v) (by simp))
      have hvalue := h (k, v) (by simp) (p.value key) node (by simp) hv
      have hstep : addEntry p part tagged acc key node = pure ((.string k, ofJson v) :: acc) := by
        rw [addEntry, hkey k key hk, pure_bind, hfresh, if_neg Bool.false_ne_true, hvalue]
        rfl
      have hapart' : ∀ m ∈ ms, m.1 ∉ k :: names := by
        intro m hm
        rw [List.mem_cons, not_or]
        exact ⟨fun he => hnames.1 (List.mem_map.mpr ⟨m, hm, he⟩), hapart m (by simp [hm])⟩
      have hrest := ih hms (fun m hm => h m (by simp [hm])) ((.string k, ofJson v) :: acc)
        (k :: names) (by simp [hacc]) hnames.2 hapart'
      rw [Place.entries, hstep, pure_bind, hrest]
      simp

/-- **A node that shows a JSON value is read as it.** -/
theorem readNested_of_shows {d : Nat} {v : Json} (hv : v.Readable d) {k : Nat} (hk : d ≤ k)
    {p : Place} (hp : d ≤ p.depth) {tagged : Bool} {node : Node} (h : Shows v node) :
    readNested k p tagged node = pure (ofJson v) := by
  induction hv generalizing k p tagged node with
  | null d => cases h; exact readNested_scalar rfl
  | bool d b => cases h; exact readNested_scalar (by cases b <;> rfl)
  | int d hi =>
    cases h
    apply readNested_scalar
    rw [if_pos rfl, resolve_int (isWide_of_isNarrow hi), ofScalar, if_pos hi, ofJson]
  | float d hx =>
    cases h with
    | float m plus x =>
      apply readNested_scalar
      rw [if_pos rfl, resolve_float hx]
      rfl
  | string d s => exact readNested_string h
  | @array d vs _ ih =>
    obtain ⟨k, rfl⟩ : ∃ k', k = k' + 1 := ⟨k - 1, by omega⟩
    cases h with
    | @array m _ nodes hitems =>
      obtain ⟨q, hq, henter⟩ := p.enter_of_lt hp m
      have hread : q.items (fun p node => readNested k p false node) 0 nodes =
          pure (vs.map ofJson) := by
        have hitems : ShowItems (vs.map id) nodes := by rwa [List.map_id]
        refine q.items_of_shows hitems ?_ 0
        intro v hv r node hr hnode
        exact ih v hv (by omega) (by omega) hnode
      rw [readNested_sequence, henter, pure_bind, hread, map_pure, Place.locate_pure, ofJson,
        ofJsonItems_eq]
  | @object d ms hnames _ ih =>
    obtain ⟨k, rfl⟩ : ∃ k', k = k' + 1 := ⟨k - 1, by omega⟩
    cases h with
    | object m hentries =>
      obtain ⟨q, hq, henter⟩ := p.enter_of_lt hp m
      have hmember : ∀ m ∈ ms, ∀ (r : Place) (node : Node), r.depth = q.depth → Shows m.2 node →
          readNested k r false node = pure (ofJson m.2) := by
        intro m hm r node hr hnode
        exact ih m hm (by omega) (by omega) hnode
      have hname : ∀ (s : String) (node : Node), Shows (.string s) node →
          readNested k q tagged node = pure (.string s) := fun _ _ => readNested_string
      have hes := entries_of_shows hentries hname hmember [] [] rfl hnames (by simp)
      rw [readNested_mapping, henter, pure_bind, hes, pure_bind, Place.locate_pure, ofJson,
        ofJsonMembers_eq, List.append_nil, List.reverse_reverse]

end Yaml.Value

end ConfigVault
