import ConfigVault.Codec.Json
import ConfigVault.Proofs.Codec.Basic
import ConfigVault.Proofs.Yaml.Value

/-! # JSON values in documents

The JSON values that a document can hold at a depth (`Json.Fits`): their collections are nested no
deeper, their integers have 64 bits, their floating point numbers are in normal form and their
members are in order.  Whatever is read fits (`yields_json`), and what fits is read as itself
(`ReadsAs.json`).
-/
namespace ConfigVault

open Yaml

/-- **A document can hold the value** where so many collections can be entered. -/
inductive Json.Fits : Nat → Json → Prop where
  | null (d : Nat) : Fits d .null
  | bool (d : Nat) (b : Bool) : Fits d (.bool b)
  | int (d : Nat) {i : Int} (h : isNarrow i) : Fits d (.int i)
  | float (d : Nat) {x : Binary64} (h : x.IsNormal) : Fits d (.float x)
  | string (d : Nat) (s : String) : Fits d (.string s)
  | array {d : Nat} {vs : List Json} (h : ∀ v ∈ vs, Fits d v) : Fits (d + 1) (.array vs)
  | object {d : Nat} {ms : List (String × Json)} (hs : SortedEntries.Sorted ms)
    (h : ∀ m ∈ ms, Fits d m.2) : Fits (d + 1) (.object ms)

/-- What a document can hold can be read for its own sake. -/
theorem Json.Fits.readable {d : Nat} {v : Json} (h : v.Fits d) : v.Readable d := by
  induction h with
  | null d => exact .null d
  | bool d b => exact .bool d b
  | int d hi => exact .int d hi
  | float d hx => exact .float d hx
  | string d s => exact .string d s
  | array _ ih => exact .array ih
  | object hs _ ih => exact .object hs.nodup ih

namespace Codec

namespace AnyJson

/-! ## Reading what was written -/

/-- A scalar without tag is read as its meaning. -/
theorem readNested_scalar {k : Nat} {p : Place} {m : Mark} {style : ScalarStyle} {text : String}
    {v : Json} (h : ofMeaning text (if style = .plain then resolve text else .string) = .ok v) :
    readNested k p (.scalar m .none style text) = pure v := by
  have hread : readNested k p (.scalar m .none style text) = p.locate m
      (Value.lift (ofMeaning text (if style = .plain then resolve text else .string))) := by
    cases k <;> rfl
  rw [hread, h]
  rfl

theorem readNested_sequence (k : Nat) (p : Place) (m : Mark) (items : List Node) :
    readNested (k + 1) p (.sequence m .none items) = p.locate m
      (p.enter m >>= fun inner => .array <$> inner.items (readNested k) 0 items) := rfl

theorem readNested_mapping (k : Nat) (p : Place) (m : Mark) (entries : List (Node × Node)) :
    readNested (k + 1) p (.mapping m .none entries) = p.locate m
      (p.enter m >>= fun inner =>
        .object <$> Place.entries (addMember (readNested k) inner) [] entries) := rfl

theorem entries_of_shows {read : Place → Node → Reading Json} {p : Place}
    {ms : List (String × Json)} {entries : List (Node × Node)} (hshows : ShowEntries ms entries)
    (h : ∀ m ∈ ms, ∀ (q : Place) (node : Node), q.depth = p.depth → Shows m.2 node →
      read q node = pure m.2) (acc : List (String × Json)) :
    Place.entries (addMember read p) acc entries =
      pure (ms.foldl (fun acc m => SortedEntries.insert m.1 m.2 acc) acc) := by
  induction ms generalizing entries acc with
  | nil => cases hshows; rfl
  | cons m ms ih =>
    cases hshows with
    | @cons k v ms key node entries hk hv hms =>
      have hvalue := h (k, v) (by simp) (p.value key) node (by simp) hv
      rw [Place.entries, addMember, textOfNode_of_shows hk, pure_bind, hvalue, pure_bind, pure_bind,
        ih hms fun m hm => h m (by simp [hm])]
      rfl

/-- **What fits is read as itself.** -/
theorem readNested_of_shows {d : Nat} {v : Json} (hv : v.Fits d) {k : Nat} (hk : d ≤ k) {p : Place}
    (hp : d ≤ p.depth) {node : Node} (h : Shows v node) : readNested k p node = pure v := by
  -- On how the value fits: each collection takes one level of what the place still allows.
  induction hv generalizing k p node with
  | null d => cases h; exact readNested_scalar rfl
  | bool d b => cases h; exact readNested_scalar (by cases b <;> rfl)
  | int d hi =>
    cases h
    apply readNested_scalar
    rw [if_pos rfl, resolve_int (isWide_of_isNarrow hi), ofMeaning, ofInt, if_pos hi]
  | float d hx =>
    cases h with
    | float m plus x =>
      apply readNested_scalar
      rw [if_pos rfl, resolve_float hx]
      rfl
  | string d s =>
    cases h with
    | @string m style s hkeep =>
      apply readNested_scalar
      split
      case isTrue hstyle => rw [hkeep hstyle, ofMeaning]
      case isFalse => rfl
  | @array d vs _ ih =>
    obtain ⟨k, rfl⟩ : ∃ k', k = k' + 1 := ⟨k - 1, by omega⟩
    cases h with
    | @array m _ nodes hitems =>
      obtain ⟨q, hq, henter⟩ := p.enter_of_lt hp m
      have hread : q.items (readNested k) 0 nodes = pure (vs.map id) := by
        have hitems : ShowItems (vs.map id) nodes := by rwa [List.map_id]
        refine q.items_of_shows hitems ?_ 0
        intro v hv r node hr hnode
        exact ih v hv (by omega) (by omega) hnode
      rw [readNested_sequence, henter, pure_bind, hread, map_pure, Place.locate_pure, List.map_id]
  | @object d ms hs _ ih =>
    obtain ⟨k, rfl⟩ : ∃ k', k = k' + 1 := ⟨k - 1, by omega⟩
    cases h with
    | object m hentries =>
      obtain ⟨q, hq, henter⟩ := p.enter_of_lt hp m
      have hsorted : SortedEntries.Sorted ([] ++ ms) := hs
      have hmember : ∀ m ∈ ms, ∀ (r : Place) (node : Node), r.depth = q.depth → Shows m.2 node →
          readNested k r node = pure m.2 := by
        intro m hm r node hr hnode
        exact ih m hm (by omega) (by omega) hnode
      rw [readNested_mapping, henter, pure_bind, entries_of_shows hentries hmember, map_pure,
        Place.locate_pure, SortedEntries.foldl_insert hsorted, List.nil_append]

theorem ofItems_ofJson {vs : List Json} (h : ∀ v ∈ vs, ofValue (Value.ofJson v) = .ok v) :
    ofItems (Value.ofJsonItems vs) = .ok vs := by
  induction vs with
  | nil => rfl
  | cons v vs ih =>
    have hvs := ih fun w hw => h w (by simp [hw])
    rw [Value.ofJsonItems, ofItems, h v (by simp), hvs]
    rfl

theorem ofEntries_ofJson {ms : List (String × Json)}
    (h : ∀ m ∈ ms, ofValue (Value.ofJson m.2) = .ok m.2) (acc : List (String × Json)) :
    ofEntries acc (Value.ofJsonMembers ms) =
      .ok (ms.foldl (fun acc m => SortedEntries.insert m.1 m.2 acc) acc) := by
  induction ms generalizing acc with
  | nil => rfl
  | cons m ms ih =>
    have hkey : textOfValue (keyText acc.isEmpty) (.string m.1) = .ok m.1 := rfl
    have hms := ih fun n hn => h n (by simp [hn])
    rw [Value.ofJsonMembers, ofEntries, hkey, h m (by simp), List.foldl_cons, ← hms]
    rfl

/-- **What fits is itself as a value, too.** -/
theorem ofValue_ofJson {d : Nat} {v : Json} (hv : v.Fits d) : ofValue (Value.ofJson v) = .ok v := by
  induction hv with
  | int d hi => rw [Value.ofJson, ofValue, ofInt, if_pos hi]
  | array _ ih => rw [Value.ofJson, ofValue, ofItems_ofJson ih]; rfl
  | @object d ms hs _ ih =>
    have hsorted : SortedEntries.Sorted ([] ++ ms) := hs
    rw [Value.ofJson, ofValue, ofEntries_ofJson ih, SortedEntries.foldl_insert hsorted]
    rfl
  | _ => rfl

/-! ## What can be read -/

/-- Members that an object can hold, where so many collections can be entered in it. -/
structure MembersFit (d : Nat) (ms : List (String × Json)) : Prop where
  sorted : SortedEntries.Sorted ms
  fits : ∀ m ∈ ms, m.2.Fits d

theorem MembersFit.nil (d : Nat) : MembersFit d [] := ⟨.nil, by simp⟩

/-- **One more member that fits** keeps the members in order and fitting. -/
theorem MembersFit.insert {d : Nat} {ms : List (String × Json)} (hms : MembersFit d ms)
    (name : String) {v : Json} (hv : v.Fits d) :
    MembersFit d (SortedEntries.insert name v ms) where
  sorted := SortedEntries.sorted_insert hms.sorted
  fits := by
    intro m hm
    rcases SortedEntries.mem_insert hm with rfl | hm
    · exact hv
    · exact hms.fits m hm

theorem MembersFit.object {d : Nat} {ms : List (String × Json)} (hms : MembersFit d ms) :
    (Json.object ms).Fits (d + 1) :=
  .object hms.sorted hms.fits

theorem fits_ofInt (d : Nat) (i : Int) : Gives (ofInt i) (Json.Fits d) := by
  rw [ofInt]
  split
  case isTrue hi => exact .ok (.int d hi)
  case isFalse => exact .error

theorem fits_ofFloat (d : Nat) {x : ExtendedFloat} (h : ∀ y, x = .finite y → y.IsNormal) :
    (ofFloat x).Fits d := by
  cases x with
  | finite y => exact .float d (h y rfl)
  | infinite => exact .null d
  | nan => exact .null d

theorem fits_ofMeaning {text : String} {meaning : Meaning} (d : Nat)
    (h : ∀ x, meaning = .float (.finite x) → x.IsNormal) :
    Gives (ofMeaning text meaning) (Json.Fits d) := by
  cases meaning with
  | null => exact .ok (.null d)
  | bool b => exact .ok (.bool d b)
  | int i => exact fits_ofInt d i
  | float x => exact .ok (fits_ofFloat d fun y hy => h y (by rw [hy]))
  | string => exact .ok (.string d text)

theorem membersFit_addMember {read : Place → Node → Reading Json}
    (hread : ∀ p node, Returns (read p node) (Json.Fits p.depth)) (p : Place)
    {ms : List (String × Json)} (hms : MembersFit p.depth ms) (k v : Node) :
    Returns (addMember read p ms k v) (MembersFit p.depth) := by
  have hvalue := hread (p.value k) v
  rw [Place.value_depth] at hvalue
  refine (Returns.trivial _).bind fun name _ => ?_
  exact hvalue.bind fun value hvalue => .pure (hms.insert name hvalue)

theorem fits_ofContent {read : Place → Node → Reading Json}
    (hread : ∀ p node, Returns (read p node) (Json.Fits p.depth)) (p : Place) (node : Node) :
    Returns (ofContent read p node) (Json.Fits p.depth) := by
  refine Returns.locate ?_ _
  split
  · exact .mismatch _
  · cases node with
    | scalar m props style text =>
      refine .lift fun v hv => ?_
      obtain ⟨meaning, hmeaning, hv⟩ := bind_eq_ok.mp hv
      exact fits_ofMeaning p.depth (fun x hx => isNormal_of_scalarMeaning (hx ▸ hmeaning)) v hv
    | sequence m props items =>
      refine (Returns.enter m).bind fun q hq => ?_
      refine (Returns.items (fun r hr node => hr ▸ hread r node) 0 items).map fun vs hvs => ?_
      rw [← hq]
      exact .array hvs
    | mapping m props entries =>
      refine (Returns.enter m).bind fun q hq => ?_
      have hentries : Returns (Place.entries (addMember read q) [] entries) (MembersFit q.depth) :=
        Returns.entries (.nil _) (fun _ k v hms => membersFit_addMember hread q hms k v) entries
      refine hentries.map fun ms hms => ?_
      rw [← hq]
      exact hms.object
    | «alias» => exact .throw _
    | cut => exact .throw _

theorem fits_ofNode {read : Place → Node → Reading Json}
    (hread : ∀ p node, Returns (read p node) (Json.Fits p.depth)) (p : Place) (node : Node) :
    Returns (ofNode read p node) (Json.Fits p.depth) := by
  cases node with
  | «alias» m anchor =>
    exact Returns.locate ((Returns.trivial _).bind fun target _ => fits_ofContent hread p target) m
  | cut => exact .throw _
  | scalar m props style text => exact fits_ofContent hread p (.scalar m props style text)
  | sequence m props items => exact fits_ofContent hread p (.sequence m props items)
  | mapping m props entries => exact fits_ofContent hread p (.mapping m props entries)

/-- **Whatever is read fits**: every collection takes one from the depth that is left. -/
theorem fits_readNested (k : Nat) (p : Place) (node : Node) :
    Returns (readNested k p node) (Json.Fits p.depth) := by
  induction k generalizing p node with
  | zero => exact fits_ofNode (fun _ _ => .throw _) p node
  | succ k ih => exact fits_ofNode ih p node

theorem fits_ofItems {d : Nat} {vs : List Value}
    (h : ∀ v ∈ vs, Gives (ofValue v) (Json.Fits d)) :
    Gives (ofItems vs) fun xs => ∀ x ∈ xs, x.Fits d := by
  induction vs with
  | nil => exact .ok (by simp)
  | cons v vs ih =>
    refine (h v (by simp)).bind fun x hx => ?_
    refine (ih fun w hw => h w (by simp [hw])).bind fun xs hxs => .pure ?_
    exact List.forall_mem_cons.mpr ⟨hx, hxs⟩

theorem membersFit_ofEntries {d : Nat} {es : List (Value × Value)}
    (h : ∀ e ∈ es, Gives (ofValue e.2) (Json.Fits d)) {ms : List (String × Json)}
    (hms : MembersFit d ms) : Gives (ofEntries ms es) (MembersFit d) := by
  induction es generalizing ms with
  | nil => exact .ok hms
  | cons e es ih =>
    refine (Gives.trivial _).bind fun name _ => (h e (by simp)).bind fun value hvalue => ?_
    exact ih (fun f hf => h f (by simp [hf])) (hms.insert name hvalue)

/-- **What is read from a value fits where the value does.** -/
theorem fits_ofValue {d : Nat} {v : Value} (hv : v.Fits d) : Gives (ofValue v) (Json.Fits d) := by
  induction hv with
  | null d => exact .ok (.null d)
  | bool d b => exact .ok (.bool d b)
  | int d i => exact fits_ofInt d i
  | float d h => exact .ok (fits_ofFloat d h)
  | string d s => exact .ok (.string d s)
  | sequence _ ih => exact (fits_ofItems ih).map fun _ hxs => .array hxs
  | @mapping d _ _ ih => exact (membersFit_ofEntries ih (.nil d)).map fun _ hms => hms.object
  | tagged tag _ _ => exact .error

end AnyJson

theorem yields_json : Yields json Json.Fits := fun p node => AnyJson.fits_readNested p.depth p node

theorem ReadsAs.json {d : Nat} {v : Json} (h : v.Fits d) : ReadsAs json d v v where
  ofNode _ _ hp hshows := AnyJson.readNested_of_shows h hp hp hshows
  readable := h.readable
  ofValue := AnyJson.ofValue_ofJson h

theorem Faithful.json (k : Nat) : Faithful json k Json.Fits id :=
  ⟨yields_json, fun _ hv => .json hv⟩

end Codec

end ConfigVault
