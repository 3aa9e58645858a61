import ConfigVault.Proofs.Codec.Reading

/-! # What nodes mean

A node means a value in the scope of its document, whatever the place from which it is read
(`Means`): scalars by their text, style and tag, collections by their parts, and aliases by the nodes
that they refer to.  Every value that is read from a node is one that the node means
(`means_of_readNested`).
-/
namespace ConfigVault.Yaml

open Codec

namespace Value

/-- Behind its own tag, the tag of a node has been taken into account. -/
def isInner (tagged : Bool) (tag : Option (List UInt8)) : Bool := tagged || (ownTag? tag).isSome

/-- A value behind the own tag of its node, if there is one that was not taken into account. -/
def behind (tagged : Bool) (tag : Option (List UInt8)) (v : Value) : Value :=
  match if tagged then none else ownTag? tag with
  | none => v
  | some name => .tagged name v

@[simp] theorem untagged_behind (tagged : Bool) (tag : Option (List UInt8)) (v : Value) :
    (behind tagged tag v).untagged = v.untagged := by
  unfold behind
  split <;> rfl

theorem behind_of_none {tagged : Bool} {tag : Option (List UInt8)} (h : ownTag? tag = none)
    (v : Value) : behind tagged tag v = v := by
  cases tagged <;> simp [behind, h]

/-- What stands behind a tag is not null, and neither is what it stands behind of. -/
theorem behind_ne_null {v : Value} (h : v.untagged ≠ .null) (tagged : Bool)
    (tag : Option (List UInt8)) : behind tagged tag v ≠ .null := by
  intro hnull
  rw [← untagged_behind tagged tag v, hnull] at h
  exact h rfl

theorem behind_of_some {tag : Option (List UInt8)} {name : String} (h : ownTag? tag = some name)
    (v : Value) : behind false tag v = .tagged name v := by
  simp [behind, h]

end Value

mutual

/-- **The node means the value**; whether its tag was taken into account before makes a difference. -/
inductive Means (s : Scope) : Bool → Node → Value → Prop where
  | scalar {tagged : Bool} {m : Mark} {props : Properties} {style : ScalarStyle} {text : String}
    {meaning : Meaning} {v : Value}
    (hmeaning : scalarMeaning (Value.isInner tagged props.tag) props.tag style text = .ok meaning)
    (hv : Value.ofScalar text meaning = .ok v) :
    Means s tagged (.scalar m props style text) (Value.behind tagged props.tag v)
  | sequence {tagged : Bool} {m : Mark} {props : Properties} {items : List Node} {vs : List Value}
    (h : MeanItems s items vs) :
    Means s tagged (.sequence m props items) (Value.behind tagged props.tag (.sequence vs))
  | mapping {tagged : Bool} {m : Mark} {props : Properties} {entries : List (Node × Node)}
    {es : List (Value × Value)} (h : MeanEntries s (Value.isInner tagged props.tag) entries es) :
    Means s tagged (.mapping m props entries) (Value.behind tagged props.tag (.mapping es))
  | alias {tagged : Bool} {m : Mark} {anchor : Nat} {target : Node} {v : Value}
    (hfind : s.find? anchor = some target) (hcontent : ∀ m a, target ≠ .alias m a)
    (h : Means s false target v) : Means s tagged (.alias m anchor) v

/-- The nodes mean the values, one by one. -/
inductive MeanItems (s : Scope) : List Node → List Value → Prop where
  | nil : MeanItems s [] []
  | cons {node : Node} {v : Value} {nodes : List Node} {vs : List Value} (h : Means s false node v)
    (hs : MeanItems s nodes vs) : MeanItems s (node :: nodes) (v :: vs)

/-- The entries mean the entries, in order. -/
inductive MeanEntries (s : Scope) : Bool → List (Node × Node) → List (Value × Value) → Prop where
  | nil {tagged : Bool} : MeanEntries s tagged [] []
  | cons {tagged : Bool} {key node : Node} {k v : Value} {entries : List (Node × Node)}
    {es : List (Value × Value)} (hk : Means s tagged key k) (hv : Means s false node v)
    (hs : MeanEntries s tagged entries es) :
    MeanEntries s tagged ((key, node) :: entries) ((k, v) :: es)

end

/-! ## Places in a scope -/

@[simp] theorem value_scope (p : Place) (key : Node) : (p.value key).scope = p.scope := by
  unfold Place.value
  split <;> rfl

theorem returns_enter_scope (p : Place) (mark : Mark) :
    Returns (p.enter mark) fun q => q.scope = p.scope := by
  unfold Place.enter
  split
  · exact .throw _
  · exact .pure rfl

/-- Following an alias leads to the node that bears the anchor. -/
theorem returns_follow (p : Place) (anchor : Nat) :
    Returns (p.follow anchor) fun node => p.scope.find? anchor = some node := by
  refine (Returns.trivial (get : Reading Nat)).bind fun n _ => ?_
  split
  · exact .throw _
  refine (Returns.trivial (set (n + 1) : Reading PUnit)).bind fun _ _ => ?_
  split
  case h_1 node hnode => exact .pure hnode
  case h_2 => exact .throw _

/-! ## Reading values -/

namespace Value

/-- Reading what stands behind a tag. -/
theorem returns_choice {p : Place} {tagged : Bool} {m : Mark} {tag : Option (List UInt8)}
    {content : Bool → Reading Value} {P : Value → Prop}
    (h : Returns (content (isInner tagged tag)) fun v => P (behind tagged tag v)) :
    Returns (choice p tagged m tag content) P := by
  cases tagged with
  | true => exact .locate h m
  | false =>
    cases hown : ownTag? tag with
    | none =>
      simp only [isInner, behind, hown, Option.isSome_none, Bool.or_false] at h
      simp only [choice, hown]
      exact .locate h m
    | some name =>
      simp only [isInner, behind, hown, Option.isSome_some, Bool.or_true] at h
      simp only [choice, hown]
      exact (Returns.locate h m).map fun v hv => hv

variable {part : NodeReader} {s : Scope}

theorem means_items (hpart : ∀ q : Place, q.scope = s → ∀ node,
    Returns (part q false node) (Means s false node)) {p : Place} (hp : p.scope = s) (i : Nat)
    (nodes : List Node) :
    Returns (p.items (fun p node => part p false node) i nodes) (MeanItems s nodes) := by
  induction nodes generalizing i with
  | nil => exact .pure .nil
  | cons node nodes ih =>
    refine (hpart (p.step (.index i)) hp node).bind fun v hv => ?_
    exact (ih (i + 1)).bind fun vs hvs => .pure (.cons hv hvs)

/-- The entries that are read, latest first, are those that come before and those that are meant. -/
theorem means_entries (hpart : ∀ q : Place, q.scope = s → ∀ tagged node,
    Returns (part q tagged node) (Means s tagged node)) {p : Place} (hp : p.scope = s)
    (tagged : Bool) (acc : List (Value × Value)) (entries : List (Node × Node)) :
    Returns (Place.entries (addEntry p part tagged) acc entries) fun res =>
      ∃ es, res.reverse = acc.reverse ++ es ∧ MeanEntries s tagged entries es := by
  induction entries generalizing acc with
  | nil => exact .pure ⟨[], (List.append_nil _).symm, .nil⟩
  | cons e entries ih =>
    obtain ⟨key, node⟩ := e
    have hstep : Returns (addEntry p part tagged acc key node) fun res =>
        ∃ k v, res = (k, v) :: acc ∧ Means s tagged key k ∧ Means s false node v := by
      refine (hpart p hp tagged key).bind fun k hk => ?_
      split
      · exact .mismatch _
      · have hvalue := hpart (p.value key) ((value_scope p key).trans hp) false node
        exact hvalue.bind fun v hv => .pure ⟨k, v, rfl, hk, hv⟩
    refine hstep.bind fun res ⟨k, v, hres, hk, hv⟩ => (ih res).weaken ?_
    rintro all ⟨es, hall, hes⟩
    refine ⟨(k, v) :: es, ?_, .cons hk hv hes⟩
    rw [hall, hres, List.reverse_cons, List.append_assoc, List.singleton_append]

theorem means_of_ofContent (hpart : ∀ q : Place, q.scope = s → ∀ tagged node,
    Returns (part q tagged node) (Means s tagged node)) {p : Place} (hp : p.scope = s)
    (tagged : Bool) (node : Node) : Returns (ofContent part p tagged node) (Means s tagged node) := by
  cases node with
  | scalar m props style text =>
    rw [ofContent]
    refine returns_choice ?_
    refine .lift fun v hv => ?_
    obtain ⟨meaning, hmeaning, hv⟩ := bind_eq_ok.mp hv
    exact .scalar hmeaning hv
  | sequence m props items =>
    rw [ofContent]
    refine returns_choice ?_
    refine (returns_enter_scope p m).bind fun q hq => ?_
    refine (means_items (fun r hr => hpart r hr false) (hq.trans hp) 0 items).map fun vs hvs => ?_
    exact .sequence hvs
  | mapping m props entries =>
    rw [ofContent]
    refine returns_choice ?_
    refine (returns_enter_scope p m).bind fun q hq => ?_
    refine (means_entries hpart (hq.trans hp) _ [] entries).bind fun res hres => .pure ?_
    obtain ⟨es, hreverse, hes⟩ := hres
    rw [hreverse]
    exact .mapping hes
  | «alias» => exact .throw _
  | cut => exact .throw _

theorem means_of_ofNode (hpart : ∀ q : Place, q.scope = s → ∀ tagged node,
    Returns (part q tagged node) (Means s tagged node)) {p : Place} (hp : p.scope = s)
    (tagged : Bool) (node : Node) : Returns (ofNode part p tagged node) (Means s tagged node) := by
  cases node with
  | «alias» m anchor =>
    refine Returns.locate ((returns_follow p anchor).bind fun target htarget => ?_) m
    by_cases hcontent : ∃ m a, target = .alias m a
    · -- No alias refers to an alias.
      obtain ⟨m, a, rfl⟩ := hcontent
      exact .throw _
    · refine (means_of_ofContent hpart hp false target).weaken fun v hv => ?_
      exact .alias (hp ▸ htarget) (fun m a he => hcontent ⟨m, a, he⟩) hv
  | scalar m props style text => exact means_of_ofContent hpart hp tagged (.scalar m props style text)
  | sequence m props items => exact means_of_ofContent hpart hp tagged (.sequence m props items)
  | mapping m props entries => exact means_of_ofContent hpart hp tagged (.mapping m props entries)
  | cut => exact means_of_ofContent hpart hp tagged .cut

/-- **Whatever value is read from a node, the node means it.** -/
theorem means_of_readNested (k : Nat) {p : Place} (hp : p.scope = s) (tagged : Bool) (node : Node) :
    Returns (readNested k p tagged node) (Means s tagged node) := by
  induction k generalizing p tagged node with
  | zero => exact means_of_ofNode (fun _ _ _ _ => .throw _) hp tagged node
  | succ k ih => exact means_of_ofNode (fun q hq tagged node => ih hq tagged node) hp tagged node

end Value

end ConfigVault.Yaml
