import ConfigVault.Proofs.Codec.Reading
import ConfigVault.Proofs.Yaml.Number

/-! # What documents hold

A document that is read for its own sake is a value whose collections are nested no deeper than they
can be entered, and whose floating point numbers are in normal form (`Value.Fits`).  Nothing that is
read from such a value is deeper either.
-/
namespace ConfigVault.Yaml

open Codec

/-- Every finite number that a scalar means is in normal form, whatever its tag. -/
theorem isNormal_of_scalarMeaning {tagged : Bool} {tag : Option (List UInt8)} {style : ScalarStyle}
    {text : String} {x : Binary64}
    (h : scalarMeaning tagged tag style text = .ok (.float (.finite x))) : x.IsNormal := by
  have hplain {P : Prop} [Decidable P]
      (h : (if P then resolve text else .string) = .float (.finite x)) : x.IsNormal := by
    split at h
    · exact isNormal_of_resolve h
    · cases h
  unfold scalarMeaning at h
  dsimp only at h
  split at h
  · exact hplain (Except.ok.inj h)
  · split at h
    · split at h <;> cases h
    split at h
    · split at h <;> cases h
    split at h
    · split at h
      case h_1 y hy =>
        cases h
        exact isNormal_of_float? hy
      case h_2 => cases h
    split at h
    · split at h <;> cases h
    exact hplain (Except.ok.inj h)

/-- **A document can hold the value** where so many collections can be entered. -/
inductive Value.Fits : Nat → Value → Prop where
  | null (d : Nat) : Fits d .null
  | bool (d : Nat) (b : Bool) : Fits d (.bool b)
  | int (d : Nat) (i : Int) : Fits d (.int i)
  | float (d : Nat) {x : ExtendedFloat} (h : ∀ y, x = .finite y → y.IsNormal) : Fits d (.float x)
  | string (d : Nat) (s : String) : Fits d (.string s)
  | sequence {d : Nat} {vs : List Value} (h : ∀ v ∈ vs, Fits d v) : Fits (d + 1) (.sequence vs)
  | mapping {d : Nat} {es : List (Value × Value)} (h : ∀ e ∈ es, Fits d e.2) :
    Fits (d + 1) (.mapping es)
  | tagged {d : Nat} {v : Value} (tag : String) (h : Fits d v) : Fits d (.tagged tag v)

namespace Value

theorem Fits.untagged {d : Nat} {v : Value} (h : v.Fits d) : v.untagged.Fits d := by
  induction h with
  | tagged tag _ ih => exact ih
  | null d => exact .null d
  | bool d b => exact .bool d b
  | int d i => exact .int d i
  | float d h => exact .float d h
  | string d s => exact .string d s
  | sequence h => exact .sequence h
  | mapping h => exact .mapping h

theorem fits_ofScalar {text : String} {meaning : Meaning} (d : Nat)
    (h : ∀ x, meaning = .float (.finite x) → x.IsNormal) :
    Gives (ofScalar text meaning) (Fits d) := by
  cases meaning with
  | null => exact .ok (.null d)
  | bool b => exact .ok (.bool d b)
  | int i =>
    rw [ofScalar]
    split
    · exact .ok (.int d i)
    · exact .error
  | float x => exact .ok (.float d fun y hy => h y (by rw [hy]))
  | string => exact .ok (.string d text)

theorem fits_choice {p : Place} {tagged : Bool} {m : Mark} {tag : Option (List UInt8)}
    {content : Bool → Reading Value} (h : ∀ b, Returns (content b) (Fits p.depth)) :
    Returns (choice p tagged m tag content) (Fits p.depth) := by
  unfold choice
  split
  · exact .locate (h tagged) m
  · exact (Returns.locate (h true) m).map fun v hv => .tagged _ hv

theorem fits_ofContent {part : NodeReader}
    (hpart : ∀ p tagged node, Returns (part p tagged node) (Fits p.depth)) (p : Place)
    (tagged : Bool) (node : Node) : Returns (ofContent part p tagged node) (Fits p.depth) := by
  cases node with
  | scalar m props style text =>
    rw [ofContent]
    refine fits_choice fun tagged => .lift fun v hv => ?_
    obtain ⟨meaning, hmeaning, hv⟩ := bind_eq_ok.mp hv
    exact fits_ofScalar p.depth (fun x hx => isNormal_of_scalarMeaning (hx ▸ hmeaning)) v hv
  | sequence m props items =>
    rw [ofContent]
    refine fits_choice fun _ => (Returns.enter m).bind fun q hq => ?_
    refine (Returns.items (fun r hr node => hr ▸ hpart r false node) 0 items).map fun vs hvs => ?_
    rw [← hq]
    exact .sequence hvs
  | mapping m props entries =>
    rw [ofContent]
    refine fits_choice fun tagged => (Returns.enter m).bind fun q hq => ?_
    have hentries : Returns (Place.entries (addEntry q part tagged) [] entries)
        fun es => ∀ e ∈ es, e.2.Fits q.depth := by
      refine Returns.entries (by simp) (fun es k v hes => ?_) entries
      refine (Returns.trivial (part q tagged k)).bind fun key _ => ?_
      split
      · exact .mismatch _
      · have hvalue := hpart (q.value k) false v
        rw [Place.value_depth] at hvalue
        exact hvalue.bind fun value hvalue => .pure (List.forall_mem_cons.mpr ⟨hvalue, hes⟩)
    refine hentries.bind fun es hes => .pure ?_
    rw [← hq]
    exact .mapping fun e he => hes e (List.mem_reverse.mp he)
  | «alias» => exact .throw _
  | cut => exact .throw _

theorem fits_ofNode {part : NodeReader}
    (hpart : ∀ p tagged node, Returns (part p tagged node) (Fits p.depth)) (p : Place)
    (tagged : Bool) (node : Node) : Returns (ofNode part p tagged node) (Fits p.depth) := by
  cases node with
  | «alias» m anchor =>
    refine Returns.locate ((Returns.trivial _).bind fun target _ => ?_) m
    exact fits_ofContent hpart p false target
  | scalar m props style text => exact fits_ofContent hpart p tagged (.scalar m props style text)
  | sequence m props items => exact fits_ofContent hpart p tagged (.sequence m props items)
  | mapping m props entries => exact fits_ofContent hpart p tagged (.mapping m props entries)
  | cut => exact fits_ofContent hpart p tagged .cut

theorem fits_readNested (k : Nat) (p : Place) (tagged : Bool) (node : Node) :
    Returns (readNested k p tagged node) (Fits p.depth) := by
  induction k generalizing p tagged node with
  | zero => exact fits_ofNode (fun _ _ _ => .throw _) p tagged node
  | succ k ih => exact fits_ofNode ih p tagged node

/-- **Whatever a document is read as fits into it.** -/
theorem fits_read (p : Place) (node : Node) : Returns (read p node) (Fits p.depth) :=
  fits_readNested p.depth p false node

end Value

end ConfigVault.Yaml
