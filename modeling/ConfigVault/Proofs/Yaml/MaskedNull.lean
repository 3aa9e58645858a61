import ConfigVault.Codec.Basic
import ConfigVault.Proofs.Yaml.Means

/-! # Masked nulls

A scalar that means null to a strict reader is one that stands for an absent value to a lenient
reader, and the other way round (`Means.null_iff`), with two odd exceptions: a null tag in front of
text that is not plain, and a tag of one's own that is no text in front of plain text for null.  Such
a scalar masks its null (`isMaskedNull`).  A document without any has none behind its aliases either.
-/
namespace ConfigVault.Yaml

open Codec

/-- The scalar means null, but is not taken for an absent value. -/
def isMaskedNull (tag : Option (List UInt8)) (style : ScalarStyle) (text : String) : Bool :=
  match tag with
  | none => false
  | some t =>
    if t = standardTag "null" then style != .plain && isNullText text
    else
      isOwnTag t && (ownTag? tag).isNone && style == .plain && (text.isEmpty || isNullText text)

namespace Node

mutual

/-- Some scalar in the node masks its null. -/
def masksNull : Node → Bool
  | .scalar _ props style text => isMaskedNull props.tag style text
  | .sequence _ _ items => anyMasksNull items
  | .mapping _ _ entries => entriesMaskNull entries
  | .alias .. => false
  | .cut => false

/-- Some scalar in the nodes masks its null. -/
def anyMasksNull : List Node → Bool
  | [] => false
  | n :: ns => n.masksNull || anyMasksNull ns

/-- Some scalar in the keys and values masks its null. -/
def entriesMaskNull : List (Node × Node) → Bool
  | [] => false
  | (k, v) :: es => k.masksNull || v.masksNull || entriesMaskNull es

end

/-- The node itself, if it bears an anchor, and then its parts. -/
theorem mem_anchor {anchor : Option Nat} {node : Node} {ns : List (Nat × Node)} {a : Nat × Node}
    (h : a ∈ (anchor.map (·, node)).toList ++ ns) : a.2 = node ∨ a ∈ ns := by
  rcases List.mem_append.mp h with h | h
  · obtain ⟨b, -, rfl⟩ := Option.map_eq_some_iff.mp (Option.mem_toList.mp h)
    exact .inl rfl
  · exact .inr h

mutual

/-- **No anchored node masks a null** if none of the document does. -/
theorem anchored_not_masksNull : ∀ {node : Node}, node.masksNull = false →
    ∀ a ∈ node.anchored, a.2.masksNull = false
  | .scalar .., h, a, ha => by
    obtain ⟨b, -, rfl⟩ := Option.map_eq_some_iff.mp (Option.mem_toList.mp ha)
    exact h
  | .sequence m props items, h, a, ha => by
    rcases mem_anchor ha with hself | hpart
    · rw [hself]
      exact h
    · exact anchoredIn_not_masksNull h a hpart
  | .mapping m props entries, h, a, ha => by
    rcases mem_anchor ha with hself | hpart
    · rw [hself]
      exact h
    · exact anchoredInEntries_not_masksNull h a hpart
  | .alias .., _, _, ha => by cases ha
  | .cut, _, _, ha => by cases ha

theorem anchoredIn_not_masksNull : ∀ {nodes : List Node}, anyMasksNull nodes = false →
    ∀ a ∈ anchoredIn nodes, a.2.masksNull = false
  | [], _, _, ha => by cases ha
  | _ :: _, h, a, ha => by
    rw [anyMasksNull, Bool.or_eq_false_iff] at h
    rcases List.mem_append.mp ha with ha | ha
    · exact anchored_not_masksNull h.1 a ha
    · exact anchoredIn_not_masksNull h.2 a ha

theorem anchoredInEntries_not_masksNull : ∀ {entries : List (Node × Node)},
    entriesMaskNull entries = false → ∀ a ∈ anchoredInEntries entries, a.2.masksNull = false
  | [], _, _, ha => by cases ha
  | (_, _) :: _, h, a, ha => by
    rw [entriesMaskNull, Bool.or_eq_false_iff, Bool.or_eq_false_iff] at h
    rcases List.mem_append.mp ha with ha | ha
    · exact anchored_not_masksNull h.1.1 a ha
    rcases List.mem_append.mp ha with ha | ha
    · exact anchored_not_masksNull h.1.2 a ha
    · exact anchoredInEntries_not_masksNull h.2 a ha

end

end Node

/-- No node that an alias may refer to masks a null. -/
def UnmaskedScope (s : Scope) : Prop :=
  ∀ anchor node, s.find? anchor = some node → node.masksNull = false

theorem unmaskedScope_ofDocument {d : Document} (h : d.root.masksNull = false) :
    UnmaskedScope (Scope.ofDocument d) := by
  intro anchor node hfind
  obtain ⟨before, after, hanchored, -⟩ := List.lookup_eq_some_iff.mp hfind
  have hmem : (anchor, node) ∈ d.root.anchored := by
    rw [← List.mem_reverse, show d.root.anchored.reverse = _ from hanchored]
    simp
  exact Node.anchored_not_masksNull h _ hmem

/-! ## Tags -/

theorem head?_standardTag (name : String) : (standardTag name).head? = some 0x74 := by
  unfold standardTag Text.Utf8.encodeString
  rw [String.toList_append, Text.Utf8.encode_append]
  rfl

/-- A tag of one's own is no standard tag. -/
theorem ne_standardTag {t : List UInt8} (h : isOwnTag t = true) (name : String) :
    t ≠ standardTag name := by
  rintro rfl
  rw [isOwnTag, head?_standardTag] at h
  cases h

theorem isOwnTag_of_ownTag? {t : List UInt8} {name : String} (h : ownTag? (some t) = some name) :
    isOwnTag t = true := by
  cases t with
  | nil => cases h
  | cons b bs =>
    rw [ownTag?] at h
    split at h
    case isTrue hb => simp [isOwnTag, hb]
    case isFalse => cases h

/-! ## Nulls and absent values -/

theorem resolve_eq_null_iff {text : String} :
    resolve text = .null ↔ (text.isEmpty || isNullText text) = true := by
  unfold resolve
  split
  case isTrue h => exact ⟨fun _ => h, fun _ => rfl⟩
  case isFalse h =>
    refine ⟨fun hnull => ?_, fun he => absurd he h⟩
    split at hnull
    · cases hnull
    split at hnull
    · cases hnull
    split at hnull
    · cases hnull
    split at hnull <;> cases hnull

/-- A number that is read at all is the number. -/
theorem Value.eq_int_of_ofScalar {text : String} {i : Int} {v : Value}
    (h : ofScalar text (.int i) = .ok v) : v = .int i := by
  rw [ofScalar] at h
  split at h <;> cases h
  rfl

theorem Value.ofScalar_eq_null_iff {text : String} {meaning : Meaning} {v : Value}
    (h : ofScalar text meaning = .ok v) : v = .null ↔ meaning = .null := by
  cases meaning with
  | int i => simp [eq_int_of_ofScalar h]
  | _ => cases h; simp

/-- Where no tag of one's own stands, a scalar means null if and only if it stands for an absent
value, unless it masks its null. -/
theorem scalarMeaning_eq_null_iff {tag : Option (List UInt8)} {style : ScalarStyle} {text : String}
    {meaning : Meaning} (hown : ownTag? tag = none) (hmask : isMaskedNull tag style text = false)
    (h : scalarMeaning false tag style text = .ok meaning) :
    meaning = .null ↔ style = .plain ∧ isAbsent tag text = .ok true := by
  cases tag with
  | none =>
    cases h
    by_cases hstyle : style = .plain
    · simp [hstyle, resolve_eq_null_iff, isAbsent]
    · simp [hstyle]
  | some t =>
    have hstandard {name : String} (hname : standardTag name ≠ standardTag "null")
        (ht : t = standardTag name) : isAbsent (some t) text = .ok false := by
      rw [isAbsent, if_neg (ht ▸ hname)]
    -- A standard tag for a boolean, an integer or a float never means null; the cases behind them
    -- are the null tag and all other tags.
    simp only [scalarMeaning, Bool.false_eq_true, if_false] at h
    split at h
    case isTrue ht =>
      rw [hstandard (by decide) ht]
      split at h <;> cases h
      simp
    split at h
    case isTrue ht =>
      rw [hstandard (by decide) ht]
      split at h <;> cases h
      simp
    split at h
    case isTrue ht =>
      rw [hstandard (by decide) ht]
      split at h <;> cases h
      simp
    split at h
    case isTrue ht =>
      split at h
      case isFalse => cases h
      case isTrue hnull =>
        cases h
        rw [isMaskedNull, if_pos ht, hnull, Bool.and_true, bne_eq_false_iff_eq] at hmask
        rw [isAbsent, if_pos ht, if_pos hnull]
        simp [hmask]
    case isFalse ht =>
      cases h
      rw [isMaskedNull, if_neg ht, hown] at hmask
      rw [isAbsent, if_neg ht]
      split
      case isFalse => simp
      case isTrue hplain =>
        simp only [hplain.1, hplain.2, Option.isNone_none, Bool.and_true, beq_self_eq_true,
          Bool.true_and] at hmask
        simp [resolve_eq_null_iff, hmask]

/-- **A scalar means null if and only if it stands for an absent value**, unless it masks its null. -/
theorem Means.null_iff {s : Scope} {m : Mark} {props : Properties} {style : ScalarStyle}
    {text : String} {v : Value} (h : Means s false (.scalar m props style text) v)
    (hmask : isMaskedNull props.tag style text = false) :
    v = .null ↔ style = .plain ∧ isAbsent props.tag text = .ok true := by
  cases h with
  | @scalar _ _ _ _ _ meaning v hmeaning hv =>
    cases hown : ownTag? props.tag with
    | none =>
      simp only [Value.isInner, hown, Option.isSome_none, Bool.or_false] at hmeaning
      rw [Value.behind_of_none hown, Value.ofScalar_eq_null_iff hv]
      exact scalarMeaning_eq_null_iff hown hmask hmeaning
    | some name =>
      -- A choice is neither null nor absent, even if its content is.
      obtain ⟨t, ht⟩ : ∃ t, props.tag = some t := by
        cases ht : props.tag with
        | none => rw [ht] at hown; cases hown
        | some t => exact ⟨t, rfl⟩
      have hne : t ≠ standardTag "null" := ne_standardTag (isOwnTag_of_ownTag? (ht ▸ hown)) _
      rw [Value.behind_of_some hown, ht, isAbsent, if_neg hne]
      simp

end ConfigVault.Yaml
