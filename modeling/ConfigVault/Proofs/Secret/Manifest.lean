import ConfigVault.Proofs.Maps
import ConfigVault.Proofs.Secret.Codec
import ConfigVault.Secret.Manifest
import ConfigVault.SecretKubeconfig

/-! # Manifests in YAML are read back

A secret that was read from a manifest or made from a kubeconfig (`Secret.IsMade`) is read back from
its YAML manifest, with any texts beside its data (`Secret.ofManifest_render_yaml`).

What is read is not always the secret as it was.  Two things are done to it: some parts of its
metadata take on a normal form, such as a time without fractions of a second (`Secret.normal`), and
texts are folded into the data, where they win over the octets of their keys (`Secret.FoldsTo`).
Neither touches what a secret is known by, its identity, type, labels and annotations
(`Secret.Resembles`), and both do nothing the second time.  Therefore the manifest of what was read
is read as just that.

That there is anything to read rests on one property: a secret fits (`Secret.Fits`) if its numbers
have 64 bits and its managed fields are not nested deeper than a reader goes.  Whatever comes out of
a manifest fits, for a reader with these limits has read it, and the secret of a kubeconfig has no
such parts at all.
-/
namespace ConfigVault

open Codec

/-! ## Later entries win -/

namespace SortedMap

variable {β : Type}

/-- **The value of a key among many entries**: its own entry, or that of the map before. -/
theorem get?_insertAll (m : SortedMap β) {es : List (String × β)} (h : SortedEntries.Sorted es)
    (k : String) : (m.insertAll es).get? k = (es.lookup k).or (m.get? k) := by
  induction es generalizing m with
  | nil => rfl
  | cons e es ih =>
    obtain ⟨l, v⟩ := e
    have hsorted := List.pairwise_cons.mp h
    have hrest : (m.insertAll ((l, v) :: es)).get? k =
        (es.lookup k).or ((m.insert l v).get? k) := ih (m.insert l v) hsorted.2
    rw [hrest, get?_insert, SortedEntries.lookup_entry_cons]
    by_cases hk : k = l
    · subst hk
      rw [if_pos rfl, if_pos rfl, SortedEntries.lookup_of_lt hsorted.1]
      rfl
    · rw [if_neg hk, if_neg hk]

end SortedMap

theorem lookup_map {β γ : Type} (f : β → γ) (es : List (String × β)) (k : String) :
    (es.map fun e => (e.1, f e.2)).lookup k = (es.lookup k).map f := by
  induction es with
  | nil => rfl
  | cons e es ih =>
    obtain ⟨l, v⟩ := e
    rw [List.map_cons, SortedEntries.lookup_entry_cons, SortedEntries.lookup_entry_cons, ih]
    split <;> rfl

namespace Secret

/-- The secret with these texts beside its data, or with none. -/
def withTexts (s : Secret) (texts : Option (SortedMap String)) : Secret :=
  { s with stringData := texts }

/-! ## Folding texts into the data -/

/-- The data with texts folded over it: a text wins over the octets of its key, and only if there
were no texts at all may the data still be missing. -/
def FoldsTo (s : Secret) (texts : Option (SortedMap String))
    (data : Option (SortedMap (List UInt8))) : Prop :=
  match texts with
  | none => data = s.data
  | some ts => ∃ m, data = some m ∧
      ∀ k, m.get? k = ((ts.get? k).map Text.Utf8.encodeString).or (s.get? k)

@[simp] theorem stringData_foldStringData (s : Secret) : s.foldStringData.stringData = none := by
  unfold foldStringData
  split
  case h_1 h => exact h
  case h_2 => rfl

theorem foldStringData_of_none {s : Secret} (h : s.stringData = none) : s.foldStringData = s := by
  rw [foldStringData, h]

@[simp] theorem metadata_foldStringData (s : Secret) :
    s.foldStringData.metadata = s.metadata := by
  unfold foldStringData
  split <;> rfl

@[simp] theorem type_foldStringData (s : Secret) : s.foldStringData.type = s.type := by
  unfold foldStringData
  split <;> rfl

@[simp] theorem immutable_foldStringData (s : Secret) :
    s.foldStringData.immutable = s.immutable := by
  unfold foldStringData
  split <;> rfl

/-- **Texts are folded over the data key by key.** -/
theorem foldsTo_foldStringData (s : Secret) (texts : Option (SortedMap String)) :
    s.FoldsTo texts (s.withTexts texts).foldStringData.data := by
  cases texts with
  | none => rfl
  | some ts =>
    refine ⟨_, rfl, fun k => ?_⟩
    have hsorted : SortedEntries.Sorted
        (ts.entries.map fun e => (e.1, Text.Utf8.encodeString e.2)) :=
      List.pairwise_map.mpr ts.sorted
    rw [SortedMap.get?_insertAll _ hsorted, lookup_map]
    have hdata : (s.data.getD .empty).get? k = s.get? k := by
      rw [get?]
      cases s.data <;> rfl
    exact congrArg _ hdata

/-! ## Normal forms -/

/-- What is in normal form stays as it is. -/
@[simp] theorem normal_normal (s : Secret) : s.normal.normal = s.normal := by
  simp only [normal, ObjectMeta.normal_normal]

theorem normal_foldStringData (s : Secret) : s.foldStringData.normal = s.normal.foldStringData := by
  unfold foldStringData
  cases hs : s.stringData with
  | none => simp [normal, hs]
  | some ts => simp [normal, hs]

/-! ## Manifests -/

/-- How many collections can be entered inside of a secret. -/
def innerDepth : Nat := Place.maxDepth - 1

/-- **The secrets that there are**: those that a manifest describes, and those that were made to keep
a kubeconfig. -/
inductive IsMade : Secret → Prop where
  | ofManifest {text : String} {s : Secret} (h : ofManifest text = .ok s) : IsMade s
  | toSecret (k : Kubeconfig) (r : SecretRef) : IsMade (k.toSecret r)

theorem gives_ofManifest (text : String) : Gives (ofManifest text) (Fits innerDepth) := by
  have hbytes : Gives (ofBytes (Text.Utf8.encodeString text)) (Fits innerDepth) :=
    gives_readDocument (faithful 0).yields _
  unfold ofManifest
  split
  case h_1 s hs =>
    refine .ok ?_
    rw [Fits, metadata_foldStringData]
    exact hbytes s hs
  case h_2 => exact .error

theorem IsMade.fits {s : Secret} (h : s.IsMade) : s.Fits innerDepth := by
  cases h with
  | ofManifest h => exact gives_ofManifest _ _ h
  | toSecret k r => refine ⟨?_, ?_, ?_⟩ <;> intro x hx <;> cases hx

/-- The version of the format is always written. -/
theorem members_ne_nil (s : Secret) : record.members s ≠ [] := by
  intro h
  have hmem : ("apiVersion", Json.string "v1") ∈ record.members s :=
    List.mem_filterMap.mpr ⟨_, List.mem_cons_self .., rfl⟩
  rw [h] at hmem
  cases hmem

/-- **A secret that fits is read from its own manifest**, in its normal form and without texts. -/
theorem ofManifest_render_of_fits {s : Secret} (hs : s.Fits innerDepth) :
    ofManifest (s.render .yaml) = .ok s.normal.foldStringData := by
  have hbytes : ofBytes (Text.Utf8.encodeString (s.render .yaml)) = .ok s.normal :=
    readDocument_render rfl (members_ne_nil s) ((faithful 123).reads (Nat.le_refl _) hs)
  rw [ofManifest, hbytes]

/-- The two secrets have the same identity and are described alike. -/
structure Resembles (s t : Secret) : Prop where
  name : s.metadata.name = t.metadata.name
  «namespace» : s.metadata.namespace = t.metadata.namespace
  type : s.type = t.type
  immutable : s.immutable = t.immutable
  labels : s.metadata.labels = t.metadata.labels
  annotations : s.metadata.annotations = t.metadata.annotations

theorem resembles_normal (s : Secret) (texts : Option (SortedMap String)) :
    (s.withTexts texts).normal.foldStringData.Resembles s where
  name := by rw [metadata_foldStringData]; rfl
  «namespace» := by rw [metadata_foldStringData]; rfl
  type := by rw [type_foldStringData]; rfl
  immutable := by rw [immutable_foldStringData]; rfl
  labels := by rw [metadata_foldStringData]; rfl
  annotations := by rw [metadata_foldStringData]; rfl

/-- **A YAML manifest is read back**, with any texts beside the data: what is read resembles the
secret, has no texts left, and has exactly its data with the texts folded over it.  It is then read
back as it is, and the secret of a kubeconfig is unchanged from the beginning. -/
theorem ofManifest_render_yaml {s : Secret} (hs : s.IsMade) (texts : Option (SortedMap String)) :
    ∃ t, ofManifest ((s.withTexts texts).render .yaml) = .ok t ∧ t.Resembles s ∧
      t.stringData = none ∧ s.FoldsTo texts t.data ∧ ofManifest (t.render .yaml) = .ok t ∧
      ∀ k r, s = Kubeconfig.toSecret k r → texts = none → t = s := by
  have hfits : (s.withTexts texts).Fits innerDepth := hs.fits
  have hread := ofManifest_render_of_fits hfits
  have hfitsRead : (s.withTexts texts).normal.foldStringData.Fits innerDepth :=
    gives_ofManifest _ _ hread
  refine ⟨_, hread, resembles_normal s texts, stringData_foldStringData _, ?_, ?_, ?_⟩
  · exact foldsTo_foldStringData s.normal texts
  · -- The second time it is in normal form already, and has no texts.
    rw [ofManifest_render_of_fits hfitsRead, normal_foldStringData (s.withTexts texts).normal,
      normal_normal, foldStringData_of_none (stringData_foldStringData _)]
  · rintro k r rfl rfl
    rfl

/-- An empty text under a key that looks like no value becomes an entry without octets. -/
theorem ofManifest_render_yaml_null :
    let s := Kubeconfig.toSecret .empty ⟨"- #", "a: b"⟩
    let texts : SortedMap String := SortedMap.empty.insert "null" ""
    s.IsMade ∧ ∃ t, ofManifest ((s.withTexts (some texts)).render .yaml) = .ok t ∧
      t.Resembles s ∧ t.get? "null" = some [] := by
  intro s texts
  have hmade : s.IsMade := .toSecret _ _
  obtain ⟨t, hread, hresembles, -, ⟨data, hdata, hget⟩, -⟩ := ofManifest_render_yaml hmade (some texts)
  refine ⟨hmade, t, hread, hresembles, ?_⟩
  have hvalue : data.get? "null" = some [] := hget "null"
  rw [get?, hdata]
  exact hvalue

end Secret

end ConfigVault
