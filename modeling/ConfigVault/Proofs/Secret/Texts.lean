import ConfigVault.Proofs.Codec.Texts
import ConfigVault.Proofs.Secret.Codec

/-! # Other strings in a secret

The secret that has other strings wherever it holds some (`Secret.mapTexts`).  Its written form is that
of the secret with its strings replaced, as long as plain ASCII is left alone: timestamps and octets
are written in it, and so is what a secret says about itself (`Secret.retexts`).  Whether anything was
replaced can be seen from what is read back (`Secret.mapTexts_eq_self`).
-/
namespace ConfigVault

open Codec

variable (f : String → String)

/-! ## Strings made by codecs -/

theorem isAscii_encodeString (octets : List UInt8) :
    IsAscii (Text.Base64.encodeString octets).toList := by
  rw [Text.Base64.encodeString, String.toList_ofList]
  intro c hc
  obtain ⟨u, hu, rfl⟩ := List.mem_map.mp hc
  have hlt := Text.Base64.lt_of_mem_encode hu
  have hvalid : u.toNat.isValidChar := .inl (by omega)
  rw [Char.ofNat, dif_pos hvalid]
  exact hlt

namespace Timestamp

theorem isAscii_of_isDigit {cs : List Char} (h : ∀ c ∈ cs, c.isDigit) : IsAscii cs := by
  intro c hc
  have hdigit := h c hc
  simp only [Char.isDigit, Bool.and_eq_true, decide_eq_true_eq] at hdigit
  have hle : c.toNat ≤ 57 := UInt32.le_iff_toNat_le.mp hdigit.2
  omega

theorem isAscii_twoDigits {n : Nat} (h : n < 100) : IsAscii (twoDigits n) :=
  isAscii_of_isDigit (isDigit_twoDigits h)

theorem isAscii_yearText (y : Int) : IsAscii (yearText y) := by
  have hdigits := isAscii_of_isDigit (isDigit_fourDigits y.natAbs)
  unfold yearText
  split
  · exact isAscii_cons.mpr ⟨by decide, hdigits⟩
  split
  · exact hdigits
  · exact isAscii_cons.mpr ⟨by decide, hdigits⟩

theorem isAscii_dateText (d : Date) : IsAscii (dateText d) := by
  have hmonth := d.month_mem
  have hday : d.day ≤ 31 := by
    refine Nat.le_trans d.day_mem.2 ?_
    unfold daysInMonth
    split
    · split <;> decide
    · split <;> decide
  have hyear := isAscii_yearText d.year
  have hmonthText := isAscii_twoDigits (n := d.month) (by omega)
  have hdayText := isAscii_twoDigits (n := d.day) (by omega)
  simp [dateText, isAscii_append, isAscii_cons, hyear, hmonthText, hdayText]

theorem isAscii_text (t : Timestamp) : IsAscii t.text.toList := by
  have hminutes := t.minutes_lt
  have hsecond := t.second_le
  have hhourText := isAscii_twoDigits (n := t.minutes / 60) (by omega)
  have hminuteText := isAscii_twoDigits (n := t.minutes % 60) (by omega)
  have hsecondText := isAscii_twoDigits (n := t.second) (by omega)
  have hzone : IsAscii ['Z'] := by simp [IsAscii]
  rw [text, String.toList_ofList]
  simp [isAscii_append, isAscii_cons, isAscii_dateText, hhourText, hminuteText, hsecondText, hzone]

end Timestamp

theorem SortedMap.mapValues_id {β : Type} (m : SortedMap β) : m.mapValues id = m := by
  cases m
  simp [SortedMap.mapValues]

namespace Codec

variable {f} {α : Type}

theorem Retexts.layered {c : Codec α} {g : α → α} (h : Retexts c f g) : Retexts (layered c) f g := h

theorem Retexts.constant {text : String} (h : f text = text) : Retexts (constant text) f id :=
  fun _ => congrArg Json.string h.symm

theorem Field.Retexts.constant {ρ : Type} {name text : String} {g : ρ → ρ} (h : f text = text) :
    Field.Retexts (constantField name text) f g :=
  .defaulted (.constant h) fun _ => rfl

/-- A map whose values are left as they are. -/
theorem Retexts.sortedMap_id {c : Codec α} (h : Retexts c f id) :
    Retexts (Codec.sortedMap c) f id := by
  intro m
  have hmap := h.sortedMap m
  rwa [SortedMap.mapValues_id] at hmap

variable (hf : ∀ s : String, IsAscii s.toList → f s = s)
include hf

theorem Retexts.octets : Retexts octets f id := .ofText fun x => hf _ (isAscii_encodeString x)

theorem Retexts.timestamp : Retexts timestamp f id := .layered (.ofText fun t => hf _ t.isAscii_text)

end Codec

/-! ## References and managed fields -/

/-- The reference with other strings. -/
def OwnerReference.mapTexts (r : OwnerReference) : OwnerReference :=
  { r with apiVersion := f r.apiVersion, kind := f r.kind, name := f r.name, uid := f r.uid }

theorem OwnerReference.retexts : Retexts record.codec f (mapTexts f) := by
  have htext {get : OwnerReference → String} {put : String → OwnerReference → OwnerReference}
      {name : String} (hget : ∀ r, get (mapTexts f r) = f (get r)) :
      Field.Retexts (defaultedField name (orDefault string "") get put) f (mapTexts f) :=
    .defaulted (Retexts.string.orDefault "") hget
  refine .record ?_
  simp only [record, List.forall_mem_cons]
  exact ⟨htext fun _ => rfl, .optional_id .bool fun _ => rfl, .optional_id .bool fun _ => rfl,
    htext fun _ => rfl, htext fun _ => rfl, htext fun _ => rfl, by simp⟩

namespace ManagedFieldsEntry

/-- The entry with other strings. -/
def mapTexts (e : ManagedFieldsEntry) : ManagedFieldsEntry where
  apiVersion := e.apiVersion.map f
  fieldsType := e.fieldsType.map f
  fieldsV1 := e.fieldsV1.map (Json.mapTexts f)
  manager := e.manager.map f
  operation := e.operation.map f
  subresource := e.subresource.map f
  time := e.time

variable {f}

theorem retexts (hf : ∀ s : String, IsAscii s.toList → f s = s) :
    Retexts record.codec f (mapTexts f) := by
  refine .record ?_
  simp only [record, List.forall_mem_cons]
  exact ⟨.optional .string fun _ => rfl, .optional .string fun _ => rfl,
    .optional (.layered .json) fun _ => rfl, .optional .string fun _ => rfl,
    .optional .string fun _ => rfl, .optional .string fun _ => rfl,
    .optional_id (.timestamp hf) fun _ => rfl, by simp⟩

theorem Fits.mapTexts {d : Nat} {e : ManagedFieldsEntry} (h : e.Fits d) (f : String → String) :
    (e.mapTexts f).Fits d := by
  intro v hv
  obtain ⟨u, hu, rfl⟩ := Option.mem_map.mp hv
  exact (h u hu).mapTexts f

/-- Managed fields that are null hold no strings. -/
theorem presentFields_mapTexts {o : Option Json}
    (h : presentFields (o.map (Json.mapTexts f)) = presentFields o) : o.map (Json.mapTexts f) = o := by
  cases o with
  | none => rfl
  | some v =>
    cases v with
    | null => rfl
    | bool b => rfl
    | int i => rfl
    | float x => rfl
    | string s => exact h
    | array vs => exact h
    | object ms => exact h

theorem mapTexts_eq_self {e : ManagedFieldsEntry} (h : (e.mapTexts f).normal = e.normal) :
    e.mapTexts f = e := by
  cases e
  simp only [normal, mapTexts, ManagedFieldsEntry.mk.injEq] at h ⊢
  exact ⟨h.1, h.2.1, presentFields_mapTexts h.2.2.1, h.2.2.2.1, h.2.2.2.2.1, h.2.2.2.2.2.1, trivial⟩

theorem mapTexts_all_eq_self {es : List ManagedFieldsEntry}
    (h : (es.map (mapTexts f)).map normal = es.map normal) : es.map (mapTexts f) = es := by
  induction es with
  | nil => rfl
  | cons e es ih =>
    simp only [List.map_cons, List.cons.injEq] at h ⊢
    exact ⟨mapTexts_eq_self h.1, ih h.2⟩

end ManagedFieldsEntry

/-! ## Metadata -/

namespace ObjectMeta

/-- The metadata with other strings; its keys stay. -/
def mapTexts (m : ObjectMeta) : ObjectMeta :=
  { m with
    annotations := m.annotations.map (SortedMap.mapValues f)
    finalizers := m.finalizers.map (List.map f)
    generateName := m.generateName.map f
    labels := m.labels.map (SortedMap.mapValues f)
    managedFields := m.managedFields.map (List.map (ManagedFieldsEntry.mapTexts f))
    name := m.name.map f
    «namespace» := m.namespace.map f
    ownerReferences := m.ownerReferences.map (List.map (OwnerReference.mapTexts f))
    resourceVersion := m.resourceVersion.map f
    selfLink := m.selfLink.map f
    uid := m.uid.map f }

variable {f}

theorem retexts (hf : ∀ s : String, IsAscii s.toList → f s = s) :
    Retexts record.codec f (mapTexts f) := by
  have htime := Retexts.timestamp hf
  have hmap : Retexts (sortedMap string) f (SortedMap.mapValues f) := .sortedMap .string
  refine .record ?_
  simp only [record, List.forall_mem_cons]
  exact ⟨.optional hmap fun _ => rfl, .optional_id htime fun _ => rfl,
    .optional_id .int64 fun _ => rfl, .optional_id htime fun _ => rfl,
    .optional (.list .string) fun _ => rfl, .optional .string fun _ => rfl,
    .optional_id .int64 fun _ => rfl, .optional hmap fun _ => rfl,
    .optional (.list (ManagedFieldsEntry.retexts hf)) fun _ => rfl, .optional .string fun _ => rfl,
    .optional .string fun _ => rfl, .optional (.list (OwnerReference.retexts f)) fun _ => rfl,
    .optional .string fun _ => rfl, .optional .string fun _ => rfl, .optional .string fun _ => rfl,
    by simp⟩

theorem Fits.mapTexts {d : Nat} {m : ObjectMeta} (h : m.Fits d) (f : String → String) :
    (m.mapTexts f).Fits d := by
  refine ⟨h.gracePeriod, h.generation, ?_⟩
  intro es hes e he
  obtain ⟨es, hes', rfl⟩ := Option.mem_map.mp hes
  obtain ⟨e, he', rfl⟩ := List.mem_map.mp he
  exact (h.managedFields es hes' e he').mapTexts f

theorem mapTexts_eq_self {m : ObjectMeta} (h : (m.mapTexts f).normal = m.normal) :
    m.mapTexts f = m := by
  have hmanaged : (m.mapTexts f).managedFields = m.managedFields := by
    have hnormal : (m.mapTexts f).normal.managedFields = m.normal.managedFields := by rw [h]
    simp only [normal, mapTexts] at hnormal ⊢
    cases hfields : m.managedFields with
    | none => rfl
    | some es =>
      rw [hfields] at hnormal
      exact congrArg some (ManagedFieldsEntry.mapTexts_all_eq_self (Option.some.inj hnormal))
  cases m
  simp only [normal, mapTexts, ObjectMeta.mk.injEq] at h hmanaged ⊢
  simp only [h, hmanaged, and_self]

end ObjectMeta

/-! ## Secrets -/

namespace Secret

/-- **The secret with other strings**; its keys and its octets stay. -/
def mapTexts (s : Secret) : Secret :=
  { s with
    metadata := s.metadata.mapTexts f
    stringData := s.stringData.map (SortedMap.mapValues f)
    type := s.type.map f }

variable {f}

/-- **What is written of a secret with other strings** is what is written of the secret, with the
strings replaced. -/
theorem retexts (hf : ∀ s : String, IsAscii s.toList → f s = s) :
    Retexts record.codec f (mapTexts f) := by
  have hversion : f "v1" = "v1" := hf _ (by simp [IsAscii])
  have hkind : f "Secret" = "Secret" := hf _ (by simp [IsAscii])
  have hdata : Retexts (sortedMap (orDefault octets [])) f id :=
    .sortedMap_id ((Retexts.octets hf).orDefault [])
  refine .record ?_
  simp only [record, List.forall_mem_cons]
  exact ⟨.constant hversion, .constant hkind, .optional_id hdata fun _ => rfl,
    .optional_id .bool fun _ => rfl, .defaulted ((ObjectMeta.retexts hf).orDefault _) fun _ => rfl,
    .optional (.sortedMap .string) fun _ => rfl, .optional .string fun _ => rfl, by simp⟩

theorem Fits.mapTexts {d : Nat} {s : Secret} (h : s.Fits d) (f : String → String) :
    (s.mapTexts f).Fits d :=
  ObjectMeta.Fits.mapTexts h f

/-- **Whether anything was replaced can be seen** from the normal forms. -/
theorem mapTexts_eq_self {s : Secret} (h : (s.mapTexts f).normal = s.normal) : s.mapTexts f = s := by
  have hmetadata : s.metadata.mapTexts f = s.metadata :=
    ObjectMeta.mapTexts_eq_self (congrArg Secret.metadata h)
  cases s
  simp only [normal, mapTexts, Secret.mk.injEq] at h hmetadata ⊢
  exact ⟨trivial, trivial, hmetadata, h.2.2.2⟩

end Secret

end ConfigVault
