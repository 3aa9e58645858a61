import ConfigVault.Proofs.Codec.Document
import ConfigVault.Proofs.Codec.Record
import ConfigVault.Proofs.Secret.Timestamp
import ConfigVault.Proofs.Text.Base64
import ConfigVault.Secret.Codec

/-! # Secrets are read as they are written

A secret comes out of its document in its normal form (`Secret.normal`): timestamps are written in
full seconds, and managed fields that are null are as good as none.  Everything else is as it was.
What has to be known of a secret for that is that its numbers have 64 bits and that its managed
fields fit where they stand (`Secret.Fits`), and this is so of whatever is read (`Secret.faithful`).
-/
namespace ConfigVault

open Yaml Codec

namespace Codec

variable {α : Type}

/-! ## Codecs of secrets -/

theorem ReadsAs.layered {c : Codec α} {d : Nat} {x y : α} (h : ReadsAs c d x y) :
    ReadsAs (Codec.layered c) (d + 1) x y where
  ofNode p node hp hshows := by
    obtain ⟨q, hq, henter⟩ := p.enter_of_lt hp node.mark
    have hread : (Codec.layered c).ofNode p node = p.enter node.mark >>= fun q => c.ofNode q node := by
      have hshows : Shows (c.toJson x) node := hshows
      generalize c.toJson x = v at hshows
      cases hshows <;> rfl
    rw [hread, henter, pure_bind]
    exact h.ofNode q node hq hshows
  readable := h.readable.mono (Nat.le_succ d)
  ofValue := h.ofValue

theorem Yields.layered {c : Codec α} {P : Nat → α → Prop} (h : Yields c P) :
    Yields (Codec.layered c) fun d x => P (d - 1) x := by
  intro p node
  have hinner (node : Node) :
      Returns (p.enter node.mark >>= fun q => c.ofNode q node) (P (p.depth - 1)) := by
    refine (Returns.enter _).bind fun q hq => ?_
    rw [← hq, Nat.add_sub_cancel]
    exact h q node
  cases node with
  | cut => exact .throw _
  | scalar m props style text => exact hinner (.scalar m props style text)
  | sequence m props items => exact hinner (.sequence m props items)
  | mapping m props entries => exact hinner (.mapping m props entries)
  | «alias» m anchor => exact hinner (.alias m anchor)

theorem ReadsAs.constant (text : String) (d : Nat) : ReadsAs (Codec.constant text) d () () := by
  have hcheck : Codec.constant.check text text = .ok () := if_pos rfl
  refine ⟨fun p node hp hshows => ?_, .string d text, hcheck⟩
  show (Codec.string.ofNode p node >>= fun s => Value.lift (Codec.constant.check text s)) = _
  rw [(ReadsAs.string d text).ofNode p node hp hshows, pure_bind, hcheck]
  rfl

theorem NeverNull.layered {c : Codec α} (h : NeverNull c) : NeverNull (Codec.layered c) := h

namespace Faithful

theorem layered {c : Codec α} {k : Nat} {P : Nat → α → Prop} {normal : α → α}
    (h : Faithful c k P normal) : Faithful (layered c) (k + 1) (fun d x => P (d - 1) x) normal := by
  refine ⟨h.yields.layered, fun {d} x hd hx => ?_⟩
  obtain ⟨d, rfl⟩ : ∃ e, d = e + 1 := ⟨d - 1, by omega⟩
  exact .layered (h.reads (by omega) hx)

theorem constant (text : String) (k : Nat) : Faithful (constant text) k (fun _ _ => True) id :=
  ⟨.always fun _ _ => trivial, fun _ _ => .constant text _⟩

/-- **Octets are read as they are written.** -/
theorem octets (k : Nat) : Faithful octets k (fun _ _ => True) id := by
  refine ⟨.always fun _ _ => trivial, fun {d} x _ _ => .ofText ?_ d⟩
  rw [Text.Base64.decode?_encodeString]
  rfl

/-- **Timestamps are read in full seconds.** -/
theorem timestamp (k : Nat) :
    Faithful timestamp (k + 1) (fun _ _ => True) Timestamp.inSeconds := by
  refine layered (k := k) (P := fun _ _ => True) ⟨.always fun _ _ => trivial, fun {d} t _ _ => ?_⟩
  refine .ofText ?_ d
  rw [Timestamp.ofText_text]
  rfl

theorem sortedMap {c : Codec α} {k : Nat} (h : Faithful c k (fun _ _ => True) id) :
    Faithful (sortedMap c) (k + 1) (fun _ _ => True) id := by
  refine ⟨.always fun _ _ => trivial, fun {d} m hd _ => ?_⟩
  obtain ⟨d, rfl⟩ : ∃ e, d = e + 1 := ⟨d - 1, by omega⟩
  exact .sortedMap fun e _ => h.reads (by omega) trivial

end Faithful

end Codec

/-! ## References and managed fields -/

namespace OwnerReference

theorem lawful : record.Lawful where
  names := by decide
  get_put := by simp [record, defaultedField, optionalField]
  apart := by simp [record, defaultedField, optionalField]
  ext r s h := by cases r; cases s; simpa [record, defaultedField, optionalField] using h
  required := by simp [record, defaultedField, optionalField]

theorem faithful (k : Nat) : Faithful record.codec (k + 1) (fun _ _ => True) id := by
  have htext {get : OwnerReference → String} {put : String → OwnerReference → OwnerReference}
      {name : String} : Field.Faithful (defaultedField name (orDefault string "") get put)
        record.blank k (fun _ _ => True) id :=
    .written_free (fun _ => rfl) ((Faithful.string k).orDefault .string fun _ => trivial)
  refine Record.faithful_free lawful ?_
  simp only [record, List.forall_mem_cons]
  exact ⟨htext, .optional_free rfl .bool (.bool k), .optional_free rfl .bool (.bool k), htext,
    htext, htext, by simp⟩

end OwnerReference

namespace ManagedFieldsEntry

/-- Managed fields that are null are written like none. -/
def presentFields : Option Json → Option Json
  | some .null => none
  | fields => fields

/-- The entry as it is read back. -/
def normal (e : ManagedFieldsEntry) : ManagedFieldsEntry :=
  { e with fieldsV1 := presentFields e.fieldsV1, time := e.time.map Timestamp.inSeconds }

@[simp] theorem presentFields_presentFields (fields : Option Json) :
    presentFields (presentFields fields) = presentFields fields := by
  rcases fields with _ | v
  · rfl
  · cases v <;> rfl

@[simp] theorem normal_normal (e : ManagedFieldsEntry) : e.normal.normal = e.normal := by
  simp only [normal, presentFields_presentFields, Timestamp.map_inSeconds_inSeconds]

/-- The managed fields fit into their layer. -/
def Fits (d : Nat) (e : ManagedFieldsEntry) : Prop := ∀ v ∈ e.fieldsV1, v.Fits (d - 1)

theorem lawful : record.Lawful where
  names := by decide
  get_put := by simp [record, optionalField]
  apart := by simp [record, optionalField]
  ext r s h := by cases r; cases s; simpa [record, optionalField] using h
  required := by simp [record, optionalField]

theorem faithful_fields {get : ManagedFieldsEntry → Option Json}
    {put : Option Json → ManagedFieldsEntry → ManagedFieldsEntry} (k : Nat)
    (hblank : get record.blank = none) (hget : ∀ e, get e = e.fieldsV1)
    (hput : ∀ o e, (put o e).fieldsV1 = o) :
    Field.Faithful (optionalField "fieldsV1" (layered json) get put) record.blank (k + 1) Fits
      normal := by
  have hc := (Faithful.json k).layered
  refine ⟨hc.yields.option.weaken fun d o ho e _ => ?_, fun {d} e hd he => ?_⟩
  · intro v hv
    exact ho v (hput o e ▸ hv)
  · have hfield : (optionalField "fieldsV1" (layered json) get put).get = get := rfl
    rw [Field.ReadsAs, hfield, hblank, hget, hget]
    show if _ then presentFields e.fieldsV1 = none else
      ReadsAs (option (layered json)) d e.fieldsV1 (presentFields e.fieldsV1)
    cases he' : e.fieldsV1 with
    | none => rfl
    | some v =>
      have hread : ReadsAs (layered json) d v v := hc.reads hd (he v he')
      rw [if_neg (by simp [optionalField])]
      cases v with
      | null => exact .some_null rfl d
      | _ => exact .some hread (by simp [layered, json])

theorem faithful (k : Nat) :
    Faithful record.codec (k + 2) (fun d e => e.Fits (d - 1)) normal := by
  have htext {get : ManagedFieldsEntry → Option String}
      {put : Option String → ManagedFieldsEntry → ManagedFieldsEntry} {name : String}
      (hblank : get record.blank = none) (hput : ∀ o e, (put o e).fieldsV1 = e.fieldsV1)
      (hnormal : ∀ e, get (normal e) = get e) :
      Field.Faithful (optionalField name string get put) record.blank (k + 1) Fits normal :=
    .optional_plain hblank .string (.string _) (fun d o e h v hv => h v (hput o e ▸ hv)) hnormal
  refine Record.faithful lawful (fun d v hv => by cases hv) ?_
  simp only [record, List.forall_mem_cons]
  refine ⟨htext rfl (fun _ _ => rfl) fun _ => rfl, htext rfl (fun _ _ => rfl) fun _ => rfl, ?_,
    htext rfl (fun _ _ => rfl) fun _ => rfl, htext rfl (fun _ _ => rfl) fun _ => rfl,
    htext rfl (fun _ _ => rfl) fun _ => rfl, ?_, by simp⟩
  · exact faithful_fields k rfl (fun _ => rfl) fun _ _ => rfl
  · exact .optional rfl (NeverNull.layered .ofText) (.timestamp k) (fun _ _ _ h _ => h)
      (fun _ _ _ _ _ => trivial) fun _ => rfl

end ManagedFieldsEntry

/-! ## Metadata -/

namespace ObjectMeta

/-- The metadata as it is read back. -/
def normal (m : ObjectMeta) : ObjectMeta :=
  { m with
    creationTimestamp := m.creationTimestamp.map Timestamp.inSeconds
    deletionTimestamp := m.deletionTimestamp.map Timestamp.inSeconds
    managedFields := m.managedFields.map (List.map ManagedFieldsEntry.normal) }

@[simp] theorem normal_normal (m : ObjectMeta) : m.normal.normal = m.normal := by
  have hentries (es : Option (List ManagedFieldsEntry)) :
      (es.map (List.map ManagedFieldsEntry.normal)).map (List.map ManagedFieldsEntry.normal) =
        es.map (List.map ManagedFieldsEntry.normal) := by
    cases es with
    | none => rfl
    | some es => simp
  simp only [normal, Timestamp.map_inSeconds_inSeconds, hentries]

/-- The numbers have 64 bits, and the managed fields fit inside of the metadata. -/
structure Fits (d : Nat) (m : ObjectMeta) : Prop where
  gracePeriod : ∀ i ∈ m.deletionGracePeriodSeconds, isInt64 i
  generation : ∀ i ∈ m.generation, isInt64 i
  managedFields : ∀ es ∈ m.managedFields, ∀ e ∈ es, e.Fits (d - 1 - 1)

theorem Fits.empty (d : Nat) : empty.Fits d := by
  refine ⟨?_, ?_, ?_⟩ <;> intro x hx <;> cases hx

/-- The other fields do not matter. -/
theorem Fits.rest {d : Nat} {m n : ObjectMeta}
    (hgrace : n.deletionGracePeriodSeconds = m.deletionGracePeriodSeconds)
    (hgeneration : n.generation = m.generation) (hmanaged : n.managedFields = m.managedFields)
    (h : m.Fits d) : n.Fits d :=
  ⟨hgrace ▸ h.gracePeriod, hgeneration ▸ h.generation, hmanaged ▸ h.managedFields⟩

theorem lawful : record.Lawful where
  names := by decide
  get_put := by simp [record, optionalField]
  apart := by simp [record, optionalField]
  ext r s h := by cases r; cases s; simpa [record, optionalField] using h
  required := by simp [record, optionalField]

theorem faithful (k : Nat) :
    Faithful record.codec (k + 4) (fun d m => m.Fits (d - 1)) normal := by
  -- Most fields have nothing to do with what fits.
  have hplain {α : Type} {c : Codec α} {get : ObjectMeta → Option α}
      {put : Option α → ObjectMeta → ObjectMeta} {name : String} (hblank : get record.blank = none)
      (hnull : NeverNull c) (hc : Faithful c (k + 3) (fun _ _ => True) id)
      (hput : ∀ d o m, Fits d m → Fits d (put o m)) (hnormal : ∀ m, get (normal m) = get m) :
      Field.Faithful (optionalField name c get put) record.blank (k + 3) Fits normal :=
    .optional_plain hblank hnull hc hput hnormal
  have htext {get : ObjectMeta → Option String} {put : Option String → ObjectMeta → ObjectMeta}
      {name : String} (hblank : get record.blank = none)
      (hput : ∀ d o m, Fits d m → Fits d (put o m)) (hnormal : ∀ m, get (normal m) = get m) :
      Field.Faithful (optionalField name string get put) record.blank (k + 3) Fits normal :=
    hplain hblank .string (.string _) hput hnormal
  have htime {get : ObjectMeta → Option Timestamp} {put : Option Timestamp → ObjectMeta → ObjectMeta}
      {name : String} (hblank : get record.blank = none)
      (hput : ∀ d o m, Fits d m → Fits d (put o m))
      (hnormal : ∀ m, get (normal m) = (get m).map Timestamp.inSeconds) :
      Field.Faithful (optionalField name timestamp get put) record.blank (k + 3) Fits normal :=
    .optional hblank (NeverNull.layered .ofText) (.timestamp _) (fun d o m h _ => hput d o m h)
      (fun _ _ _ _ _ => trivial) hnormal
  have hmap : Faithful (sortedMap string) (k + 3) (fun _ _ => True) id := .sortedMap (.string _)
  have hnames : Faithful (list string) (k + 3) (fun _ _ => True) id := by
    simpa using (Faithful.string (k + 2)).list_id
  have howners : Faithful (list OwnerReference.record.codec) (k + 3) (fun _ _ => True) id := by
    simpa using (OwnerReference.faithful (k + 1)).list_id
  refine Record.faithful lawful Fits.empty ?_
  simp only [record, List.forall_mem_cons]
  refine ⟨?_, ?_, ?_, ?_, ?_, ?_, ?_, ?_, ?_, ?_, ?_, ?_, ?_, ?_, ?_, by simp⟩
  · exact hplain rfl (.sortedMap _) hmap (fun _ _ _ => Fits.rest rfl rfl rfl) fun _ => rfl
  · exact htime rfl (fun _ _ _ => Fits.rest rfl rfl rfl) fun _ => rfl
  · exact .optional rfl .int64 (.int64 _) (fun _ _ _ h hi => ⟨hi, h.generation, h.managedFields⟩)
      (fun _ _ h => h.gracePeriod) fun _ => by simp [normal]
  · exact htime rfl (fun _ _ _ => Fits.rest rfl rfl rfl) fun _ => rfl
  · exact hplain rfl (.list _) hnames (fun _ _ _ => Fits.rest rfl rfl rfl) fun _ => rfl
  · exact htext rfl (fun _ _ _ => Fits.rest rfl rfl rfl) fun _ => rfl
  · exact .optional rfl .int64 (.int64 _) (fun _ _ _ h hi => ⟨h.gracePeriod, hi, h.managedFields⟩)
      (fun _ _ h => h.generation) fun _ => by simp [normal]
  · exact hplain rfl (.sortedMap _) hmap (fun _ _ _ => Fits.rest rfl rfl rfl) fun _ => rfl
  · exact .optional rfl (.list _) (ManagedFieldsEntry.faithful k).list
      (fun _ _ _ h hf => ⟨h.gracePeriod, h.generation, hf⟩) (fun _ _ h => h.managedFields)
      fun _ => rfl
  · exact htext rfl (fun _ _ _ => Fits.rest rfl rfl rfl) fun _ => rfl
  · exact htext rfl (fun _ _ _ => Fits.rest rfl rfl rfl) fun _ => rfl
  · exact hplain rfl (.list _) howners (fun _ _ _ => Fits.rest rfl rfl rfl) fun _ => rfl
  · exact htext rfl (fun _ _ _ => Fits.rest rfl rfl rfl) fun _ => rfl
  · exact htext rfl (fun _ _ _ => Fits.rest rfl rfl rfl) fun _ => rfl
  · exact htext rfl (fun _ _ _ => Fits.rest rfl rfl rfl) fun _ => rfl

end ObjectMeta

/-! ## Secrets -/

namespace Secret

/-- The secret as it is read back. -/
def normal (s : Secret) : Secret := { s with metadata := s.metadata.normal }

/-- The metadata fits inside of the secret. -/
def Fits (d : Nat) (s : Secret) : Prop := s.metadata.Fits (d - 1)

theorem lawful : record.Lawful where
  names := by decide
  get_put := by simp [record, constantField, defaultedField, optionalField]
  apart := by simp [record, constantField, defaultedField, optionalField]
  ext r s h := by
    cases r
    cases s
    simpa [record, constantField, defaultedField, optionalField] using h
  required := by simp [record, constantField, defaultedField, optionalField]

/-- **A secret is read in its normal form.** -/
theorem faithful (k : Nat) :
    Faithful record.codec (k + 5) (fun d s => s.Fits (d - 1)) normal := by
  have hplain {α : Type} {c : Codec α} {get : Secret → Option α} {put : Option α → Secret → Secret}
      {name : String} (hblank : get record.blank = none) (hnull : NeverNull c)
      (hc : Faithful c (k + 4) (fun _ _ => True) id) (hput : ∀ o s, (put o s).metadata = s.metadata)
      (hnormal : ∀ s, get (normal s) = get s) :
      Field.Faithful (optionalField name c get put) record.blank (k + 4) Fits normal :=
    .optional_plain hblank hnull hc (fun d o s (h : s.metadata.Fits (d - 1)) => by
      rw [Fits, hput]
      exact h) hnormal
  have hconstant {name text : String} :
      Field.Faithful (constantField name text) record.blank (k + 4) Fits normal :=
    .written (fun _ => rfl) (.constant text _) (fun _ _ _ h _ => h) (fun _ _ _ => trivial)
      fun _ => rfl
  have hoctets : Faithful (sortedMap (orDefault octets [])) (k + 4) (fun _ _ => True) id :=
    .sortedMap ((Faithful.octets _).orDefault .ofText fun _ => trivial)
  refine Record.faithful lawful (fun d => ObjectMeta.Fits.empty _) ?_
  simp only [record, List.forall_mem_cons]
  refine ⟨hconstant, hconstant, ?_, ?_, ?_, ?_, ?_, by simp⟩
  · exact hplain rfl (.sortedMap _) hoctets (fun _ _ => rfl) fun _ => rfl
  · exact hplain rfl .bool (.bool _) (fun _ _ => rfl) fun _ => rfl
  · exact .written (fun _ => rfl)
      ((ObjectMeta.faithful k).orDefault (.record _) fun d => ObjectMeta.Fits.empty _)
      (fun _ _ _ _ hm => hm) (fun _ _ h => h) fun _ => rfl
  · exact hplain rfl (.sortedMap _) (.sortedMap (.string _)) (fun _ _ => rfl) fun _ => rfl
  · exact hplain rfl .string (.string _) (fun _ _ => rfl) fun _ => rfl

end Secret

end ConfigVault
