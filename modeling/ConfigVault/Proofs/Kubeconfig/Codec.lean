import ConfigVault.Kubeconfig.Codec
import ConfigVault.Proofs.Codec.Record

/-! # Kubeconfigs are read as they are written

Every record in a kubeconfig is faithful to its own.  All that has to be known of a kubeconfig for
that is that its extensions fit where they stand (`Kubeconfig.Fits`), and this is so of whatever is
read: `Kubeconfig.faithful`, `Kubeconfig.yieldsValue`.  Depths are counted inside of each record.
-/
namespace ConfigVault

open Codec

namespace NamedExtension

theorem lawful : record.Lawful where
  names := by decide
  get_put := by simp [record, requiredField]
  apart := by simp [record, requiredField]
  ext r s h := by cases r; cases s; simpa [record, requiredField] using h
  required := by simp [record, requiredField]

/-- The content of the extension fits inside of it. -/
def Fits (d : Nat) (e : NamedExtension) : Prop := e.extension.Fits d

theorem faithful (k : Nat) : Faithful record.codec (k + 1) (fun d e => e.Fits (d - 1)) id := by
  refine Record.faithful lawful (fun d => .null d) ?_
  simp only [record, List.forall_mem_cons]
  refine ⟨?_, ?_, by simp⟩
  · exact .written (fun _ => rfl) (.string k) (fun _ _ _ h _ => h) (fun _ _ _ => trivial) fun _ => rfl
  · exact .written (fun _ => rfl) (.json k) (fun _ _ _ _ h => h) (fun _ _ h => h) fun _ => rfl

theorem yieldsValue : YieldsValue record.codec fun d e => e.Fits (d - 1) := by
  refine Record.yieldsValue (fun d => .null d) ?_
  simp only [record, List.forall_mem_cons]
  exact ⟨.always fun _ _ _ h => h, YieldsValue.json.weaken fun _ _ h _ _ => h, by simp⟩

end NamedExtension

/-! ## Lists of extensions -/

/-- The extensions fit, at a depth outside of their list. -/
def extensionsFit (d : Nat) (es : List NamedExtension) : Prop := ∀ e ∈ es, e.Fits (d - 1 - 1)

theorem faithful_extensions (k : Nat) : Faithful extensionsCodec (k + 2) extensionsFit id :=
  (NamedExtension.faithful k).list_id

theorem yieldsValue_extensions : YieldsValue extensionsCodec extensionsFit :=
  NamedExtension.yieldsValue.list

theorem neverNull_extensions : NeverNull extensionsCodec := .list _

namespace Preferences

theorem lawful : record.Lawful where
  names := by decide
  get_put := by simp [record, optionalField]
  apart := by simp [record, optionalField]
  ext r s h := by cases r; cases s; simpa [record, optionalField] using h
  required := by simp [record, optionalField]

/-- The extensions fit inside of the preferences. -/
def Fits (d : Nat) (p : Preferences) : Prop := ∀ es ∈ p.extensions, extensionsFit d es

theorem faithful (k : Nat) : Faithful record.codec (k + 3) (fun d p => p.Fits (d - 1)) id := by
  refine Record.faithful lawful (fun d es h => by cases h) ?_
  simp only [record, List.forall_mem_cons]
  refine ⟨?_, ?_, by simp⟩
  · exact .optional_plain rfl .bool (.bool _) (fun _ _ _ h => h) fun _ => rfl
  · exact .optional rfl neverNull_extensions (faithful_extensions k) (fun _ _ _ _ h => h)
      (fun _ _ h => h) fun r => by simp

theorem yieldsValue : YieldsValue record.codec fun d p => p.Fits (d - 1) := by
  refine Record.yieldsValue (fun d es h => by cases h) ?_
  simp only [record, List.forall_mem_cons]
  exact ⟨.always fun _ _ _ h => h, yieldsValue_extensions.option.weaken fun _ _ h _ _ => h, by simp⟩

end Preferences

namespace Cluster

theorem lawful : record.Lawful where
  names := by decide
  get_put := by simp [record, optionalField]
  apart := by simp [record, optionalField]
  ext r s h := by cases r; cases s; simpa [record, optionalField] using h
  required := by simp [record, optionalField]

/-- The extensions fit inside of the cluster. -/
def Fits (d : Nat) (c : Cluster) : Prop := ∀ es ∈ c.extensions, extensionsFit d es

theorem faithful (k : Nat) : Faithful record.codec (k + 3) (fun d c => c.Fits (d - 1)) id := by
  have htext {get : Cluster → Option String} {put : Option String → Cluster → Cluster} {name : String}
      (hblank : get record.blank = none) (hput : ∀ o c, (put o c).extensions = c.extensions) :
      Field.Faithful (optionalField name string get put) record.blank (k + 2) Fits id :=
    .optional_plain hblank .string (.string _) (fun d o c h es hes => h es (hput o c ▸ hes))
      fun _ => rfl
  refine Record.faithful lawful (fun d es h => by cases h) ?_
  simp only [record, List.forall_mem_cons]
  refine ⟨htext rfl fun _ _ => rfl, ?_, htext rfl fun _ _ => rfl, htext rfl fun _ _ => rfl,
    htext rfl fun _ _ => rfl, htext rfl fun _ _ => rfl, ?_, by simp⟩
  · exact .optional_plain rfl .bool (.bool _) (fun _ _ _ h => h) fun _ => rfl
  · exact .optional rfl neverNull_extensions (faithful_extensions k) (fun _ _ _ _ h => h)
      (fun _ _ h => h) fun r => by simp

theorem yieldsValue : YieldsValue record.codec fun d c => c.Fits (d - 1) := by
  refine Record.yieldsValue (fun d es h => by cases h) ?_
  simp only [record, List.forall_mem_cons]
  exact ⟨.always fun _ _ _ h => h, .always fun _ _ _ h => h, .always fun _ _ _ h => h,
    .always fun _ _ _ h => h, .always fun _ _ _ h => h, .always fun _ _ _ h => h,
    yieldsValue_extensions.option.weaken fun _ _ h _ _ => h, by simp⟩

end Cluster

namespace NamedCluster

theorem lawful : record.Lawful where
  names := by decide
  get_put := by simp [record, requiredField, optionalField]
  apart := by simp [record, requiredField, optionalField]
  ext r s h := by cases r; cases s; simpa [record, requiredField, optionalField] using h
  required := by simp [record, requiredField, optionalField]

/-- The body fits inside of the entry. -/
def Fits (d : Nat) (c : NamedCluster) : Prop := ∀ b ∈ c.cluster, b.Fits (d - 1)

theorem faithful (k : Nat) : Faithful record.codec (k + 4) (fun d c => c.Fits (d - 1)) id := by
  refine Record.faithful lawful (fun d b h => by cases h) ?_
  simp only [record, List.forall_mem_cons]
  refine ⟨?_, ?_, by simp⟩
  · exact .written (fun _ => rfl) (.string _) (fun _ _ _ h _ => h) (fun _ _ _ => trivial) fun _ => rfl
  · exact .optional rfl (.record _) (Cluster.faithful k) (fun _ _ _ _ h => h) (fun _ _ h => h)
      fun r => by simp

theorem yieldsValue : YieldsValue record.codec fun d c => c.Fits (d - 1) := by
  refine Record.yieldsValue (fun d b h => by cases h) ?_
  simp only [record, List.forall_mem_cons]
  exact ⟨.always fun _ _ _ h => h, Cluster.yieldsValue.option.weaken fun _ _ h _ _ => h, by simp⟩

end NamedCluster

/-! ## Users

There is nothing in a user that might not fit. -/

namespace InteractiveMode

theorem faithful (k : Nat) : Faithful codec k (fun _ _ => True) id :=
  .choice (by intro m; cases m <;> decide) k

end InteractiveMode

namespace ExecConfig

theorem lawful : record.Lawful where
  names := by decide
  get_put := by simp [record, optionalField, defaultedField]
  apart := by simp [record, optionalField, defaultedField]
  ext r s h := by cases r; cases s; simpa [record, optionalField, defaultedField] using h
  required := by simp [record, optionalField, defaultedField]

theorem faithful (k : Nat) : Faithful record.codec (k + 3) (fun _ _ => True) id := by
  refine Record.faithful_free lawful ?_
  simp only [record, List.forall_mem_cons]
  refine ⟨.optional_free rfl .string (.string _), .optional_free rfl .string (.string _),
    .optional_free rfl (.list _) ?_, .optional_free rfl (.list _) ?_,
    .optional_free rfl .choice (InteractiveMode.faithful _), .written_free (fun _ => rfl) (.bool _),
    by simp⟩
  · simpa using (Faithful.string (k + 1)).list_id
  · simpa using (Faithful.stringTable k).list_id

end ExecConfig

namespace AuthProvider

theorem lawful : record.Lawful where
  names := by decide
  get_put := by simp [record, requiredField, defaultedField]
  apart := by simp [record, requiredField, defaultedField]
  ext r s h := by cases r; cases s; simpa [record, requiredField, defaultedField] using h
  required := by simp [record, requiredField, defaultedField]

theorem faithful (k : Nat) : Faithful record.codec (k + 2) (fun _ _ => True) id := by
  refine Record.faithful_free lawful ?_
  simp only [record, List.forall_mem_cons]
  exact ⟨.written_free (fun _ => rfl) (.string _), .written_free (fun _ => rfl) (.stringTable k),
    by simp⟩

end AuthProvider

namespace AuthInfo

theorem lawful : record.Lawful where
  names := by decide
  get_put := by simp [record, optionalField]
  apart := by simp [record, optionalField]
  ext r s h := by cases r; cases s; simpa [record, optionalField] using h
  required := by simp [record, optionalField]

theorem faithful (k : Nat) : Faithful record.codec (k + 4) (fun _ _ => True) id := by
  have htext {get : AuthInfo → Option String} {put : Option String → AuthInfo → AuthInfo}
      {name : String} (hblank : get record.blank = none) :
      Field.Faithful (optionalField name string get put) record.blank (k + 3) (fun _ _ => True) id :=
    .optional_free hblank .string (.string _)
  have hgroups : Faithful (list string) (k + 3) (fun _ _ => True) id := by
    simpa using (Faithful.string (k + 2)).list_id
  refine Record.faithful_free lawful ?_
  simp only [record, List.forall_mem_cons]
  exact ⟨htext rfl, htext rfl, htext rfl, htext rfl, htext rfl, htext rfl, htext rfl, htext rfl,
    htext rfl, .optional_free rfl (.list _) hgroups,
    .optional_free rfl (.record _) (AuthProvider.faithful (k + 1)),
    .optional_free rfl (.record _) (ExecConfig.faithful k), by simp⟩

end AuthInfo

namespace NamedAuthInfo

theorem lawful : record.Lawful where
  names := by decide
  get_put := by simp [record, requiredField, optionalField]
  apart := by simp [record, requiredField, optionalField]
  ext r s h := by cases r; cases s; simpa [record, requiredField, optionalField] using h
  required := by simp [record, requiredField, optionalField]

theorem faithful (k : Nat) : Faithful record.codec (k + 5) (fun _ _ => True) id := by
  refine Record.faithful_free lawful ?_
  simp only [record, List.forall_mem_cons]
  exact ⟨.written_free (fun _ => rfl) (.string _),
    .optional_free rfl (.record _) (AuthInfo.faithful k), by simp⟩

end NamedAuthInfo

/-! ## Contexts -/

namespace Context

theorem lawful : record.Lawful where
  names := by decide
  get_put := by simp [record, requiredField, optionalField]
  apart := by simp [record, requiredField, optionalField]
  ext r s h := by cases r; cases s; simpa [record, requiredField, optionalField] using h
  required := by simp [record, requiredField, optionalField]

/-- The extensions fit inside of the context. -/
def Fits (d : Nat) (c : Context) : Prop := ∀ es ∈ c.extensions, extensionsFit d es

theorem faithful (k : Nat) : Faithful record.codec (k + 3) (fun d c => c.Fits (d - 1)) id := by
  refine Record.faithful lawful (fun d es h => by cases h) ?_
  simp only [record, List.forall_mem_cons]
  refine ⟨?_, ?_, ?_, ?_, by simp⟩
  · exact .written (fun _ => rfl) (.string _) (fun _ _ _ h _ => h) (fun _ _ _ => trivial) fun _ => rfl
  · exact .written (fun _ => rfl) (.string _) (fun _ _ _ h _ => h) (fun _ _ _ => trivial) fun _ => rfl
  · exact .optional_plain rfl .string (.string _) (fun _ _ _ h => h) fun _ => rfl
  · exact .optional rfl neverNull_extensions (faithful_extensions k) (fun _ _ _ _ h => h)
      (fun _ _ h => h) fun r => by simp

theorem yieldsValue : YieldsValue record.codec fun d c => c.Fits (d - 1) := by
  refine Record.yieldsValue (fun d es h => by cases h) ?_
  simp only [record, List.forall_mem_cons]
  exact ⟨.always fun _ _ _ h => h, .always fun _ _ _ h => h, .always fun _ _ _ h => h,
    yieldsValue_extensions.option.weaken fun _ _ h _ _ => h, by simp⟩

end Context

namespace NamedContext

theorem lawful : record.Lawful where
  names := by decide
  get_put := by simp [record, requiredField, optionalField]
  apart := by simp [record, requiredField, optionalField]
  ext r s h := by cases r; cases s; simpa [record, requiredField, optionalField] using h
  required := by simp [record, requiredField, optionalField]

/-- The body fits inside of the entry. -/
def Fits (d : Nat) (c : NamedContext) : Prop := ∀ b ∈ c.context, b.Fits (d - 1)

theorem faithful (k : Nat) : Faithful record.codec (k + 4) (fun d c => c.Fits (d - 1)) id := by
  refine Record.faithful lawful (fun d b h => by cases h) ?_
  simp only [record, List.forall_mem_cons]
  refine ⟨?_, ?_, by simp⟩
  · exact .written (fun _ => rfl) (.string _) (fun _ _ _ h _ => h) (fun _ _ _ => trivial) fun _ => rfl
  · exact .optional rfl (.record _) (Context.faithful k) (fun _ _ _ _ h => h) (fun _ _ h => h)
      fun r => by simp

theorem yieldsValue : YieldsValue record.codec fun d c => c.Fits (d - 1) := by
  refine Record.yieldsValue (fun d b h => by cases h) ?_
  simp only [record, List.forall_mem_cons]
  exact ⟨.always fun _ _ _ h => h, Context.yieldsValue.option.weaken fun _ _ h _ _ => h, by simp⟩

end NamedContext

/-! ## Kubeconfigs -/

namespace Kubeconfig

theorem lawful : record.Lawful where
  names := by decide
  get_put := by simp [record, optionalField, defaultedField]
  apart := by simp [record, optionalField, defaultedField]
  ext r s h := by cases r; cases s; simpa [record, optionalField, defaultedField] using h
  required := by simp [record, optionalField, defaultedField]

/-- **All extensions fit inside of the kubeconfig**, wherever they stand. -/
structure Fits (d : Nat) (k : Kubeconfig) : Prop where
  preferences : ∀ p ∈ k.preferences, p.Fits (d - 1)
  clusters : ∀ c ∈ k.clusters, c.Fits (d - 1 - 1)
  contexts : ∀ c ∈ k.contexts, c.Fits (d - 1 - 1)
  extensions : ∀ es ∈ k.extensions, extensionsFit d es

theorem Fits.empty (d : Nat) : empty.Fits d := by
  refine ⟨?_, ?_, ?_, ?_⟩ <;> intro x hx <;> cases hx

/-- **A kubeconfig is read as it is written.** -/
theorem faithful (n : Nat) : Faithful record.codec (n + 7) (fun d k => k.Fits (d - 1)) id := by
  have htext {get : Kubeconfig → Option String} {put : Option String → Kubeconfig → Kubeconfig}
      {name : String} (hblank : get record.blank = none)
      (hput : ∀ d o k, Fits d k → Fits d (put o k)) :
      Field.Faithful (optionalField name string get put) record.blank (n + 6) Fits id :=
    .optional_plain hblank .string (.string _) hput fun _ => rfl
  have husers : Faithful (list NamedAuthInfo.record.codec) (n + 6) (fun _ _ => True) id := by
    simpa using (NamedAuthInfo.faithful n).list_id
  refine Record.faithful lawful Fits.empty ?_
  simp only [record, List.forall_mem_cons]
  refine ⟨?_, ?_, ?_, ?_, ?_, ?_, ?_, ?_, by simp⟩
  · exact .optional rfl (.record _) (Preferences.faithful (n + 3))
      (fun _ _ _ h hp => ⟨hp, h.clusters, h.contexts, h.extensions⟩) (fun _ _ h => h.preferences)
      fun r => by simp
  · exact .written (fun _ => rfl)
      ((NamedCluster.faithful (n + 1)).list_id.orDefault (.list _) fun _ _ hx => by cases hx)
      (fun _ _ _ h hc => ⟨h.preferences, hc, h.contexts, h.extensions⟩) (fun _ _ h => h.clusters)
      fun _ => rfl
  · exact .written (fun _ => rfl) (husers.orDefault (.list _) fun _ => trivial)
      (fun _ _ _ h _ => ⟨h.preferences, h.clusters, h.contexts, h.extensions⟩) (fun _ _ _ => trivial)
      fun _ => rfl
  · exact .written (fun _ => rfl)
      ((NamedContext.faithful (n + 1)).list_id.orDefault (.list _) fun _ _ hx => by cases hx)
      (fun _ _ _ h hc => ⟨h.preferences, h.clusters, hc, h.extensions⟩) (fun _ _ h => h.contexts)
      fun _ => rfl
  · exact htext rfl fun _ _ _ h => ⟨h.preferences, h.clusters, h.contexts, h.extensions⟩
  · exact .optional rfl neverNull_extensions (faithful_extensions (n + 4))
      (fun _ _ _ h he => ⟨h.preferences, h.clusters, h.contexts, he⟩) (fun _ _ h => h.extensions)
      fun r => by simp
  · exact htext rfl fun _ _ _ h => ⟨h.preferences, h.clusters, h.contexts, h.extensions⟩
  · exact htext rfl fun _ _ _ h => ⟨h.preferences, h.clusters, h.contexts, h.extensions⟩

theorem yieldsValue : YieldsValue record.codec fun d k => k.Fits (d - 1) := by
  refine Record.yieldsValue Fits.empty ?_
  simp only [record, List.forall_mem_cons]
  refine ⟨?_, ?_, ?_, ?_, ?_, ?_, ?_, ?_, by simp⟩
  · exact Preferences.yieldsValue.option.weaken fun _ _ hp _ h =>
      ⟨hp, h.clusters, h.contexts, h.extensions⟩
  · exact (NamedCluster.yieldsValue.list.orDefault fun _ _ hx => by cases hx).weaken fun _ _ hc _ h =>
      ⟨h.preferences, hc, h.contexts, h.extensions⟩
  · exact .always fun _ _ _ h => ⟨h.preferences, h.clusters, h.contexts, h.extensions⟩
  · exact (NamedContext.yieldsValue.list.orDefault fun _ _ hx => by cases hx).weaken fun _ _ hc _ h =>
      ⟨h.preferences, h.clusters, hc, h.extensions⟩
  · exact .always fun _ _ _ h => ⟨h.preferences, h.clusters, h.contexts, h.extensions⟩
  · exact yieldsValue_extensions.option.weaken fun _ _ he _ h =>
      ⟨h.preferences, h.clusters, h.contexts, he⟩
  · exact .always fun _ _ _ h => ⟨h.preferences, h.clusters, h.contexts, h.extensions⟩
  · exact .always fun _ _ _ h => ⟨h.preferences, h.clusters, h.contexts, h.extensions⟩

end Kubeconfig

end ConfigVault
