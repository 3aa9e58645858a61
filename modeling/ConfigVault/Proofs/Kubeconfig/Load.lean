import ConfigVault.Kubeconfig.Load
import ConfigVault.Proofs.Codec.Document
import ConfigVault.Proofs.Kubeconfig.Codec

/-! # Loaded kubeconfigs fit

Whatever is loaded from a text, and whatever is read from octets, has only extensions that a document
can hold where they stand: each document gives a kubeconfig that fits (`gives_ofDocument`), and
merging takes nothing apart and puts nothing deeper (`Fits.merge`).
-/
namespace ConfigVault.Kubeconfig

open Yaml Codec

/-- How many collections can be entered inside of a kubeconfig. -/
def innerDepth : Nat := Place.maxDepth - 1

/-! ## One document -/

/-- The value of a document fits into it. -/
theorem gives_valueOf (d : Document) : Gives (valueOf d) (Value.Fits Place.maxDepth) := by
  have hroot : Gives ((Value.read (Place.root d) d.root).run 0) fun a =>
      a.1.Fits Place.maxDepth :=
    fun a ha => Value.fits_read (Place.root d) d.root 0 a.1 a.2 ha
  refine hroot.bind fun a ha => ?_
  dsimp only
  split
  · exact .error
  · exact .pure ha

theorem gives_ofDocument (d : Document) : Gives (ofDocument d) (Fits innerDepth) :=
  ((gives_valueOf d).mapError _).bind fun v hv => (yieldsValue _ v hv).mapError _

/-! ## Several documents -/

theorem mem_appendNew {α : Type} {name : α → String} {xs ys : List α} {x : α}
    (h : x ∈ appendNew name xs ys) : x ∈ xs ∨ x ∈ ys := by
  rcases List.mem_append.mp h with hx | hy
  · exact .inl hx
  · exact .inr (List.mem_of_mem_filter hy)

theorem mem_or {α : Type} {a b : Option α} {x : α} (h : x ∈ a.or b) : x ∈ a ∨ x ∈ b := by
  cases a with
  | none => exact .inr (by simpa using h)
  | some y => exact .inl h

/-- **Merging keeps what fits.** -/
theorem Fits.merge {d : Nat} {k next : Kubeconfig} (hk : k.Fits d) (hnext : next.Fits d) :
    Gives (Kubeconfig.merge k next) (Fits d) := by
  unfold Kubeconfig.merge
  split
  · exact .error
  split
  · exact .error
  refine .ok ⟨?_, ?_, ?_, ?_⟩
  · intro p hp
    exact (mem_or hp).elim (hk.preferences p) (hnext.preferences p)
  · intro c hc
    exact (mem_appendNew hc).elim (hk.clusters c) (hnext.clusters c)
  · intro c hc
    exact (mem_appendNew hc).elim (hk.contexts c) (hnext.contexts c)
  · intro es hes
    exact (mem_or hes).elim (hk.extensions es) (hnext.extensions es)

theorem Fits.mergeAll {d : Nat} {k : Kubeconfig} {nexts : List Kubeconfig} (hk : k.Fits d)
    (hnexts : ∀ next ∈ nexts, next.Fits d) : Gives (Kubeconfig.mergeAll k nexts) (Fits d) :=
  .foldlM hk fun _ next hnext h => h.merge (hnexts next hnext)

/-- **Every kubeconfig that is loaded from a text fits into a document.** -/
theorem gives_ofText (text : String) : Gives (ofText text) (Fits innerDepth) := by
  have hdocuments : Gives (documentsOf text) fun ks => ∀ k ∈ ks, k.Fits innerDepth :=
    .mapM fun d _ => gives_ofDocument d
  exact hdocuments.bind fun ks hks => (Fits.empty _).mergeAll hks

/-! ## Octets -/

/-- **Every kubeconfig that is read from octets fits into a document.** -/
theorem gives_ofBytes (bytes : List UInt8) : Gives (ofBytes bytes) (Fits innerDepth) :=
  gives_readDocument (faithful 0).yields bytes

/-! ## What was written -/

/-- The clusters are always written. -/
theorem members_ne_nil (k : Kubeconfig) : record.members k ≠ [] := by
  intro h
  have hmem : ("clusters", (Codec.list NamedCluster.record.codec).toJson k.clusters) ∈
      record.members k :=
    List.mem_filterMap.mpr ⟨_, List.mem_cons_of_mem _ (List.mem_cons_self ..), rfl⟩
  rw [h] at hmem
  cases hmem

theorem readsAs {k : Kubeconfig} (hk : k.Fits innerDepth) :
    ReadsAs record.codec Place.maxDepth k k :=
  (faithful 121).reads (Nat.le_refl _) hk

/-- **A kubeconfig that fits is read from its own text.** -/
theorem ofBytes_render {k : Kubeconfig} (hk : k.Fits innerDepth) :
    ofBytes (Text.Utf8.encodeString (Yaml.render k.toJson)) = .ok k :=
  readDocument_render rfl (members_ne_nil k) (readsAs hk)

/-- Nothing is missing from the only kubeconfig. -/
theorem merge_empty (k : Kubeconfig) : merge empty k = .ok k := by
  have hnew {α : Type} (name : α → String) (xs : List α) : appendNew name [] xs = xs := by
    simp [appendNew]
  show (Except.ok _ : Except KubeconfigError Kubeconfig) = _
  simp only [empty, hnew, Option.none_or]

/-- The kubeconfig of a text with a single document is that of the document. -/
theorem ofText_of_allOf {text : String} {d : Document}
    (h : Document.allOf (Text.Utf8.encodeString text) = [d]) : ofText text = ofDocument d := by
  rw [ofText, documentsOf, h, List.mapM_cons]
  cases ofDocument d with
  | error e => rfl
  | ok k => exact (bind_pure _).trans (merge_empty k)

/-- **A kubeconfig that fits is loaded from its own text**: it is strict enough. -/
theorem ofText_render_of_fits {k : Kubeconfig} (hk : k.Fits innerDepth) :
    ofText (Yaml.render k.toJson) = .ok k := by
  obtain ⟨node, hdocument, hshows⟩ : ∃ node,
      Document.allOf (Text.Utf8.encodeString (Yaml.render k.toJson)) = [⟨node, none⟩] ∧
        Shows k.toJson node := allOf_render (members_ne_nil k)
  have hreads := readsAs hk
  have hvalue : valueOf ⟨node, none⟩ = .ok (Value.ofJson k.toJson) := by
    have hread : Value.read (Place.root ⟨node, none⟩) node = pure (Value.ofJson k.toJson) :=
      Value.readNested_of_shows hreads.readable (Nat.le_refl _) (Nat.le_refl _) hshows
    rw [valueOf, hread]
    rfl
  have hrecord : record.ofValue (Value.ofJson k.toJson) = .ok k := hreads.ofValue
  rw [ofText_of_allOf hdocument, ofDocument, hvalue]
  show (record.ofValue (Value.ofJson k.toJson)).mapError _ = _
  rw [hrecord]
  rfl

end ConfigVault.Kubeconfig
