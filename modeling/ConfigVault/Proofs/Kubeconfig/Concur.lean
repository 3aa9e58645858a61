import ConfigVault.Proofs.Codec.Concur
import ConfigVault.Proofs.SecretKubeconfig

/-! # Stored text is read as it is loaded

A kubeconfig can get into a secret in two ways: its text can be stored as it is, to be read
leniently, or it can be loaded strictly and written anew.  Either way the same kubeconfig comes out
of the secret (`SecretKubeconfig.ofSecret_of_text`), unless a scalar of the text masks a null.

The two readers have little in common.  The lenient one goes through the nodes of a document and asks
each for what it needs; the strict one makes a value of each document first and decodes that.  What
ties them together is the relation between a node and the value that it means (`Yaml.Means`): the
strict reader's value is the one that the root means (`Kubeconfig.means_of_ofDocument`), and every
codec reads a node as it reads the value of the node, if it reads both (`Codec.Concurs`).  There is
one such fact for each kind of entry, put together from those of its fields, up to
`Kubeconfig.concurs`.

The readers part in one place only.  A scalar with a tag can mean null and yet not be absent, as in
`!!null "null"`: the strict reader sees a null there, but a lenient one keeps the text that is behind
the tag.  The null is masked (`Kubeconfig.masksNull`).  A masked null stays what it looks like when
it is stored, and is lost when it is loaded (`SecretKubeconfig.not_ofSecret_of_masked_text`).
Aliases can reach any anchored node of a document, so none of it may mask a null.
-/
namespace ConfigVault

open Yaml Codec

theorem NamedExtension.concurs : Concurs record.codec := by
  refine Record.concurs ?_
  simp only [record, List.forall_mem_cons]
  exact ⟨.string, .json, by simp⟩

theorem concurs_extensions : Concurs extensionsCodec := NamedExtension.concurs.list

theorem Preferences.concurs : Concurs record.codec := by
  refine Record.concurs ?_
  simp only [record, List.forall_mem_cons]
  exact ⟨Concurs.bool.option, concurs_extensions.option, by simp⟩

theorem Cluster.concurs : Concurs record.codec := by
  have htext : Concurs (option string) := Concurs.string.option
  refine Record.concurs ?_
  simp only [record, List.forall_mem_cons]
  exact ⟨htext, Concurs.bool.option, htext, htext, htext, htext, concurs_extensions.option, by simp⟩

theorem NamedCluster.concurs : Concurs record.codec := by
  refine Record.concurs ?_
  simp only [record, List.forall_mem_cons]
  exact ⟨.string, Cluster.concurs.option, by simp⟩

/-! ## Users -/

theorem ExecConfig.concurs : Concurs record.codec := by
  have htext : Concurs (option string) := Concurs.string.option
  refine Record.concurs ?_
  simp only [record, List.forall_mem_cons]
  exact ⟨htext, htext, Concurs.string.list.option, Concurs.stringTable.list.option,
    (Concurs.choice _ _).option, .bool, by simp⟩

theorem AuthProvider.concurs : Concurs record.codec := by
  refine Record.concurs ?_
  simp only [record, List.forall_mem_cons]
  exact ⟨.string, .stringTable, by simp⟩

theorem AuthInfo.concurs : Concurs record.codec := by
  have htext : Concurs (option string) := Concurs.string.option
  refine Record.concurs ?_
  simp only [record, List.forall_mem_cons]
  exact ⟨htext, htext, htext, htext, htext, htext, htext, htext, htext,
    Concurs.string.list.option, AuthProvider.concurs.option, ExecConfig.concurs.option, by simp⟩

theorem NamedAuthInfo.concurs : Concurs record.codec := by
  refine Record.concurs ?_
  simp only [record, List.forall_mem_cons]
  exact ⟨.string, AuthInfo.concurs.option, by simp⟩

/-! ## Contexts -/

theorem Context.concurs : Concurs record.codec := by
  refine Record.concurs ?_
  simp only [record, List.forall_mem_cons]
  exact ⟨.string, .string, Concurs.string.option, concurs_extensions.option, by simp⟩

theorem NamedContext.concurs : Concurs record.codec := by
  refine Record.concurs ?_
  simp only [record, List.forall_mem_cons]
  exact ⟨.string, Context.concurs.option, by simp⟩

/-! ## Kubeconfigs -/

namespace Kubeconfig

theorem concurs : Concurs record.codec := by
  have htext : Concurs (option string) := Concurs.string.option
  refine Record.concurs ?_
  simp only [record, List.forall_mem_cons]
  exact ⟨Preferences.concurs.option, NamedCluster.concurs.list.orDefault _,
    NamedAuthInfo.concurs.list.orDefault _, NamedContext.concurs.list.orDefault _, htext,
    concurs_extensions.option, htext, htext, by simp⟩

/-- Some scalar of the text masks its null. -/
def masksNull (text : String) : Bool :=
  (Document.allOf (Text.Utf8.encodeString text)).any fun d => d.root.masksNull

/-- A document is loaded from the value that it means. -/
theorem means_of_ofDocument {d : Document} {k : Kubeconfig} (h : ofDocument d = .ok k) :
    ∃ v, Means (Scope.ofDocument d) false d.root v ∧ record.ofValue v = .ok k := by
  obtain ⟨v, hvalue, hrecord⟩ := bind_eq_ok.mp h
  refine ⟨v, ?_, mapError_eq_ok.mp hrecord⟩
  obtain ⟨⟨w, n⟩, hread, hw⟩ := bind_eq_ok.mp (mapError_eq_ok.mp hvalue)
  have hv : w = v := by
    dsimp only at hw
    split at hw
    · cases hw
    · exact Except.ok.inj hw
  rw [← hv]
  exact Value.means_of_readNested (Place.root d).depth rfl false d.root 0 w n hread

/-- **Text is read as it is loaded**, if it is both, and no scalar masks a null. -/
theorem ofBytes_eq_ofText {text : String} {k l : Kubeconfig} (hload : ofText text = .ok k)
    (hread : ofBytes (Text.Utf8.encodeString text) = .ok l) (hmask : masksNull text = false) :
    l = k := by
  obtain ⟨node, n, hdocuments, hnode⟩ := exists_of_readDocument hread
  have hunmasked : node.masksNull = false := by
    simpa [masksNull, hdocuments] using hmask
  obtain ⟨v, hv, hvalue⟩ := means_of_ofDocument (ofText_of_allOf hdocuments ▸ hload)
  have hagree := concurs (Place.root ⟨node, none⟩) node v (unmaskedScope_ofDocument hunmasked)
    hunmasked hv
  exact hagree 0 l n hnode k hvalue

end Kubeconfig

namespace SecretKubeconfig

/-- **Text that is stored as it is reads the same as text that is loaded and written anew**, whatever
the secret is called and in whatever order string tables are listed, unless the text masks a null. -/
theorem ofSecret_of_text {text : String} {k : Kubeconfig} (hload : Kubeconfig.ofText text = .ok k)
    (hmask : Kubeconfig.masksNull text = false) {s : Secret} {key : String}
    (hkept : s.get? key = some (Text.Utf8.encodeString text)) {h : SecretKubeconfig}
    (hread : ofSecret s key = .ok h) (r : SecretRef) {listed : Kubeconfig} (hlisted : k.Same listed) :
    ∃ h', ofSecret (listed.toSecret r) kubeconfigKey = .ok h' ∧ h.kubeconfig.Same h'.kubeconfig := by
  obtain ⟨-, hbytes⟩ := (ofSecret_eq_ok_iff ((s.holds_iff key _).mpr hkept)).mp hread
  have hsame : h.kubeconfig = k := Kubeconfig.ofBytes_eq_ofText hload hbytes hmask
  have hfits : k.Fits Kubeconfig.innerDepth := Kubeconfig.gives_ofText text k hload
  refine ⟨⟨r, listed⟩, ofSecret_of_fits (hfits.of_same hlisted) r, ?_⟩
  rw [hsame]
  exact hlisted

/-- The secret that keeps a text under a key. -/
def textSecret (key text : String) : Secret :=
  Secret.empty.insert key (Text.Utf8.encodeString text)

theorem get?_textSecret (key text : String) :
    (textSecret key text).get? key = some (Text.Utf8.encodeString text) :=
  (SortedMap.get?_insert ..).trans (if_pos rfl)

theorem ofSecret_textSecret {text : String} {k : Kubeconfig} (key : String)
    (h : Kubeconfig.ofBytes (Text.Utf8.encodeString text) = .ok k) :
    ofSecret (textSecret key text) key = .ok ⟨SecretRef.ofSecret (textSecret key text), k⟩ :=
  (ofSecret_eq_ok_iff ((Secret.holds_iff ..).mpr (get?_textSecret key text))).mpr ⟨rfl, h⟩

/-- A null that is written as one, and a text that only looks like one. -/
theorem ofSecret_of_text_plain :
    let text := "kind: 'null'\ncurrent-context: ~\n"
    ∃ k h, Kubeconfig.ofText text = .ok k ∧ Kubeconfig.masksNull text = false ∧
      (textSecret "config" text).get? "config" = some (Text.Utf8.encodeString text) ∧
      ofSecret (textSecret "config" text) "config" = .ok h ∧ k.Same k ∧
      ∃ h', ofSecret (k.toSecret ⟨"default", "no"⟩) kubeconfigKey = .ok h' ∧
        h.kubeconfig.Same h'.kubeconfig := by
  intro text
  have hloaded : (Kubeconfig.ofText text).toOption.map Kubeconfig.kind = some (some "null") := by
    decide +kernel
  have hstored : (Kubeconfig.ofBytes (Text.Utf8.encodeString text)).toOption.map Kubeconfig.kind =
      some (some "null") := by
    decide +kernel
  have hmask : Kubeconfig.masksNull text = false := by decide +kernel
  obtain ⟨k, hk, -⟩ := exists_of_toOption hloaded
  obtain ⟨l, hl, -⟩ := exists_of_toOption hstored
  have hkept := get?_textSecret "config" text
  have hread := ofSecret_textSecret "config" hl
  exact ⟨k, _, hk, hmask, hkept, hread, .refl k,
    ofSecret_of_text hk hmask hkept hread ⟨"default", "no"⟩ (.refl k)⟩

/-- **A masked null is lost when its text is loaded**: behind a null tag, quoted text is kept when it
is read as it is stored. -/
theorem not_ofSecret_of_masked_text :
    ¬ ∀ (text : String) (k : Kubeconfig) (s : Secret) (key : String) (h : SecretKubeconfig)
      (r : SecretRef) (listed : Kubeconfig), Kubeconfig.ofText text = .ok k →
      s.get? key = some (Text.Utf8.encodeString text) → ofSecret s key = .ok h → k.Same listed →
      ∃ h', ofSecret (listed.toSecret r) kubeconfigKey = .ok h' ∧
        h.kubeconfig.Same h'.kubeconfig := by
  intro hall
  let text := "kind: !!null \"null\"\n"
  have hloaded : (Kubeconfig.ofText text).toOption.map Kubeconfig.kind = some none := by
    decide +kernel
  have hstored : (Kubeconfig.ofBytes (Text.Utf8.encodeString text)).toOption.map Kubeconfig.kind =
      some (some "null") := by
    decide +kernel
  obtain ⟨k, hk, hnone⟩ := exists_of_toOption hloaded
  obtain ⟨l, hl, hsome⟩ := exists_of_toOption hstored
  obtain ⟨h', hread, hsame⟩ := hall text k _ "config" _ ⟨"", ""⟩ k hk (get?_textSecret "config" text)
    (ofSecret_textSecret "config" hl) (.refl k)
  rw [ofSecret_of_fits (Kubeconfig.gives_ofText text k hk)] at hread
  cases hread
  have hrest := congrArg Kubeconfig.kind hsame.rest
  have hkind : l.kind = k.kind := hrest
  rw [hsome, hnone] at hkind
  cases hkind

end SecretKubeconfig

end ConfigVault
