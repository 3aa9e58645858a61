import ConfigVault.Proofs.SecretKubeconfig

/-! # Written kubeconfigs are loaded as they are

The text of a kubeconfig is meant for strict readers, too: whatever could be loaded or read from a
secret, its text is loaded as the same kubeconfig (`Kubeconfig.ofText_render`).

The text depends on one thing that the kubeconfig does not determine, the order in which its string
tables happen to be listed when it is written.  Loading keeps the order of the text, so what is
loaded is the very listing that was written, and the same kubeconfig (`Kubeconfig.Same`).  Writing
that once more may list it in yet another order.  Only where no string table has more than one entry
is there but one order; then all listings are equal, the text that is written for the result is the
same once more, and it is what a secret keeps.
-/
namespace ConfigVault.Kubeconfig

/-- **Written text is a fixed point of loading.**  In whatever order the string tables of a kubeconfig
were listed when it was written, its text is loaded as the same kubeconfig.  If there is but one order,
writing the result, listed again, gives the same text, which is what any secret of the kubeconfig
keeps. -/
theorem ofText_render {k : Kubeconfig} (hk : k.IsRead) {listed : Kubeconfig}
    (hlisted : k.Same listed) :
    ∃ k', ofText listed.render = .ok k' ∧ k.Same k' ∧
      ((∀ t ∈ k.tables, t.entries.length ≤ 1) → ∀ relisted, k'.Same relisted →
        relisted.render = listed.render ∧
        ∀ kept, k.Same kept → ∀ r : SecretRef,
          (kept.toSecret r).get? kubeconfigKey = some (Text.Utf8.encodeString relisted.render)) := by
  have hfits : listed.Fits innerDepth := hk.fits.of_same hlisted
  refine ⟨listed, ofText_render_of_fits hfits, hlisted, fun honce relisted hrelisted => ?_⟩
  obtain rfl : k = listed := hlisted.eq honce
  obtain rfl : k = relisted := hrelisted.eq honce
  refine ⟨rfl, fun kept hkept r => ?_⟩
  obtain rfl : k = kept := hkept.eq honce
  exact get?_toSecret k r

/-- A single setting can be written in one order only, and looks like a number. -/
theorem ofText_render_setting :
    let k := SecretKubeconfig.userOf ⟨[("client-id", "7")], by decide⟩
    k.IsRead ∧ (∀ t ∈ k.tables, t.entries.length ≤ 1) ∧
      ∃ k', ofText k.render = .ok k' ∧ k.Same k' ∧
        ∀ relisted, k'.Same relisted → relisted.render = k.render := by
  intro k
  have hfits : k.Fits innerDepth := by
    refine ⟨?_, ?_, ?_, ?_⟩ <;> intro x hx <;> cases hx
  have hread : k.IsRead := .ofSecret (SecretKubeconfig.ofSecret_of_fits hfits ⟨"", ""⟩)
  have honce : ∀ t ∈ k.tables, t.entries.length ≤ 1 := by
    intro t ht
    cases List.mem_singleton.mp ht
    decide
  obtain ⟨k', hloaded, hsame, hfixed⟩ := ofText_render hread (Same.refl k)
  exact ⟨hread, honce, k', hloaded, hsame, fun relisted h => (hfixed honce relisted h).1⟩

end ConfigVault.Kubeconfig
