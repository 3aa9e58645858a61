import ConfigVault.Proofs.Kubeconfig.Load
import ConfigVault.Proofs.Kubeconfig.Same
import ConfigVault.Proofs.SecretErrors

/-! # Kubeconfigs in secrets are read back

A kubeconfig that was loaded or read out of a secret (`Kubeconfig.IsRead`) can be put into a secret
and is read from there as it was, together with the identity of the secret
(`SecretKubeconfig.ofSecret_toSecret`).

The secret keeps the text of the kubeconfig under the usual key, and that text is read as what it was
written from if the kubeconfig fits, that is, if its extensions are not nested deeper than a reader
goes (`Kubeconfig.Fits`).  Both ways to come by a kubeconfig lead through a reader with that very
limit, so all that there are fit (`Kubeconfig.IsRead.fits`).  Whether one fits does not depend on the
order in which its string tables are listed.  So any listing of it can be the one that is written,
and the one that is read is the same kubeconfig.
-/
namespace ConfigVault

open Codec

namespace Kubeconfig

/-- **The kubeconfigs that there are**: those that a text holds, and those that are read from a
secret, whatever was put under the key. -/
inductive IsRead : Kubeconfig → Prop where
  | ofText {text : String} {k : Kubeconfig} (h : ofText text = .ok k) : IsRead k
  | ofSecret {s : Secret} {key : String} {h : SecretKubeconfig}
    (hread : SecretKubeconfig.ofSecret s key = .ok h) : IsRead h.kubeconfig

theorem gives_ofSecret (s : Secret) (key : String) :
    Gives (SecretKubeconfig.ofSecret s key) fun h => h.kubeconfig.Fits innerDepth :=
  (Gives.trivial _).bind fun bytes _ =>
    ((gives_ofBytes bytes).mapError _).bind fun _ hk => .pure hk

theorem IsRead.fits {k : Kubeconfig} (h : k.IsRead) : k.Fits innerDepth := by
  cases h with
  | ofText h => exact gives_ofText _ _ h
  | ofSecret h => exact gives_ofSecret _ _ _ h

/-! ## The secret of a kubeconfig -/

@[simp] theorem secretRef_toSecret (k : Kubeconfig) (r : SecretRef) :
    SecretRef.ofSecret (k.toSecret r) = r := rfl

/-- The secret keeps the text of the kubeconfig. -/
@[simp] theorem get?_toSecret (k : Kubeconfig) (r : SecretRef) :
    (k.toSecret r).get? kubeconfigKey = some (Text.Utf8.encodeString k.render) :=
  (SortedMap.get?_insert ..).trans (if_pos rfl)

theorem holds_toSecret (k : Kubeconfig) (r : SecretRef) :
    (k.toSecret r).Holds kubeconfigKey (Text.Utf8.encodeString k.render) :=
  (Secret.holds_iff ..).mpr (get?_toSecret k r)

end Kubeconfig

namespace SecretKubeconfig

/-- A kubeconfig that fits comes out of its secret unchanged. -/
theorem ofSecret_of_fits {k : Kubeconfig} (hk : k.Fits Kubeconfig.innerDepth) (r : SecretRef) :
    ofSecret (k.toSecret r) kubeconfigKey = .ok ⟨r, k⟩ :=
  (ofSecret_eq_ok_iff (k.holds_toSecret r)).mpr
    ⟨(k.secretRef_toSecret r).symm, Kubeconfig.ofBytes_render hk⟩

/-- **A kubeconfig is read back from the secret it was put into**, in whatever order its string
tables were listed when it was written: the identity is that of the secret, and the kubeconfig is the
same as before. -/
theorem ofSecret_toSecret {k : Kubeconfig} (hk : k.IsRead) (r : SecretRef) {listed : Kubeconfig}
    (hlisted : k.Same listed) :
    ∃ h, ofSecret (listed.toSecret r) kubeconfigKey = .ok h ∧ h.secret = r ∧
      k.Same h.kubeconfig :=
  ⟨⟨r, listed⟩, ofSecret_of_fits (hk.fits.of_same hlisted) r, rfl, hlisted⟩

/-- A user of a service whose settings are listed in this order. -/
def userOf (settings : StringTable) : Kubeconfig :=
  let user : AuthInfo := { AuthInfo.record.blank with authProvider := some ⟨"oidc", settings⟩ }
  { Kubeconfig.empty with authInfos := [⟨"ada", some user⟩] }

/-- Two settings may be written in either order. -/
theorem ofSecret_toSecret_swapped :
    let a : StringTable := ⟨[("client-id", "7"), ("scopes", "")], by decide⟩
    let b : StringTable := ⟨[("scopes", ""), ("client-id", "7")], by decide⟩
    (userOf a).IsRead ∧ (userOf a).Same (userOf b) ∧
      ∃ h, ofSecret ((userOf b).toSecret ⟨"default", "no"⟩) kubeconfigKey = .ok h ∧
        h.secret = ⟨"default", "no"⟩ ∧ (userOf a).Same h.kubeconfig := by
  intro a b
  have hfits : (userOf a).Fits Kubeconfig.innerDepth := by
    refine ⟨?_, ?_, ?_, ?_⟩ <;> intro x hx <;> cases hx
  have hread : (userOf a).IsRead := .ofSecret (ofSecret_of_fits hfits ⟨"", ""⟩)
  have hsame : (userOf a).Same (userOf b) :=
    ⟨.cons ⟨rfl, .some ⟨.some ⟨rfl, .swap ..⟩, .none, rfl⟩⟩ .nil, rfl⟩
  exact ⟨hread, hsame, ofSecret_toSecret hread _ hsame⟩

end SecretKubeconfig

end ConfigVault
