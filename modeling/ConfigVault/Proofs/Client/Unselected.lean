import ConfigVault.Proofs.Client.Select
import ConfigVault.Proofs.Error
import ConfigVault.Proofs.Kubeconfig.Same

/-! # What is not selected does not matter

Two kubeconfigs in which a selection finds the same entries (`Kubeconfig.SelectedAlike`) lead to the
same client configuration, or to errors that say the same, whatever else they hold
(`SecretKubeconfig.clientConfig_selectedAlike`).  Files matter only for the authorities of the
selected cluster, and the environment only for the proxy.

The condition follows the way that a selection goes.  It asks for the same first entry under the name
of the context, and then only for the cluster and the user that this context names; where the way
ends early nothing more is asked.  The entries of a user are the same up to the order of string
tables, as everywhere, so the configurations are equal up to that order, too (`ClientConfig.Same`).

Two computations match when both give related results or both report related errors (`Matches`).
Selecting matches (`Kubeconfig.SelectedAlike.matches_select`), each step behind it matches as it
depends on the selected entries alone (`ClientConfig.matches_ofSelected`), and matching goes on from
step to step (`Matches.bind`).
-/
namespace ConfigVault

/-! ## Computations that match -/

section Matching

variable {α β γ ζ ε δ : Type}

/-- **Both give related results, or both report related errors.** -/
inductive Matches (R : α → β → Prop) (S : ε → δ → Prop) : Except ε α → Except δ β → Prop where
  | ok {x : α} {y : β} (h : R x y) : Matches R S (.ok x) (.ok y)
  | error {c : ε} {d : δ} (h : S c d) : Matches R S (.error c) (.error d)

namespace Matches

variable {R : α → β → Prop} {S : ε → δ → Prop} {e : Except ε α} {f : Except δ β}

theorem refl (e : Except ε α) : Matches Eq Eq e e := by
  cases e with
  | ok x => exact .ok rfl
  | error c => exact .error rfl

theorem bind {R' : γ → ζ → Prop} {p : α → Except ε γ} {q : β → Except δ ζ} (h : Matches R S e f)
    (hrest : ∀ x y, R x y → Matches R' S (p x) (q y)) : Matches R' S (e >>= p) (f >>= q) := by
  cases h with
  | ok h => exact hrest _ _ h
  | error h => exact .error h

/-- What both begin with matches, and so does what follows from the same beginning. -/
theorem bind_same {R' : γ → ζ → Prop} {p : α → Except ε γ} {q : α → Except ε ζ} (e : Except ε α)
    (hrest : ∀ x, Matches R' Eq (p x) (q x)) : Matches R' Eq (e >>= p) (e >>= q) :=
  (refl e).bind fun x _ hxy => hxy ▸ hrest x

theorem mapError {ε' δ' : Type} {S' : ε' → δ' → Prop} {p : ε → ε'} {q : δ → δ'} (h : Matches R S e f)
    (hpq : ∀ c d, S c d → S' (p c) (q d)) : Matches R S' (e.mapError p) (f.mapError q) := by
  cases h with
  | ok h => exact .ok h
  | error h => exact .error (hpq _ _ h)

end Matches

end Matching

/-! ## Selecting -/

namespace Kubeconfig

/-- The first context under a name, with or without a body. -/
def firstContext? (k : Kubeconfig) (name : String) : Option NamedContext :=
  k.contexts.find? fun c => c.name == name

/-- The first cluster under a name, with or without a body. -/
def firstCluster? (k : Kubeconfig) (name : String) : Option NamedCluster :=
  k.clusters.find? fun c => c.name == name

/-- The first user under a name, with or without a body. -/
def firstUser? (k : Kubeconfig) (name : String) : Option NamedAuthInfo :=
  k.authInfos.find? fun u => u.name == name

/-- **A selection finds the same in both**: the same name of a context, and the same first entries
under that name and under those of its cluster and its user.  Nothing is said about the entries that
are not found. -/
structure SelectedAlike (o : Selection) (a b : Kubeconfig) : Prop where
  name : a.contextName? o = b.contextName? o
  context : ∀ name, a.contextName? o = some name → a.firstContext? name = b.firstContext? name
  cluster : ∀ name context, a.contextName? o = some name → a.context? name = some context →
    a.firstCluster? (o.cluster.getD context.cluster) =
      b.firstCluster? (o.cluster.getD context.cluster)
  user : ∀ name context, a.contextName? o = some name → a.context? name = some context →
    Option.Rel NamedAuthInfo.Same (a.firstUser? (o.user.getD context.user))
      (b.firstUser? (o.user.getD context.user))

end Kubeconfig

/-- The same selected entries, but for the order in which string tables are listed. -/
structure Selected.Same (s t : Selected) : Prop where
  context : s.context = t.context
  cluster : s.cluster = t.cluster
  authInfo : s.authInfo.Same t.authInfo

theorem NamedAuthInfo.Same.authInfo_bind {u v : Option NamedAuthInfo}
    (h : Option.Rel NamedAuthInfo.Same u v) :
    Option.Rel AuthInfo.Same (u.bind NamedAuthInfo.authInfo) (v.bind NamedAuthInfo.authInfo) := by
  cases h with
  | none => exact .none
  | some h => exact h.authInfo

namespace Kubeconfig.SelectedAlike

variable {o : Selection} {a b : Kubeconfig}

theorem context?_eq (h : a.SelectedAlike o b) {name : String} (hname : a.contextName? o = some name) :
    a.context? name = b.context? name :=
  congrArg (Option.bind · NamedContext.context) (h.context name hname)

/-- **The same is selected from both**, or the same is missing. -/
theorem matches_select (h : a.SelectedAlike o b) :
    Matches Selected.Same Eq (a.select o) (b.select o) := by
  rw [select, select, ← h.name]
  cases hname : a.contextName? o with
  | none => exact .error rfl
  | some name =>
    dsimp only
    rw [← h.context?_eq hname]
    cases hcontext : a.context? name with
    | none => exact .error rfl
    | some context =>
      have hcluster : a.cluster? (o.cluster.getD context.cluster) =
          b.cluster? (o.cluster.getD context.cluster) :=
        congrArg (Option.bind · NamedCluster.cluster) (h.cluster name context hname hcontext)
      have huser : Option.Rel AuthInfo.Same (a.authInfo? (o.user.getD context.user))
          (b.authInfo? (o.user.getD context.user)) :=
        NamedAuthInfo.Same.authInfo_bind (h.user name context hname hcontext)
      dsimp only
      rw [← hcluster]
      cases a.cluster? (o.cluster.getD context.cluster) with
      | none => exact .error rfl
      | some cluster =>
        dsimp only
        generalize a.authInfo? (o.user.getD context.user) = u at huser
        generalize b.authInfo? (o.user.getD context.user) = v at huser
        cases huser with
        | none => exact .error rfl
        | some hsame => exact .ok ⟨rfl, rfl, hsame⟩

end Kubeconfig.SelectedAlike

/-! ## Beyond the selected entries -/

/-- Whether a program wants to know about the cluster does not depend on how its tables are listed. -/
theorem AuthInfo.Same.wantsCluster_eq {a b : AuthInfo} (h : a.Same b) :
    a.wantsCluster = b.wantsCluster := by
  have hexec := h.exec
  unfold wantsCluster
  generalize a.exec = e at hexec
  generalize b.exec = f at hexec
  cases hexec with
  | none => rfl
  | @some x y hsame =>
    have hrest := hsame.rest
    simp only [ExecConfig.mk.injEq] at hrest
    rw [Option.map_some, Option.map_some, hrest.2.2.2.2.2]

/-- **The same client configuration**, but for the order in which the string tables of its user are
listed. -/
structure ClientConfig.Same (c d : ClientConfig) : Prop where
  authInfo : c.authInfo.Same d.authInfo
  rest : { c with authInfo := AuthInfo.record.blank } = { d with authInfo := AuthInfo.record.blank }

/-- A cluster that names no file with its authorities does not depend on files. -/
theorem Cluster.authorities_eq {c : Cluster} (h : c.certificateAuthority = none) (disk disk' : Disk) :
    c.authorities disk = c.authorities disk' := by
  unfold authorities
  rw [h]
  cases c.certificateAuthorityData <;> rfl

namespace ClientConfig

/-- The variables of the environment that name a proxy. -/
def proxyVariables : List String := ["HTTP_PROXY", "HTTPS_PROXY"]

theorem proxy_congr {env env' : String → Option String}
    (h : ∀ name ∈ proxyVariables, env name = env' name) (c : Cluster) : proxy env c = proxy env' c := by
  unfold proxy
  rw [h "HTTP_PROXY" (by decide), h "HTTPS_PROXY" (by decide)]

/-- **The selected entries decide** what the configuration is, together with the proxy variables and,
where the cluster names one, the file with its authorities. -/
theorem matches_ofSelected {s t : Selected} (h : s.Same t) {env env' : String → Option String}
    (henv : ∀ name ∈ proxyVariables, env name = env' name) {disk disk' : Disk}
    (hdisk : s.cluster.certificateAuthority = none ∨ disk = disk') :
    Matches ClientConfig.Same Eq (ofSelected disk env s) (ofSelected disk' env' t) := by
  have hauthorities : s.cluster.authorities disk = t.cluster.authorities disk' := by
    rw [← h.cluster]
    rcases hdisk with hpath | rfl
    · exact Cluster.authorities_eq hpath disk disk'
    · rfl
  have hexec : execCluster? disk s = execCluster? disk' t := by
    unfold execCluster? Cluster.forExec
    rw [hauthorities, h.authInfo.wantsCluster_eq, h.cluster]
  rw [ofSelected_eq, ofSelected_eq, ← hexec, ← hauthorities, ← h.cluster, ← h.context,
    proxy_congr henv]
  refine Matches.bind_same _ fun execCluster => Matches.bind_same _ fun clusterUrl => ?_
  refine Matches.bind_same _ fun authorities => Matches.bind_same _ fun rootCertificates => ?_
  exact Matches.bind_same _ fun proxyUrl => .ok ⟨h.authInfo, rfl⟩

end ClientConfig

/-! ## Handles -/

namespace SecretKubeconfig

variable {a b : SecretKubeconfig} {o : Selection}

theorem namespace?_selectedAlike (h : a.kubeconfig.SelectedAlike o b.kubeconfig) :
    a.namespace? o = b.namespace? o := by
  rw [namespace?_eq, namespace?_eq, ← h.name]
  cases hname : a.kubeconfig.contextName? o with
  | none => rfl
  | some name => rw [Option.bind_some, Option.bind_some, h.context?_eq hname]

theorem matches_clientConfig (hsecret : a.secret = b.secret)
    (h : a.kubeconfig.SelectedAlike o b.kubeconfig) {env env' : String → Option String}
    (henv : ∀ name ∈ ClientConfig.proxyVariables, env name = env' name) {disk disk' : Disk}
    (hdisk : (∀ s, a.kubeconfig.select o = .ok s → s.cluster.certificateAuthority = none) ∨
      disk = disk') :
    Matches ClientConfig.Same (fun e f : Error => e == f) (a.clientConfig disk env o)
      (b.clientConfig disk' env' o) := by
  have hresolve : Matches ClientConfig.Same Eq (ClientConfig.resolve disk env a.kubeconfig o)
      (ClientConfig.resolve disk' env' b.kubeconfig o) := by
    have hselect := h.matches_select
    unfold ClientConfig.resolve
    generalize hs : a.kubeconfig.select o = s at hselect hdisk
    generalize b.kubeconfig.select o = t at hselect
    cases hselect with
    | error hcause => exact .error hcause
    | ok hsame =>
      exact ClientConfig.matches_ofSelected hsame henv (hdisk.imp_left fun hpath => hpath _ rfl)
  refine hresolve.mapError ?_
  rintro cause _ rfl
  rw [hsecret]
  exact Error.beq_self _

/-- **Only what is selected matters.**  Two handles with the same identity, in which a selection finds
the same entries, have the same namespace and lead to the same client configuration, or fail with
errors that say the same.  If the selected cluster names no file with its authorities, that is so
whatever files there are. -/
theorem clientConfig_selectedAlike (hsecret : a.secret = b.secret)
    (h : a.kubeconfig.SelectedAlike o b.kubeconfig) {env env' : String → Option String}
    (henv : ∀ name ∈ ClientConfig.proxyVariables, env name = env' name) :
    a.namespace? o = b.namespace? o ∧
      (∀ disk, Matches ClientConfig.Same (fun e f : Error => e == f) (a.clientConfig disk env o)
        (b.clientConfig disk env' o)) ∧
      ((∀ s, a.kubeconfig.select o = .ok s → s.cluster.certificateAuthority = none) →
        ∀ disk disk', Matches ClientConfig.Same (fun e f : Error => e == f)
          (a.clientConfig disk env o) (b.clientConfig disk' env' o)) := by
  refine ⟨namespace?_selectedAlike h, fun disk => ?_, fun hpath disk disk' => ?_⟩
  · exact matches_clientConfig hsecret h henv (.inr rfl)
  · exact matches_clientConfig hsecret h henv (.inl hpath)

/-- The handle with other entries around its own, and with other things to say. -/
def withOthers (h : SecretKubeconfig) : SecretKubeconfig :=
  { h with kubeconfig := { h.kubeconfig with
      clusters := ⟨"other", none⟩ :: h.kubeconfig.clusters
      authInfos := ⟨"root", none⟩ :: (h.kubeconfig.authInfos ++ [⟨"u", none⟩])
      contexts := h.kubeconfig.contexts ++ [⟨"spare", none⟩]
      kind := some "Config" } }

/-- Entries under other names, and later ones under the same name, change nothing; nor do files that
the cluster does not name.  A selected cluster that is missing is missing in both. -/
theorem clientConfig_selectedAlike_withOthers :
    let a := withContexts ⟨"default", "k"⟩
    let env : String → Option String := fun _ => none
    let gone : Selection := ⟨none, some "gone", none⟩
    a.kubeconfig.SelectedAlike .default (withOthers a).kubeconfig ∧
      Matches ClientConfig.Same (fun e f : Error => e == f)
        (a.clientConfig (Disk.ofFiles []) env .default)
        ((withOthers a).clientConfig (Disk.ofFiles [("ca", [])]) env .default) ∧
      (∃ c, a.clientConfig (Disk.ofFiles []) env .default = .ok c) ∧
      Matches ClientConfig.Same (fun e f : Error => e == f)
        (a.clientConfig (Disk.ofFiles []) env gone)
        ((withOthers a).clientConfig (Disk.ofFiles []) env gone) := by
  intro a env gone
  have henv : ∀ name ∈ ClientConfig.proxyVariables, env name = env name := fun _ _ => rfl
  have halike : a.kubeconfig.SelectedAlike .default (withOthers a).kubeconfig := by
    refine ⟨rfl, ?_, ?_, ?_⟩
    · rintro name ⟨⟩
      rfl
    · rintro name context ⟨⟩ ⟨⟩
      rfl
    · rintro name context ⟨⟩ ⟨⟩
      exact .some (.refl _)
  have hgone : a.kubeconfig.SelectedAlike gone (withOthers a).kubeconfig := by
    refine ⟨rfl, ?_, ?_, ?_⟩
    · rintro name ⟨⟩
      rfl
    · rintro name context ⟨⟩ ⟨⟩
      rfl
    · rintro name context ⟨⟩ ⟨⟩
      exact .some (.refl _)
  have hpath : ∀ s, a.kubeconfig.select .default = .ok s →
      s.cluster.certificateAuthority = none := by
    rintro s ⟨⟩
    rfl
  have hsecret : a.secret = (withOthers a).secret := rfl
  obtain ⟨-, -, hdefault⟩ := clientConfig_selectedAlike hsecret halike henv
  obtain ⟨-, hsame, -⟩ := clientConfig_selectedAlike hsecret hgone henv
  exact ⟨halike, hdefault hpath _ _, ⟨_, rfl⟩, hsame _⟩

end SecretKubeconfig

end ConfigVault
