import ConfigVault.Proofs.Gives
import ConfigVault.SecretKubeconfig

/-! # Which context is selected

A selection leads through the context to the cluster and the user, and the first of them that is not
there is reported.  `Kubeconfig.Selects` has one case for each way that this can end: no name for a
context, no context under the name, no cluster or no user for it, or all three; and what
`Kubeconfig.select` gives is always one of them (`Kubeconfig.selects_select`).  Of entries with one
name the first counts, and one without a body is as good as missing.

A handle says which namespace it is for without resolving anything, and its client configuration has
a namespace to work in.  Both come from the same context, for the same lookup is behind both
(`SecretKubeconfig.namespace?_eq`).  Two facts about the steps behind the selection make that hold to
the end (`ClientConfig.ofSelected_eq`): none of them touches the namespace of the selected context
(`ClientConfig.gives_ofSelected`), and none reports that there is no context to use
(`ClientConfig.reports_ofSelected`).  So the namespace of a client configuration is that of the
handle, or else the usual one, and where the context is reported as missing the handle has no
namespace either (`SecretKubeconfig.clientConfig_namespace`).
-/
namespace ConfigVault

/-! ## Selecting -/

/-- **What a selection leads to**, and what has been found by then. -/
inductive Kubeconfig.Selects (k : Kubeconfig) (o : Selection) :
    Except KubeconfigError Selected → Prop where
  | unset (hname : k.contextName? o = none) : Selects k o (.error .currentContextNotSet)
  | noContext {name : String} (hname : k.contextName? o = some name)
    (hcontext : k.context? name = none) : Selects k o (.error (.loadContext name))
  | noCluster {name : String} {context : Context} (hname : k.contextName? o = some name)
    (hcontext : k.context? name = some context)
    (hcluster : k.cluster? (o.cluster.getD context.cluster) = none) :
    Selects k o (.error (.loadClusterOfContext (o.cluster.getD context.cluster)))
  | noUser {name : String} {context : Context} {cluster : Cluster}
    (hname : k.contextName? o = some name) (hcontext : k.context? name = some context)
    (hcluster : k.cluster? (o.cluster.getD context.cluster) = some cluster)
    (huser : k.authInfo? (o.user.getD context.user) = none) :
    Selects k o (.error (.findUser (o.user.getD context.user)))
  | found {name : String} {s : Selected} (hname : k.contextName? o = some name)
    (hcontext : k.context? name = some s.context)
    (hcluster : k.cluster? (o.cluster.getD s.context.cluster) = some s.cluster)
    (huser : k.authInfo? (o.user.getD s.context.user) = some s.authInfo) : Selects k o (.ok s)

/-- **Selecting goes from the context to the cluster to the user.** -/
theorem Kubeconfig.selects_select (k : Kubeconfig) (o : Selection) : k.Selects o (k.select o) := by
  rw [select]
  cases hname : k.contextName? o with
  | none => exact .unset hname
  | some name =>
    dsimp only
    cases hcontext : k.context? name with
    | none => exact .noContext hname hcontext
    | some context =>
      dsimp only
      cases hcluster : k.cluster? (o.cluster.getD context.cluster) with
      | none => exact .noCluster hname hcontext hcluster
      | some cluster =>
        dsimp only
        cases huser : k.authInfo? (o.user.getD context.user) with
        | none => exact .noUser hname hcontext hcluster huser
        | some authInfo => exact .found hname hcontext hcluster huser

/-- The error says that there is no context to use. -/
def KubeconfigError.LacksContext : KubeconfigError → Prop
  | .currentContextNotSet => True
  | .loadContext _ => True
  | _ => False

namespace ClientConfig

/-! ## Beyond the selected entries -/

/-- What the program of a user is told about the cluster, if it wants to know. -/
def execCluster? (disk : Disk) (s : Selected) : Except KubeconfigError (Option ExecCluster) :=
  if s.authInfo.wantsCluster then some <$> s.cluster.forExec disk else .ok none

/-- The certificates among the octets of the authorities, if there are any. -/
def rootCertificates? : Option (List UInt8) → Except KubeconfigError (Option (List (List UInt8)))
  | none => .ok none
  | some bytes => some <$> certificates bytes

/-- **The client configuration step by step**: the program, the address, the authorities, the proxy. -/
theorem ofSelected_eq (disk : Disk) (env : String → Option String) (s : Selected) :
    ofSelected disk env s =
      (execCluster? disk s >>= fun execCluster =>
        clusterUrl? s.cluster >>= fun clusterUrl =>
          s.cluster.authorities disk >>= fun authorities =>
            rootCertificates? authorities >>= fun rootCertificates =>
              proxy env s.cluster >>= fun proxyUrl =>
                .ok {
                  clusterUrl, rootCertificates, proxyUrl, execCluster
                  defaultNamespace := s.context.namespace.getD "default"
                  acceptInvalidCertificates := s.cluster.insecureSkipTlsVerify.getD false
                  tlsServerName := s.cluster.tlsServerName
                  authInfo := s.authInfo }) := by
  unfold ofSelected execCluster?
  split
  all_goals
    refine bind_congr fun execCluster => bind_congr fun clusterUrl => ?_
    refine bind_congr fun authorities => ?_
    cases authorities <;> rfl

/-- The namespace to work in is that of the selected context. -/
theorem gives_ofSelected (disk : Disk) (env : String → Option String) (s : Selected) :
    Gives (ofSelected disk env s) fun c =>
      c.defaultNamespace = s.context.namespace.getD "default" := by
  rw [ofSelected_eq]
  refine (Gives.trivial _).bind fun _ _ => (Gives.trivial _).bind fun _ _ => ?_
  refine (Gives.trivial _).bind fun _ _ => (Gives.trivial _).bind fun _ _ => ?_
  exact (Gives.trivial _).bind fun _ _ => .ok rfl

theorem reports_authorities (disk : Disk) (c : Cluster) :
    Reports (c.authorities disk) fun e => ¬ e.LacksContext :=
  .mapError fun _ => id

/-- **Once the context is found** no later step misses it. -/
theorem reports_ofSelected (disk : Disk) (env : String → Option String) (s : Selected) :
    Reports (ofSelected disk env s) fun e => ¬ e.LacksContext := by
  have hexec : Reports (execCluster? disk s) fun e => ¬ e.LacksContext := by
    unfold execCluster?
    split
    · exact Reports.map ((reports_authorities disk s.cluster).bind fun _ => .ok)
    · exact .ok
  have hurl : Reports (clusterUrl? s.cluster) fun e => ¬ e.LacksContext := by
    unfold clusterUrl?
    split
    · exact .error id
    · exact .mapError fun _ => id
  have hroots (bytes : Option (List UInt8)) :
      Reports (rootCertificates? bytes) fun e => ¬ e.LacksContext := by
    cases bytes with
    | none => exact .ok
    | some bytes => exact Reports.map (Reports.bind (.mapError fun _ => id) fun _ => .ok)
  have hproxy : Reports (proxy env s.cluster) fun e => ¬ e.LacksContext := by
    unfold proxy
    split
    · exact .ok
    · exact .mapError fun _ => id
  rw [ofSelected_eq]
  refine hexec.bind fun _ => hurl.bind fun _ => ?_
  refine (reports_authorities disk s.cluster).bind fun bytes => (hroots bytes).bind fun _ => ?_
  exact hproxy.bind fun _ => .ok

end ClientConfig

/-! ## Handles -/

namespace SecretKubeconfig

/-- The namespace of a handle is that of the context that is found under its name. -/
theorem namespace?_eq (h : SecretKubeconfig) (o : Selection) :
    h.namespace? o =
      ((h.kubeconfig.contextName? o).bind h.kubeconfig.context?).bind Context.namespace := by
  show ((h.kubeconfig.contextName? o).bind fun name =>
    (h.kubeconfig.contexts.find? fun c => c.name == name).bind fun named =>
      named.context.bind Context.namespace) = _
  simp only [Option.bind_assoc, Kubeconfig.context?]

/-- **A handle and its client configuration agree about the context.**  The namespace to work in is
that of the handle, or else the fallback; and if no context is found there is no namespace either.  So
a handle with a namespace resolves to no other one, and its context is never reported as missing. -/
theorem clientConfig_namespace (disk : Disk) (env : String → Option String) (h : SecretKubeconfig)
    (o : Selection) :
    (∀ c, h.clientConfig disk env o = .ok c →
      c.defaultNamespace = (h.namespace? o).getD "default") ∧
    (∀ r cause, h.clientConfig disk env o = .error (.clientConfig r cause) → cause.LacksContext →
      h.namespace? o = none) ∧
    ∀ name, h.namespace? o = some name →
      (∀ c, h.clientConfig disk env o = .ok c → c.defaultNamespace = name) ∧
      ∀ r cause, h.clientConfig disk env o = .error (.clientConfig r cause) →
        ¬ cause.LacksContext := by
  have hok : ∀ c, h.clientConfig disk env o = .ok c →
      c.defaultNamespace = (h.namespace? o).getD "default" := by
    intro c hc
    obtain ⟨s, hselect, hc⟩ := bind_eq_ok.mp (mapError_eq_ok.mp hc)
    have hselects := h.kubeconfig.selects_select o
    rw [hselect] at hselects
    cases hselects with
    | found hname hcontext hcluster huser =>
      rw [ClientConfig.gives_ofSelected disk env s c hc, namespace?_eq, hname, Option.bind_some,
        hcontext, Option.bind_some]
  have herror : ∀ r cause, h.clientConfig disk env o = .error (.clientConfig r cause) →
      cause.LacksContext → h.namespace? o = none := by
    intro r cause hcause hlacks
    obtain ⟨cause', hresolve, heq⟩ := mapError_eq_error.mp hcause
    cases heq
    have hselects := h.kubeconfig.selects_select o
    rw [ClientConfig.resolve] at hresolve
    rw [namespace?_eq]
    generalize h.kubeconfig.select o = result at hselects hresolve
    -- No context was found in the first two cases; where one was, nothing reports it as missing.
    cases hselects with
    | unset hname => rw [hname]; rfl
    | noContext hname hcontext => rw [hname, Option.bind_some, hcontext]; rfl
    | noCluster => cases hresolve; exact hlacks.elim
    | noUser => cases hresolve; exact hlacks.elim
    | @found _ s => exact absurd hlacks (ClientConfig.reports_ofSelected disk env s _ hresolve)
  refine ⟨hok, herror, ?_⟩
  intro name hname
  constructor
  · intro c hc
    rw [hok c hc, hname, Option.getD_some]
  · intro r cause hcause hlacks
    rw [herror r cause hcause hlacks] at hname
    cases hname

/-- A handle with one context under its name, and another one without a body. -/
def withContexts (h : SecretRef) : SecretKubeconfig where
  secret := h
  kubeconfig := { Kubeconfig.empty with
    clusters := [⟨"c", some { Cluster.record.blank with server := some "https://c" }⟩]
    authInfos := [⟨"u", some AuthInfo.record.blank⟩]
    contexts := [⟨"bare", none⟩, ⟨"x", some ⟨"c", "u", some "dev", none⟩⟩, ⟨"x", none⟩]
    currentContext := some "x" }

/-- Of two contexts with one name the first counts, and one without a body is as good as missing. -/
theorem clientConfig_namespace_withContexts :
    let h := withContexts ⟨"default", "k"⟩
    let bare : Selection := ⟨some "bare", none, none⟩
    (∃ c, h.clientConfig (Disk.ofFiles []) (fun _ => none) .default = .ok c ∧
        c.defaultNamespace = "dev") ∧
      h.clientConfig (Disk.ofFiles []) (fun _ => none) bare =
        .error (.clientConfig h.secret (.loadContext "bare")) ∧
      h.namespace? bare = none := by
  intro h bare
  obtain ⟨hok, -, -⟩ := clientConfig_namespace (Disk.ofFiles []) (fun _ => none) h .default
  obtain ⟨-, herror, -⟩ := clientConfig_namespace (Disk.ofFiles []) (fun _ => none) h bare
  have hbare : h.clientConfig (Disk.ofFiles []) (fun _ => none) bare =
      .error (.clientConfig h.secret (.loadContext "bare")) := rfl
  refine ⟨⟨_, rfl, hok _ rfl⟩, hbare, herror _ _ hbare trivial⟩

end SecretKubeconfig

end ConfigVault
