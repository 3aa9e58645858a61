import ConfigVault.Proofs.Cli.Run
import ConfigVault.Proofs.Client.Select

/-! # The log of a run that ends well

Steps that succeed show certain events, whatever was reported before (`Steps.Shows`).  Unless the
environment asks for more, the log has one event of a run that encodes, one of a run that resolves what
it decodes, and none of any other run that ends well (`run_of_encodes`, `run_of_decodes`).  The events
tell which secret a kubeconfig was put into, and which cluster one leads to.  So the log is the same
whatever a kubeconfig says about its users (`stderr_run_credentials`).
-/
namespace ConfigVault.Cli

variable {α β ε : Type}

/-! ## What is shown -/

/-- The parts of the program that report events. -/
def targets : List String :=
  [Command.mainTarget, Command.conversionTarget, Command.resolutionTarget]

/-- For each part of the program the usual filter has the same directive. -/
theorem directive?_default : ∀ target ∈ targets, Log.Filter.default.directive? target =
    some ⟨some "kubeconfig_secret", false, Log.Level.info.rank⟩ := by
  decide

/-- **The usual filter shows the events of the program** that are no less important than
information. -/
theorem shows_default {target : String} (h : target ∈ targets) (level : Log.Level)
    (message : String) : Log.Filter.default.shows ⟨level, target, message⟩ =
      decide (level.rank ≤ Log.Level.info.rank) := by
  rw [Log.Filter.shows, directive?_default target h]
  rfl

theorem ofEnv_eq_default {env : String → Option String} (h : env logVariable = none) :
    Log.Filter.ofEnv env = Log.Filter.default := by
  show ((env logVariable).bind Log.Filter.parse?).getD Log.Filter.default = _
  rw [h]
  rfl

/-! ## Steps that show events -/

namespace Steps

/-- **The steps succeed with this result**, and of the events that they report the usual filter shows
these, whatever was reported before. -/
def Shows (s : Steps α) (x : α) (shown : List Log.Event) : Prop :=
  ∃ reported, (∀ events, s.run.run events = (.ok x, events ++ reported)) ∧
    reported.filter Log.Filter.default.shows = shown

namespace Shows

variable {s : Steps α} {x : α} {y : β} {f : α → Steps β} {g : Unit → Steps β}
  {first events : List Log.Event} {target message : String}

theorem pure (x : α) : Shows (Pure.pure x) x [] :=
  ⟨[], fun events => Prod.ext rfl (List.append_nil events).symm, rfl⟩

/-- Events are shown one after the other. -/
theorem bind (hs : Shows s x first) (hf : Shows (f x) y events) :
    Shows (s >>= f) y (first ++ events) := by
  obtain ⟨reported, hs, rfl⟩ := hs
  obtain ⟨later, hf, rfl⟩ := hf
  refine ⟨reported ++ later, fun before => ?_, List.filter_append ..⟩
  rw [ExceptT.run_bind, StateT.run_bind, hs before, ← List.append_assoc]
  exact hf (before ++ reported)

/-- Nothing is shown of what is read and goes well. -/
theorem orFail {e : Except ε α} (h : e = .ok x) {failure : ε → Failure}
    (hf : Shows (f x) y events) : Shows (Steps.orFail failure e >>= f) y events := by
  rw [h]
  exact (pure x).bind hf

/-- Details are hidden. -/
theorem debug (h : target ∈ targets) (hg : Shows (g ()) y events) :
    Shows (report .debug target message >>= g) y events := by
  have hreport : Shows (report .debug target message) () [] := by
    refine ⟨[⟨.debug, target, message⟩], fun _ => rfl, ?_⟩
    rw [List.filter_cons_of_neg, List.filter_nil]
    rw [shows_default h]
    decide
  exact hreport.bind hg

theorem info (h : target ∈ targets) : Shows (report .info target message) ()
    [⟨.info, target, message⟩] :=
  ⟨[⟨.info, target, message⟩], fun _ => rfl, List.filter_cons_of_pos (shows_default h ..)⟩

end Shows

end Steps

namespace Command

open Steps

/-- The event that tells which secret a kubeconfig was put into. -/
def encodedEvent (r : SecretRef) : Log.Event :=
  ⟨.info, mainTarget, "Encoded kubeconfig into secret " ++ r.text⟩

/-- The event that tells where the kubeconfig in a secret leads to. -/
def resolvedEvent (r : SecretRef) (c : ClientConfig) : Log.Event :=
  ⟨.info, mainTarget, "Secret " ++ r.text ++ " resolves to cluster " ++ c.clusterUrl.text ++
    " (namespace " ++ c.defaultNamespace ++ ")"⟩

/-- **Encoding shows which secret is made**; the length of its text stays hidden. -/
theorem shows_encodeSteps {w : World} {path : Option String} {k : Kubeconfig}
    (h : readKubeconfig w path = .ok k) (r : SecretRef) (output : ManifestFormat) :
    Shows (encodeSteps w r path output) ((k.toSecret r).render output) [encodedEvent r] :=
  .orFail h (.debug (by decide) ((Shows.info (by decide)).bind (.pure _)))

/-- **Resolving shows where a kubeconfig leads to.** -/
theorem shows_verifySteps {w : World} {h : SecretKubeconfig} {context : Option String}
    {c : ClientConfig}
    (hc : h.clientConfig w.disk w.env { Selection.default with context } = .ok c) :
    Shows (verifySteps w h context) () [resolvedEvent h.secret c] :=
  .orFail hc (.debug (by decide) (.info (by decide)))

/-- **Decoding shows nothing** besides what resolving shows. -/
theorem shows_decodeSteps {w : World} {file context : Option String} {key manifest : String}
    {secret : Secret} {h : SecretKubeconfig} {verify : Bool} {events : List Log.Event}
    (hmanifest : readManifest w file = .ok manifest) (hparsed : Secret.ofManifest manifest = .ok secret)
    (hdecoded : SecretKubeconfig.ofSecret secret key = .ok h)
    (hverify : Shows (if verify then verifySteps w h context else pure ()) () events) :
    Shows (decodeSteps w file key verify context) h.kubeconfig.render events := by
  have hrest := hverify.bind (f := fun _ => pure h.kubeconfig.render) (.pure _)
  rw [List.append_nil] at hrest
  refine .orFail hmanifest (.orFail hparsed (.orFail hdecoded (.debug (by decide) ?_)))
  cases verify with
  | true => exact hrest
  | false => exact hrest

end Command

/-! ## Runs -/

/-- **Steps that succeed make the outcome**: their result, and the events of theirs that the usual
filter shows. -/
theorem Outcome.ofInvocation_of_shows {w : World} (hlog : w.env logVariable = none) (i : Invocation)
    {text : String} {events : List Log.Event} (h : Steps.Shows (i.command.steps w) text events) :
    ofInvocation w i = ⟨0, text, events, i.logJson, ""⟩ := by
  obtain ⟨reported, hsteps, rfl⟩ := h
  rw [ofInvocation, hsteps [], ofEnv_eq_default hlog]
  rfl

/-- The handle that a run has to decode, whether or not it leads to a cluster. -/
def Takes (w : World) (g : Given) (h : SecretKubeconfig) : Prop :=
  ∃ text secret, IsManifest w (g.given? "file") text ∧ Secret.ofManifest text = .ok secret ∧
    SecretKubeconfig.ofSecret secret (keyOf w g) = .ok h

theorem Takes.unique {w : World} {g : Given} {h i : SecretKubeconfig} (hh : Takes w g h)
    (hi : Takes w g i) : h = i := by
  obtain ⟨text, secret, hmanifest, hparsed, hdecoded⟩ := hh
  obtain ⟨text', secret', hmanifest', hparsed', hdecoded'⟩ := hi
  rw [← readManifest_eq_ok] at hmanifest hmanifest'
  obtain rfl : text = text' := Except.ok.inj (hmanifest.symm.trans hmanifest')
  obtain rfl : secret = secret' := Except.ok.inj (hparsed.symm.trans hparsed')
  exact Except.ok.inj (hdecoded.symm.trans hdecoded')

theorem Decodes.takes {w : World} {g : Given} {h : SecretKubeconfig} (hd : Decodes w g h) :
    Takes w g h := by
  obtain ⟨hmanifest, hparsed, hdecoded, -⟩ := hd
  exact ⟨_, _, hmanifest, hparsed, hdecoded⟩

section

variable {w : World} {args : List String} {outer g : Given}

/-- A run that decodes and ends well has decoded what it takes in. -/
theorem decodes_of_exitCode (haccepts : Accepts Grammar.decode args outer g)
    (hcode : (run w args).exitCode = 0) {h : SecretKubeconfig} (htakes : Takes w g h) :
    Decodes w g h := by
  rw [run_of_decode haccepts] at hcode
  have hprints := Outcome.prints_of_result (w := w)
    (i := ⟨outer.has Options.logJson.long || g.has Options.logJson.long, Demand.decode w.env g⟩)
    fun t => result_decode
  by_contra hnone
  have hall : ¬∃ i, Decodes w g i := by
    rintro ⟨i, hi⟩
    exact hnone (htakes.unique hi.takes ▸ hi)
  rw [(hprints.2 hall).1] at hcode
  cases hcode

variable (hlog : w.env logVariable = none)
include hlog

/-- **A run that encodes** and ends well shows one event, which tells the name of the secret. -/
theorem run_of_encodes (haccepts : Accepts Grammar.encode args outer g) {name : String}
    (hname : g.given? "name" = some name) {k : Kubeconfig} (hk : Encodes w g k) :
    ∃ text, run w args = ⟨0, text,
      [Command.encodedEvent ⟨(g.given? "namespace").getD "default", name⟩],
      outer.has Options.logJson.long || g.has Options.logJson.long, ""⟩ := by
  rw [run_of_encode haccepts, demand_encode_eq w hname]
  exact ⟨_, Outcome.ofInvocation_of_shows hlog _
    (Command.shows_encodeSteps (readKubeconfig_eq_ok.mpr hk) _ _)⟩

/-- **A run that decodes** and ends well shows at most one event, which tells what it resolved. -/
theorem run_of_decodes (haccepts : Accepts Grammar.decode args outer g) {h : SecretKubeconfig}
    (hd : Decodes w g h) :
    ∃ text events, run w args = ⟨0, text, events,
        outer.has Options.logJson.long || g.has Options.logJson.long, ""⟩ ∧
      if g.has "verify" then ∃ c, h.clientConfig w.disk w.env
          { Selection.default with context := g.given? "context" } = .ok c ∧
            events = [Command.resolvedEvent h.secret c]
        else events = [] := by
  obtain ⟨hmanifest, hparsed, hdecoded, hverified⟩ := hd
  have hsteps {events : List Log.Event} (hverify : Steps.Shows (if g.has "verify" then
      Command.verifySteps w h (g.given? "context") else pure ()) () events) :
      run w args = ⟨0, h.kubeconfig.render, events,
        outer.has Options.logJson.long || g.has Options.logJson.long, ""⟩ := by
    rw [run_of_decode haccepts, demand_decode_eq]
    exact Outcome.ofInvocation_of_shows hlog _ (Command.shows_decodeSteps
      (readManifest_eq_ok.mpr hmanifest) hparsed hdecoded hverify)
  cases hverify : g.has "verify" with
  | true =>
    obtain ⟨c, hc⟩ := hverified hverify
    rw [hverify] at hsteps
    exact ⟨_, _, hsteps (Command.shows_verifySteps hc), c, hc, rfl⟩
  | false =>
    rw [hverify] at hsteps
    exact ⟨_, _, hsteps (.pure ()), rfl⟩

end

end ConfigVault.Cli

/-! ## Credentials -/

namespace ConfigVault

/-- The kubeconfig without the bodies of its users. -/
def Kubeconfig.withoutCredentials (k : Kubeconfig) : Kubeconfig :=
  { k with authInfos := k.authInfos.map fun u => { u with authInfo := none } }

/-- **The kubeconfigs differ at most in the bodies of their users.** -/
def Kubeconfig.SameButCredentials (k l : Kubeconfig) : Prop :=
  k.withoutCredentials = l.withoutCredentials

/-- The address is that of the selected cluster. -/
theorem ClientConfig.gives_clusterUrl (disk : Disk) (env : String → Option String) (s : Selected) :
    Gives (ofSelected disk env s) fun c => clusterUrl? s.cluster = .ok c.clusterUrl := by
  have hurl : Gives (clusterUrl? s.cluster) fun url => clusterUrl? s.cluster = .ok url :=
    fun _ h => h
  rw [ofSelected_eq]
  refine (Gives.trivial _).bind fun _ _ => hurl.bind fun url hurl => ?_
  refine (Gives.trivial _).bind fun _ _ => (Gives.trivial _).bind fun _ _ => ?_
  exact (Gives.trivial _).bind fun _ _ => .ok hurl

/-- **Where a kubeconfig leads to** does not depend on what it says about its users. -/
theorem SecretKubeconfig.sameButCredentials_leads {h i : SecretKubeconfig}
    (hsame : h.kubeconfig.SameButCredentials i.kubeconfig) {disk disk' : Disk}
    {env env' : String → Option String} {o : Selection} {c d : ClientConfig}
    (hc : h.clientConfig disk env o = .ok c) (hd : i.clientConfig disk' env' o = .ok d) :
    c.clusterUrl = d.clusterUrl ∧ c.defaultNamespace = d.defaultNamespace := by
  obtain ⟨s, hs, hc⟩ := bind_eq_ok.mp (mapError_eq_ok.mp hc)
  obtain ⟨t, ht, hd⟩ := bind_eq_ok.mp (mapError_eq_ok.mp hd)
  simp only [Kubeconfig.SameButCredentials, Kubeconfig.withoutCredentials,
    Kubeconfig.mk.injEq] at hsame
  obtain ⟨-, hclusters, -, hcontexts, hcurrent, -⟩ := hsame
  have hselects := h.kubeconfig.selects_select o
  have hselects' := i.kubeconfig.selects_select o
  rw [hs] at hselects
  rw [ht] at hselects'
  cases hselects with
  | found hname hcontext hcluster huser =>
    cases hselects' with
    | found hname' hcontext' hcluster' huser' =>
      rw [Kubeconfig.contextName?, hcurrent] at hname
      obtain rfl := Option.some.inj (hname.symm.trans hname')
      rw [Kubeconfig.context?, hcontexts] at hcontext
      have hst : s.context = t.context := Option.some.inj (hcontext.symm.trans hcontext')
      rw [Kubeconfig.cluster?, hclusters, hst] at hcluster
      have hcl : s.cluster = t.cluster := Option.some.inj (hcluster.symm.trans hcluster')
      have hurl := ClientConfig.gives_clusterUrl disk env s c hc
      have hurl' := ClientConfig.gives_clusterUrl disk' env' t d hd
      rw [hcl] at hurl
      refine ⟨Except.ok.inj (hurl.symm.trans hurl'), ?_⟩
      rw [ClientConfig.gives_ofSelected disk env s c hc, hst,
        ClientConfig.gives_ofSelected disk' env' t d hd]

end ConfigVault

namespace ConfigVault.Cli

theorem Command.resolvedEvent_eq {h i : SecretKubeconfig} (hsecret : h.secret = i.secret)
    (hsame : h.kubeconfig.SameButCredentials i.kubeconfig) {disk disk' : Disk}
    {env env' : String → Option String} {o : Selection} {c d : ClientConfig}
    (hc : h.clientConfig disk env o = .ok c) (hd : i.clientConfig disk' env' o = .ok d) :
    resolvedEvent h.secret c = resolvedEvent i.secret d := by
  obtain ⟨hurl, hnamespace⟩ := SecretKubeconfig.sameButCredentials_leads hsame hc hd
  rw [resolvedEvent, resolvedEvent, hsecret, hurl, hnamespace]

/-- **The log does not reveal credentials.**  Unless the environment says what the log is to show, two
runs with the same arguments and the same environment that end well write the same beside their
results, whatever the times are: if they decode kubeconfigs of the same secret that differ at most in
the bodies of their users, and if they encode, whatever it is that they encode. -/
theorem stderr_run_credentials {w v : World} (henv : w.env = v.env) (hlog : w.env logVariable = none)
    (args : List String) :
    (∀ outer g, Accepts Grammar.encode args outer g → ∀ k l, Encodes w g k → Encodes v g l →
      ∀ time, (run w args).stderr time = (run v args).stderr time) ∧
    (∀ outer g, Accepts Grammar.decode args outer g → ∀ h i, Takes w g h → Takes v g i →
      h.secret = i.secret → h.kubeconfig.SameButCredentials i.kubeconfig →
        (run w args).exitCode = 0 → (run v args).exitCode = 0 →
          ∀ time, (run w args).stderr time = (run v args).stderr time) := by
  have hlog' : v.env logVariable = none := henv ▸ hlog
  constructor
  · intro outer g haccepts k l hk hl time
    obtain ⟨rest, -, hoptions⟩ := id haccepts
    obtain ⟨name, hname⟩ := exists_of_required hoptions (o := Options.name)
      (List.mem_cons_of_mem _ (List.mem_cons_self ..)) rfl
    obtain ⟨text, hrun⟩ := run_of_encodes hlog haccepts hname hk
    obtain ⟨text', hrun'⟩ := run_of_encodes hlog' haccepts hname hl
    rw [hrun, hrun', Outcome.stderr, Outcome.stderr]
  · intro outer g haccepts h i hh hi hsecret hsame hcode hcode' time
    have hd := decodes_of_exitCode haccepts hcode hh
    have hd' := decodes_of_exitCode haccepts hcode' hi
    obtain ⟨text, events, hrun, hevents⟩ := run_of_decodes hlog haccepts hd
    obtain ⟨text', events', hrun', hevents'⟩ := run_of_decodes hlog' haccepts hd'
    have heq : events = events' := by
      cases hverify : g.has "verify" with
      | false =>
        rw [hverify] at hevents hevents'
        exact hevents.trans hevents'.symm
      | true =>
        rw [hverify] at hevents hevents'
        obtain ⟨c, hc, rfl⟩ := hevents
        obtain ⟨d, hd, rfl⟩ := hevents'
        rw [Command.resolvedEvent_eq hsecret hsame hc hd]
    rw [hrun, hrun', heq, Outcome.stderr, Outcome.stderr]

/-- A handle whose only user bears this token. -/
def withToken (token : String) : SecretKubeconfig :=
  let h := SecretKubeconfig.withContexts ⟨"default", "k"⟩
  let user : AuthInfo := { AuthInfo.record.blank with token := some token }
  { h with kubeconfig := { h.kubeconfig with authInfos := [⟨"u", some user⟩] } }

/-- A world in which the handle comes in. -/
def worldWithToken (token : String) : World :=
  worldOf ((Kubeconfig.toSecret (withToken token).kubeconfig ⟨"default", "k"⟩).render .yaml) none

theorem fits_withToken (token : String) :
    (withToken token).kubeconfig.Fits Kubeconfig.innerDepth := by
  refine ⟨?_, ?_, ?_, ?_⟩
  · rintro p ⟨⟩
  · intro c hc
    obtain rfl := List.mem_singleton.mp hc
    rintro b ⟨⟩ es ⟨⟩
  · intro c hc
    rcases List.mem_cons.mp hc with rfl | hc
    · rintro b ⟨⟩
    rcases List.mem_cons.mp hc with rfl | hc
    · rintro b ⟨⟩ es ⟨⟩
    obtain rfl := List.mem_singleton.mp hc
    rintro b ⟨⟩
  · rintro es ⟨⟩

theorem takes_worldWithToken (token : String) {g : Given} (hfile : g.given? "file" = none)
    (hkey : g.given? "key" = none) : Takes (worldWithToken token) g (withToken token) := by
  have hmanifest : IsManifest (worldWithToken token) (g.given? "file")
      (((withToken token).kubeconfig.toSecret ⟨"default", "k"⟩).render .yaml) := by
    rw [hfile]
    refine .omitted ?_
    rw [worldWithToken, worldOf, Disk.textOf, Text.Utf8.decodeString?_encodeString]
  have hparsed : Secret.ofManifest (((withToken token).kubeconfig.toSecret
      ⟨"default", "k"⟩).render .yaml) = .ok ((withToken token).kubeconfig.toSecret
      ⟨"default", "k"⟩) := by
    rw [Secret.ofManifest_render_of_fits (Secret.IsMade.toSecret _ _).fits]
    rfl
  have hkeyOf : keyOf (worldWithToken token) g = kubeconfigKey := by
    rw [keyOf, hkey]
    rfl
  have hdecoded := SecretKubeconfig.ofSecret_of_fits (fits_withToken token) ⟨"default", "k"⟩
  rw [← hkeyOf] at hdecoded
  exact ⟨_, _, hmanifest, hparsed, hdecoded⟩

/-- Tokens of different lengths cannot be told apart by the log of a run that resolves them. -/
theorem stderr_run_credentials_token :
    let w := worldWithToken "s3cr3t"
    let v := worldWithToken "hunter2-hunter2"
    let g : Given := ⟨[("verify", "")], none⟩
    let args := ["decode", "--verify"]
    (w.env = v.env ∧ w.env logVariable = none) ∧ Accepts Grammar.decode args .nothing g ∧
      (Takes w g (withToken "s3cr3t") ∧ Takes v g (withToken "hunter2-hunter2")) ∧
      (run w args).exitCode = 0 ∧ (run v args).exitCode = 0 ∧
      (run w args).stderr "now" = (run v args).stderr "now" := by
  intro w v g args
  have haccepts : Accepts Grammar.decode args .nothing g := ⟨["--verify"], rfl, rfl⟩
  have hw : Takes w g (withToken "s3cr3t") := takes_worldWithToken _ rfl rfl
  have hv : Takes v g (withToken "hunter2-hunter2") := takes_worldWithToken _ rfl rfl
  have hcode {token : String} (htakes : Takes (worldWithToken token) g (withToken token)) :
      (run (worldWithToken token) args).exitCode = 0 := by
    obtain ⟨text, secret, hmanifest, hparsed, hdecoded⟩ := htakes
    obtain ⟨text, events, hrun, -⟩ := run_of_decodes (w := worldWithToken token) rfl haccepts
      ⟨hmanifest, hparsed, hdecoded, fun _ => ⟨_, rfl⟩⟩
    rw [hrun]
  have henv : w.env = v.env := funext fun name => rfl
  have hsame (a b : String) :
      (withToken a).kubeconfig.SameButCredentials (withToken b).kubeconfig := rfl
  have hlog : w.env logVariable = none := rfl
  obtain ⟨-, hdecode⟩ := stderr_run_credentials henv hlog args
  exact ⟨⟨henv, hlog⟩, haccepts, ⟨hw, hv⟩, hcode hw, hcode hv,
    hdecode _ _ haccepts _ _ hw hv rfl (hsame _ _) (hcode hw) (hcode hv) "now"⟩

end ConfigVault.Cli
