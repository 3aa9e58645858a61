import ConfigVault.Cli.Run

/-! # What steps come to

The steps of a command report events on their way, but what they come to does not depend on them
(`Steps.ComesTo`).  So a command has a result of its own (`Command.result`), which is all that the
exit code and the standard output of a run show.  Nor does the result depend on the variable of the
environment that says what the log shows.
-/
namespace ConfigVault.Cli

variable {α β ε : Type}

/-! ## Steps without their events -/

namespace Steps

/-- **What the steps come to**, whatever was reported before. -/
def ComesTo (s : Steps α) (r : Except Failure α) : Prop := ∀ events, (s.run.run events).1 = r

theorem ComesTo.pure (x : α) : ComesTo (Pure.pure x) (.ok x) := fun _ => rfl

theorem ComesTo.report (level : Log.Level) (target message : String) :
    ComesTo (report level target message) (.ok ()) := fun _ => rfl

theorem ComesTo.orFail (failure : ε → Failure) (e : Except ε α) :
    ComesTo (orFail failure e) (e.mapError failure) := by
  intro events
  cases e <;> rfl

/-- Steps come to what follows comes to, unless they fail. -/
theorem ComesTo.bind {s : Steps α} {r : Except Failure α} {f : α → Steps β}
    {g : α → Except Failure β} (hs : ComesTo s r) (hf : ∀ x, ComesTo (f x) (g x)) :
    ComesTo (s >>= f) (r >>= g) := by
  intro events
  have hevents := hs events
  rw [ExceptT.run_bind, StateT.run_bind]
  generalize s.run.run events = run at hevents
  obtain ⟨result, later⟩ := run
  subst hevents
  cases result with
  | error e => rfl
  | ok x => exact hf x later

end Steps

/-! ## Results -/

namespace Command

open Steps

/-- Resolves a decoded kubeconfig if that is asked for. -/
def verified (w : World) (h : SecretKubeconfig) (verify : Bool) (context : Option String) :
    Except Failure Unit :=
  if verify then
    ((h.clientConfig w.disk w.env { Selection.default with context }).mapError
      Failure.ofError).map fun _ => ()
  else .ok ()

/-- **The result of a command**: its text, or why there is none. -/
def result (w : World) : Command → Except Failure String
  | .encode name «namespace» kubeconfig output => do
    let k ← readKubeconfig w kubeconfig
    pure ((k.toSecret ⟨«namespace», name⟩).render output)
  | .decode file key verify context => do
    let text ← readManifest w file
    let secret ← (Secret.ofManifest text).mapError .ofError
    let handle ← (SecretKubeconfig.ofSecret secret key).mapError .ofError
    verified w handle verify context
    pure handle.kubeconfig.render

theorem comesTo_orFail_id (e : Except Failure α) : ComesTo (orFail id e) e := by
  have h := ComesTo.orFail id e
  cases e <;> exact h

theorem comesTo_verifySteps (w : World) (h : SecretKubeconfig) (context : Option String) :
    ComesTo (verifySteps w h context) (verified w h true context) := by
  have hsteps : ComesTo (verifySteps w h context)
      ((h.clientConfig w.disk w.env { Selection.default with context }).mapError .ofError >>=
        fun _ => .ok ()) :=
    (ComesTo.orFail _ _).bind fun _ => (ComesTo.report _ _ _).bind fun _ => .report _ _ _
  have hresult (e : Except Failure ClientConfig) :
      (e >>= fun _ => Except.ok ()) = e.map fun _ => () := by
    cases e <;> rfl
  rwa [hresult] at hsteps

/-- **The steps of a command come to its result.** -/
theorem comesTo_steps (w : World) (c : Command) : ComesTo (c.steps w) (c.result w) := by
  cases c with
  | encode name «namespace» kubeconfig output =>
    refine (comesTo_orFail_id _).bind fun k => ?_
    exact (ComesTo.report _ _ _).bind fun _ => (ComesTo.report _ _ _).bind fun _ => .pure _
  | decode file key verify context =>
    refine (comesTo_orFail_id _).bind fun text => ?_
    refine (ComesTo.orFail _ _).bind fun secret => ?_
    refine (ComesTo.orFail _ _).bind fun handle => ?_
    refine ComesTo.bind (r := .ok ()) (g := fun _ => do
      verified w handle verify context
      pure handle.kubeconfig.render) (.report _ _ _) fun _ => ?_
    cases verify with
    | true => exact (comesTo_verifySteps w handle context).bind fun _ => .pure _
    | false => exact .pure _

end Command

/-! ## Outcomes -/

/-- Two outcomes that whoever called the program cannot tell apart, unless the log is looked at. -/
structure Outcome.SameResult (o o' : Outcome) : Prop where
  exitCode : o.exitCode = o'.exitCode
  stdout : o.stdout = o'.stdout

theorem Outcome.SameResult.refl (o : Outcome) : o.SameResult o := ⟨rfl, rfl⟩

/-- **A run ends well with the whole text, or it prints nothing.** -/
theorem Outcome.ofInvocation_result (w : World) (i : Invocation) :
    match i.command.result w with
    | .ok text => (ofInvocation w i).exitCode = 0 ∧ (ofInvocation w i).stdout = text
    | .error _ => (ofInvocation w i).exitCode = 1 ∧ (ofInvocation w i).stdout = "" := by
  have hresult := Command.comesTo_steps w i.command []
  unfold ofInvocation
  generalize (i.command.steps w).run.run [] = run at hresult
  obtain ⟨result, events⟩ := run
  subst hresult
  dsimp only
  cases i.command.result w with
  | ok text => exact ⟨rfl, rfl⟩
  | error failure => exact ⟨rfl, rfl⟩

/-- Invocations with the same result have the same outcome, however they are logged. -/
theorem Outcome.sameResult_ofInvocation {w v : World} {i j : Invocation}
    (h : i.command.result w = j.command.result v) :
    (ofInvocation w i).SameResult (ofInvocation v j) := by
  have hi := ofInvocation_result w i
  have hj := ofInvocation_result v j
  rw [h] at hi
  cases hr : j.command.result v with
  | ok text =>
    rw [hr] at hi hj
    exact ⟨hi.1.trans hj.1.symm, hi.2.trans hj.2.symm⟩
  | error failure =>
    rw [hr] at hi hj
    exact ⟨hi.1.trans hj.1.symm, hi.2.trans hj.2.symm⟩

/-! ## The environment -/

/-- The variable that says what the log shows. -/
def logVariable : String := "RUST_LOG"

/-- **The same world**, but for what the log is to show. -/
structure World.SameButLog (w v : World) : Prop where
  disk : w.disk = v.disk
  stdin : w.stdin = v.stdin
  env : ∀ name, name ≠ logVariable → w.env name = v.env name

section Environment

variable {e f : String → Option String} (h : ∀ name, name ≠ logVariable → e name = f name)

include h

theorem Given.value?_congr (g : Given) {o : Opt} (ho : ∀ v ∈ o.envName, v ≠ logVariable) :
    g.value? e o = g.value? f o := by
  have henv : o.envName.bind e = o.envName.bind f := by
    cases hv : o.envName with
    | none => rfl
    | some v => exact h v (ho v hv)
  rw [value?, value?, henv]

theorem Demand.ofArgs_congr (args : List String) : ofArgs e args = ofArgs f args := by
  have hencode : encode e = encode f := by
    funext g
    dsimp only [encode]
    rw [g.value?_congr h (o := Options.name) (by decide),
      g.value?_congr h (o := Options.namespace) (by decide),
      g.value?_congr h (o := Options.kubeconfig) (by decide),
      g.value?_congr h (o := Options.output) (by decide)]
  have hdecode : decode e = decode f := by
    funext g
    dsimp only [decode]
    rw [g.value?_congr h (o := Options.file) (by decide),
      g.value?_congr h (o := Options.key) (by decide),
      g.value?_congr h (o := Options.context) (by decide)]
  rw [ofArgs, ofArgs, hencode, hdecode]

theorem Page.optionRows_congr {s : Grammar} (hs : ∀ o ∈ s.options, ∀ v ∈ o.envName, v ≠ logVariable) :
    optionRows e s = optionRows f s := by
  have hrow (o : Opt) (ho : o ∈ s.options) : o.description e = o.description f := by
    unfold Opt.description Opt.notes
    cases hv : o.envName with
    | none => rfl
    | some v => simp only [Option.map_some, h v (hs o ho v hv)]
  unfold optionRows
  rw [List.map_congr_left fun o ho => by rw [hrow o ho]]

theorem Page.text_congr (page : Page) : page.text e = page.text f := by
  cases page with
  | program => rw [text, text, optionRows_congr h (by decide)]
  | encode => rw [text, text, ofCommand, ofCommand, optionRows_congr h (by decide)]
  | decode => rw [text, text, ofCommand, ofCommand, optionRows_congr h (by decide)]
  | help => rfl

theorem Kubeconfig.readDefault_congr (disk : Disk) :
    Kubeconfig.readDefault disk e = Kubeconfig.readDefault disk f := by
  unfold Kubeconfig.readDefault Kubeconfig.pathsIn
  rw [h "KUBECONFIG" (by decide), h "HOME" (by decide)]

theorem ClientConfig.resolve_congr (disk : Disk) (k : Kubeconfig) (o : Selection) :
    ClientConfig.resolve disk e k o = ClientConfig.resolve disk f k o := by
  have hproxy : ClientConfig.proxy e = ClientConfig.proxy f := by
    funext c
    unfold ClientConfig.proxy
    rw [h "HTTP_PROXY" (by decide), h "HTTPS_PROXY" (by decide)]
  unfold ClientConfig.resolve ClientConfig.ofSelected
  rw [hproxy]

end Environment

/-- **The result of a command does not depend on what the log is to show.** -/
theorem Command.result_congr {w v : World} (h : w.SameButLog v) (c : Command) :
    c.result w = c.result v := by
  cases c with
  | encode name «namespace» kubeconfig output =>
    have hread : readKubeconfig w kubeconfig = readKubeconfig v kubeconfig := by
      unfold readKubeconfig
      rw [h.disk, Kubeconfig.readDefault_congr h.env]
    rw [result, result, hread]
  | decode file key verify context =>
    have hmanifest : readManifest w file = readManifest v file := by
      unfold readManifest
      rw [h.disk, h.stdin]
    have hverified (k : SecretKubeconfig) :
        verified w k verify context = verified v k verify context := by
      unfold verified SecretKubeconfig.clientConfig
      rw [h.disk, ClientConfig.resolve_congr h.env]
    rw [result, result, hmanifest]
    simp only [hverified]

end ConfigVault.Cli
