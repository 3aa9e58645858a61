import ConfigVault.Proofs.Cli.Options
import ConfigVault.Proofs.Cli.Steps
import ConfigVault.Proofs.Secret.Manifest
import ConfigVault.Proofs.SecretKubeconfig

/-! # Runs print everything or nothing

A command line that is accepted says which command to run, and with which options (`Accepts`): options
of the program, the name of a command and options of its own, none missing (`accepts_iff`), and what
is given for an option is the value written behind its name (`Grammar.Admits.given?_iff`).

What the options mean for the library is said here once more, without the steps of the program: which
kubeconfig is decoded (`Decodes`) or encoded (`Encodes`).  A run prints the text of exactly that and
ends well, or there is none, and it prints nothing and fails (`run_result`).
-/
namespace ConfigVault.Cli

/-! ## Accepted command lines -/

/-- **The arguments are accepted for a command**, with these options in front of it and behind it. -/
def Accepts (s : Grammar) (args : List String) (outer inner : Given) : Prop :=
  ∃ rest, Grammar.program.parse .nothing args = .ok (outer, some (s.name, rest)) ∧
    Demand.optionsOf s rest = .ok inner

namespace Given

variable (g : Given)

/-- The value that was given for an option. -/
def given? (name : String) : Option String := g.values.lookup name

/-- The options that were given, without those that are about the log. -/
def besidesLog : List (String × String) := g.values.filter fun v => v.1 != Options.logJson.long

/-- The options that matter for the library are the same, whether or not the log is in JSON. -/
theorem value?_besidesLog {g g' : Given} (h : g.besidesLog = g'.besidesLog)
    (env : String → Option String) {o : Opt} (ho : o.long ≠ Options.logJson.long) :
    g.value? env o = g'.value? env o := by
  have hlookup (vs : List (String × String)) :
      (vs.filter fun v => v.1 != Options.logJson.long).lookup o.long = vs.lookup o.long := by
    induction vs with
    | nil => rfl
    | cons v vs ih =>
      obtain ⟨name, value⟩ := v
      by_cases hname : name = Options.logJson.long
      · subst hname
        rw [List.filter_cons_of_neg (by simp), ih, List.lookup_cons, beq_eq_false_iff_ne.mpr ho]
      · rw [List.filter_cons_of_pos (by simpa using hname), List.lookup_cons, List.lookup_cons, ih]
  have hvalues : g.values.lookup o.long = g'.values.lookup o.long := by
    rw [← hlookup g.values, ← hlookup g'.values]
    exact congrArg _ h
  rw [value?, value?, hvalues]

theorem has_besidesLog {g g' : Given} (h : g.besidesLog = g'.besidesLog) {name : String}
    (hname : name ≠ Options.logJson.long) : g.has name = g'.has name := by
  have hany (vs : List (String × String)) :
      (vs.filter fun v => v.1 != Options.logJson.long).any (fun v => v.1 == name) =
        vs.any fun v => v.1 == name := by
    rw [List.any_filter]
    congr
    funext v
    by_cases hv : v.1 = name
    · simp [hv, hname]
    · simp [hv]
  rw [has, has, ← hany g.values, ← hany g'.values]
  exact congrArg (List.any · fun v => v.1 == name) h

theorem given?_isSome (name : String) : (g.given? name).isSome = g.has name := by
  unfold given? has
  induction g.values with
  | nil => rfl
  | cons v vs ih =>
    obtain ⟨k, value⟩ := v
    rw [List.lookup_cons, List.any_cons]
    by_cases hk : k = name
    · subst hk
      simp
    · rw [beq_eq_false_iff_ne.mpr (Ne.symm hk), beq_eq_false_iff_ne.mpr hk]
      exact ih

end Given

/-- **The value that is given for an option** is the one that is written behind its name. -/
theorem Grammar.Admits.given?_iff {s : Grammar} {ws : List Written} (h : s.Admits ws)
    {name value : String} : (⟨ws.map Written.entry, none⟩ : Given).given? name = some value ↔
      ∃ w ∈ ws, w.opt.long = name ∧ w.value = value := by
  have hdistinct : ((ws.map Written.entry).map Prod.fst).Nodup := by
    rw [List.map_map]
    exact h.nodup
  have hmem := StringTable.mem_entries_iff (t := ⟨ws.map Written.entry, hdistinct⟩) (k := name)
    (v := value)
  rw [Given.given?, ← StringTable.get?.eq_def ⟨ws.map Written.entry, hdistinct⟩, ← hmem]
  simp [Written.entry]

/-- The options of a subcommand are what its arguments give, if none is missing that has to be
there. -/
theorem optionsOf_eq_ok {s : Grammar} {args : List String} {g : Given} :
    Demand.optionsOf s args = .ok g ↔
      s.missing g = [] ∧ ∃ sub, s.parse .nothing args = .ok (g, sub) := by
  have hcheck {g : Given} : s.check g = .ok () ↔ s.missing g = [] := by
    unfold Grammar.check
    split
    case h_1 hmissing => simp [hmissing]
    case h_2 hmissing => exact ⟨fun h => (by cases h), fun h => absurd h hmissing⟩
  unfold Demand.optionsOf
  simp only [bind_eq_ok]
  constructor
  · rintro ⟨⟨g', sub⟩, hparse, ⟨⟩, hok, hg⟩
    obtain rfl : g' = g := Except.ok.inj hg
    exact ⟨hcheck.mp hok, sub, hparse⟩
  · rintro ⟨hmissing, sub, hparse⟩
    exact ⟨(g, sub), hparse, (), hcheck.mpr hmissing, rfl⟩

/-- **The command lines that are accepted**: options of the program, the name of the command, and
options of its own with none missing, and there may be two dashes at the end. -/
theorem accepts_iff {s : Grammar} (hs : s ∈ [Grammar.decode, Grammar.encode]) {args : List String}
    {outer inner : Given} : Accepts s args outer inner ↔ ∃ ws vs tail,
      args = ws.flatMap Written.args ++ s.name :: (vs.flatMap Written.args ++ tail) ∧
      (tail = [] ∨ tail = ["--"]) ∧ Grammar.program.Admits ws ∧ s.Admits vs ∧
      outer = ⟨ws.map Written.entry, none⟩ ∧ inner = ⟨vs.map Written.entry, none⟩ ∧
      s.missing inner = [] := by
  have hname : isDashed s.name = false ∧ Grammar.program.subcommands.contains s.name ∧
      s.subcommands = [] := by
    rcases List.mem_cons.mp hs with rfl | hs
    · decide
    · obtain rfl := List.mem_singleton.mp hs
      decide
  obtain ⟨hbare, hsub, hnone⟩ := hname
  unfold Accepts
  simp only [optionsOf_eq_ok, Grammar.parse_eq_ok_iff]
  constructor
  · rintro ⟨rest, ⟨ws, tail, rfl, hend, hws, rfl⟩, hmissing, sub, vs, tail', rfl, hend', hvs, rfl⟩
    cases hend
    refine ⟨ws, vs, tail', rfl, ?_, hws, hvs, rfl, rfl, hmissing⟩
    cases hend' with
    | nothing => exact .inl rfl
    | dashes => exact .inr rfl
    | subcommand _ hmem => rw [hnone] at hmem; cases hmem
  · rintro ⟨ws, vs, tail, rfl, htail, hws, hvs, rfl, rfl, hmissing⟩
    have hend : s.Ends tail none := by
      rcases htail with rfl | rfl
      · exact .nothing
      · exact .dashes
    exact ⟨_, ⟨ws, _, rfl, .subcommand hbare hsub, hws, rfl⟩, hmissing, none, vs, tail, rfl, hend,
      hvs, rfl⟩

/-- An option that has to be given was given. -/
theorem exists_of_required {s : Grammar} {args : List String} {g : Given}
    (h : Demand.optionsOf s args = .ok g) {o : Opt} (ho : o ∈ s.options) (hreq : o.required = true) :
    ∃ value, g.given? o.long = some value := by
  rw [← Option.isSome_iff_exists, Given.given?_isSome]
  obtain ⟨hmissing, -⟩ := optionsOf_eq_ok.mp h
  cases hhas : g.has o.long with
  | true => rfl
  | false =>
    have hmem : o.display ∈ s.missing g :=
      List.mem_map_of_mem (List.mem_filter.mpr ⟨ho, by simp [hhas, hreq]⟩)
    rw [hmissing] at hmem
    cases hmem

/-! ## What is decoded -/

/-- **The manifest to decode**: that of the file, or of the standard input if no file is named or
its name is a dash. -/
inductive IsManifest (w : World) : Option String → String → Prop where
  | omitted {text : String} (h : Disk.textOf w.stdin = .ok text) : IsManifest w none text
  | dash {text : String} (h : Disk.textOf w.stdin = .ok text) : IsManifest w (some "-") text
  | file {path text : String} (hpath : path ≠ "-") (h : w.disk.readText path = .ok text) :
    IsManifest w (some path) text

/-- The key to decode: the one that is given, or that of the environment, or the usual one. -/
def keyOf (w : World) (g : Given) : String :=
  (g.given? "key").getD ((w.env "KUBECONFIG_SECRET_KEY").getD "kubeconfig")

/-- **The handle that is decoded.**  If that is asked for, it resolves to a client configuration. -/
inductive Decodes (w : World) (g : Given) (h : SecretKubeconfig) : Prop where
  | mk {text : String} {secret : Secret} (manifest : IsManifest w (g.given? "file") text)
    (parsed : Secret.ofManifest text = .ok secret)
    (decoded : SecretKubeconfig.ofSecret secret (keyOf w g) = .ok h)
    (verified : g.has "verify" → ∃ config, h.clientConfig w.disk w.env
      { Selection.default with context := g.given? "context" } = .ok config) : Decodes w g h

/-- **The kubeconfig that is encoded**: that of the file, or the one that the environment leads to. -/
inductive Encodes (w : World) (g : Given) (k : Kubeconfig) : Prop where
  | file {path : String} (given : g.given? "kubeconfig" = some path)
    (h : Kubeconfig.readFile w.disk path = .ok k) : Encodes w g k
  | default (given : g.given? "kubeconfig" = none)
    (h : Kubeconfig.readDefault w.disk w.env = .ok k) : Encodes w g k

/-- The format that is asked for. -/
def formatOf (g : Given) : ManifestFormat :=
  if g.given? "output" = some "json" then .json else .yaml

theorem readManifest_eq_ok {w : World} {file : Option String} {text : String} :
    Command.readManifest w file = .ok text ↔ IsManifest w file text := by
  constructor
  · intro h
    unfold Command.readManifest Command.manifestPath? at h
    cases file with
    | none => exact .omitted (mapError_eq_ok.mp h)
    | some path =>
      by_cases hpath : path = "-"
      · subst hpath
        exact .dash (mapError_eq_ok.mp h)
      · rw [Option.filter_some, if_pos (by simpa using hpath)] at h
        exact .file hpath (mapError_eq_ok.mp h)
  · intro h
    unfold Command.readManifest Command.manifestPath?
    cases h with
    | omitted h => exact mapError_eq_ok.mpr h
    | dash h => exact mapError_eq_ok.mpr h
    | @file path text hpath h =>
      rw [Option.filter_some, if_pos (by simpa using hpath)]
      exact mapError_eq_ok.mpr h

theorem verified_eq_ok {w : World} {h : SecretKubeconfig} {verify : Bool} {context : Option String} :
    Command.verified w h verify context = .ok () ↔ (verify → ∃ config,
      h.clientConfig w.disk w.env { Selection.default with context } = .ok config) := by
  cases verify with
  | false => simp [Command.verified]
  | true =>
    unfold Command.verified
    rw [if_pos rfl]
    cases h.clientConfig w.disk w.env { Selection.default with context } with
    | error e => exact ⟨fun h => (by cases h), fun h => (by obtain ⟨c, hc⟩ := h rfl; cases hc)⟩
    | ok config => exact ⟨fun _ _ => ⟨config, rfl⟩, fun _ => rfl⟩

/-- What is demanded when something is to be decoded. -/
theorem demand_decode_eq (w : World) (g : Given) : Demand.decode w.env g =
    .decode (g.given? "file") (keyOf w g) (g.has "verify") (g.given? "context") := by
  have hkey : (g.value? w.env Options.key).getD "" = keyOf w g := by
    show (((g.values.lookup "key").or (w.env "KUBECONFIG_SECRET_KEY")).or
      (some "kubeconfig")).getD "" = (g.values.lookup "key").getD _
    cases g.values.lookup "key" with
    | some key => rfl
    | none => cases w.env "KUBECONFIG_SECRET_KEY" <;> rfl
  have hvalue {o : Opt} (henv : o.envName = none) (hfallback : o.fallback = none) :
      g.value? w.env o = g.given? o.long := by
    rw [Given.value?, henv, hfallback, Option.bind_none, Option.or_none, Option.or_none]
    rfl
  dsimp only [Demand.decode]
  rw [hkey, hvalue rfl rfl, hvalue rfl rfl]
  rfl

/-- **The command that decodes** gives the text of what is decoded. -/
theorem result_decode {w : World} {g : Given} {text : String} :
    (Demand.decode w.env g).result w = .ok text ↔
      ∃ h, Decodes w g h ∧ h.kubeconfig.render = text := by
  rw [demand_decode_eq]
  unfold Command.result
  simp only [bind_eq_ok, mapError_eq_ok, readManifest_eq_ok]
  constructor
  · rintro ⟨manifest, hmanifest, secret, hsecret, h, hdecoded, ⟨⟩, hverified, htext⟩
    exact ⟨h, ⟨hmanifest, hsecret, hdecoded, verified_eq_ok.mp hverified⟩, Except.ok.inj htext⟩
  · rintro ⟨h, ⟨hmanifest, hsecret, hdecoded, hverified⟩, rfl⟩
    exact ⟨_, hmanifest, _, hsecret, h, hdecoded, (), verified_eq_ok.mpr hverified, rfl⟩

/-- What is demanded when something is to be encoded under a name. -/
theorem demand_encode_eq (w : World) {g : Given} {name : String}
    (hname : g.given? "name" = some name) : Demand.encode w.env g =
      .encode name ((g.given? "namespace").getD "default") (g.given? "kubeconfig") (formatOf g) := by
  have hvalue {o : Opt} (henv : o.envName = none) :
      g.value? w.env o = (g.given? o.long).or o.fallback := by
    rw [Given.value?, henv, Option.bind_none, Option.or_none]
    rfl
  have hformat : Demand.formatOf ((g.given? "output").or (some "yaml")) = formatOf g := by
    unfold Demand.formatOf formatOf
    cases g.given? "output" <;> rfl
  dsimp only [Demand.encode]
  rw [hvalue rfl, hvalue rfl, hvalue rfl, hvalue rfl]
  show Command.encode (((g.given? "name").or none).getD "")
    (((g.given? "namespace").or (some "default")).getD "") ((g.given? "kubeconfig").or none)
    (Demand.formatOf ((g.given? "output").or (some "yaml"))) = _
  rw [hname, hformat, Option.or_none, Option.or_none]
  cases g.given? "namespace" <;> rfl

theorem readKubeconfig_eq_ok {w : World} {g : Given} {k : Kubeconfig} :
    Command.readKubeconfig w (g.given? "kubeconfig") = .ok k ↔ Encodes w g k := by
  unfold Command.readKubeconfig
  cases hgiven : g.given? "kubeconfig" with
  | none =>
    refine mapError_eq_ok.trans ⟨fun h => .default hgiven h, fun h => ?_⟩
    cases h with
    | file given h => rw [hgiven] at given; cases given
    | default given h => exact h
  | some path =>
    refine mapError_eq_ok.trans ⟨fun h => .file hgiven h, fun h => ?_⟩
    cases h with
    | file given h => rw [hgiven] at given; cases given; exact h
    | default given h => rw [hgiven] at given; cases given

/-- **The command that encodes** gives the manifest of the secret that keeps what is encoded. -/
theorem result_encode {w : World} {g : Given} {name : String} (hname : g.given? "name" = some name)
    {text : String} : (Demand.encode w.env g).result w = .ok text ↔ ∃ k, Encodes w g k ∧
      (k.toSecret ⟨(g.given? "namespace").getD "default", name⟩).render (formatOf g) = text := by
  rw [demand_encode_eq w hname]
  unfold Command.result
  simp only [bind_eq_ok, readKubeconfig_eq_ok]
  constructor
  · rintro ⟨k, hk, htext⟩
    exact ⟨k, hk, Except.ok.inj htext⟩
  · rintro ⟨k, hk, rfl⟩
    exact ⟨k, hk, rfl⟩

/-! ## Runs -/

theorem run_of_decode {w : World} {args : List String} {outer inner : Given}
    (h : Accepts Grammar.decode args outer inner) :
    run w args = Outcome.ofInvocation w
      ⟨outer.has Options.logJson.long || inner.has Options.logJson.long,
        Demand.decode w.env inner⟩ := by
  obtain ⟨rest, hparse, hoptions⟩ := h
  rw [run, Demand.ofArgs, hparse]
  dsimp only
  rw [if_neg (by decide), if_pos (by decide), Demand.subcommand, hoptions]
  rfl

theorem run_of_encode {w : World} {args : List String} {outer inner : Given}
    (h : Accepts Grammar.encode args outer inner) :
    run w args = Outcome.ofInvocation w
      ⟨outer.has Options.logJson.long || inner.has Options.logJson.long,
        Demand.encode w.env inner⟩ := by
  obtain ⟨rest, hparse, hoptions⟩ := h
  rw [run, Demand.ofArgs, hparse]
  dsimp only
  rw [if_pos (by decide), Demand.subcommand, hoptions]
  rfl

/-- The run ends well with the text of what a command gives, or fails if it gives nothing. -/
def Outcome.Prints {α : Type} (o : Outcome) (gives : α → Prop) (text : α → String) : Prop :=
  (∀ x, gives x → o.exitCode = 0 ∧ o.stdout = text x) ∧
    ((¬∃ x, gives x) → o.exitCode = 1 ∧ o.stdout = "")

theorem Outcome.prints_of_result {α : Type} {w : World} {i : Invocation} {gives : α → Prop}
    {text : α → String}
    (h : ∀ t, i.command.result w = .ok t ↔ ∃ x, gives x ∧ text x = t) :
    (ofInvocation w i).Prints gives text := by
  have hresult := ofInvocation_result w i
  constructor
  · intro x hx
    rw [(h (text x)).mpr ⟨x, hx, rfl⟩] at hresult
    exact hresult
  · intro hnone
    cases hr : i.command.result w with
    | ok t =>
      obtain ⟨x, hx, -⟩ := (h t).mp hr
      exact absurd ⟨x, hx⟩ hnone
    | error failure =>
      rw [hr] at hresult
      exact hresult

/-- Nothing depends on what the environment says about the log. -/
theorem run_sameButLog {w v : World} (h : w.SameButLog v) (args : List String) :
    (run w args).SameResult (run v args) := by
  rw [run, run, Demand.ofArgs_congr h.env]
  cases Demand.ofArgs v.env args with
  | run i => exact Outcome.sameResult_ofInvocation (Command.result_congr h i.command)
  | page page =>
    rw [Outcome.ofDemand, Outcome.ofDemand, Page.text_congr h.env]
    exact .refl _
  | version =>
    rw [Outcome.ofDemand, Outcome.ofDemand]
    exact .refl _
  | guidance =>
    rw [Outcome.ofDemand, Outcome.ofDemand, Page.text_congr h.env]
    exact .refl _
  | refuse e =>
    rw [Outcome.ofDemand, Outcome.ofDemand]
    exact .refl _

theorem run_besidesLog_decode {args args' : List String} {outer outer' g g' : Given}
    (h : Accepts Grammar.decode args outer g) (h' : Accepts Grammar.decode args' outer' g')
    (hg : g.besidesLog = g'.besidesLog) (w : World) : (run w args).SameResult (run w args') := by
  have hcommand : Demand.decode w.env g = Demand.decode w.env g' := by
    dsimp only [Demand.decode]
    rw [Given.value?_besidesLog hg w.env (o := Options.file) (by decide),
      Given.value?_besidesLog hg w.env (o := Options.key) (by decide),
      Given.value?_besidesLog hg w.env (o := Options.context) (by decide),
      Given.has_besidesLog hg (by decide)]
  rw [run_of_decode h, run_of_decode h']
  exact Outcome.sameResult_ofInvocation (congrArg _ hcommand)

theorem run_besidesLog_encode {args args' : List String} {outer outer' g g' : Given}
    (h : Accepts Grammar.encode args outer g) (h' : Accepts Grammar.encode args' outer' g')
    (hg : g.besidesLog = g'.besidesLog) (w : World) : (run w args).SameResult (run w args') := by
  have hcommand : Demand.encode w.env g = Demand.encode w.env g' := by
    dsimp only [Demand.encode]
    rw [Given.value?_besidesLog hg w.env (o := Options.name) (by decide),
      Given.value?_besidesLog hg w.env (o := Options.namespace) (by decide),
      Given.value?_besidesLog hg w.env (o := Options.kubeconfig) (by decide),
      Given.value?_besidesLog hg w.env (o := Options.output) (by decide)]
  rw [run_of_encode h, run_of_encode h']
  exact Outcome.sameResult_ofInvocation (congrArg _ hcommand)

/-- **A run prints everything or nothing.**  Decoding prints the text of the kubeconfig that is
decoded, encoding the manifest of the secret that keeps the one that is read, and otherwise nothing
is printed at all; neither the result nor the exit code depends on what the environment or the
command line says about the log. -/
theorem run_result (w : World) (args : List String) :
    (∀ outer g, Accepts Grammar.decode args outer g →
      (run w args).Prints (Decodes w g) fun h => h.kubeconfig.render) ∧
    (∀ outer g, Accepts Grammar.encode args outer g → ∃ name, g.given? "name" = some name ∧
      (run w args).Prints (Encodes w g) fun k =>
        (k.toSecret ⟨(g.given? "namespace").getD "default", name⟩).render (formatOf g)) ∧
    (∀ v, w.SameButLog v → (run w args).SameResult (run v args)) ∧
    (∀ s ∈ [Grammar.decode, Grammar.encode], ∀ outer g args' outer' g', Accepts s args outer g →
      Accepts s args' outer' g' → g.besidesLog = g'.besidesLog →
        (run w args).SameResult (run w args')) := by
  refine ⟨?_, ?_, fun v h => run_sameButLog h args, ?_⟩
  · intro outer g h
    rw [run_of_decode h]
    exact Outcome.prints_of_result fun t => result_decode
  · intro outer g h
    obtain ⟨rest, -, hoptions⟩ := id h
    obtain ⟨name, hname⟩ := exists_of_required hoptions (o := Options.name)
      (List.mem_cons_of_mem _ (List.mem_cons_self ..)) rfl
    refine ⟨name, hname, ?_⟩
    rw [run_of_encode h]
    exact Outcome.prints_of_result fun t => result_encode hname
  · intro s hs outer g args' outer' g' h h' hg
    rcases List.mem_cons.mp hs with rfl | hs
    · exact run_besidesLog_decode h h' hg w
    · obtain rfl := List.mem_singleton.mp hs
      exact run_besidesLog_encode h h' hg w

/-- A world in which a manifest comes in, and the environment says at most what the log shows. -/
def worldOf (manifest : String) (log : Option String) : World :=
  ⟨⟨fun _ => .error .missing⟩, Text.Utf8.encodeString manifest,
    fun name => if name = logVariable then log else none⟩

theorem sameButLog_worldOf (manifest : String) (log log' : Option String) :
    (worldOf manifest log).SameButLog (worldOf manifest log') :=
  ⟨rfl, rfl, fun _ h => (if_neg h).trans (if_neg h).symm⟩

/-- What is in the secret of a kubeconfig is decoded from its manifest. -/
theorem decodes_worldOf {k : Kubeconfig} (hk : k.Fits Kubeconfig.innerDepth) (r : SecretRef)
    (log : Option String) :
    Decodes (worldOf ((k.toSecret r).render .yaml) log) .nothing ⟨r, k⟩ := by
  have hstdin : Disk.textOf (worldOf ((k.toSecret r).render .yaml) log).stdin =
      .ok ((k.toSecret r).render .yaml) := by
    rw [worldOf, Disk.textOf, Text.Utf8.decodeString?_encodeString]
  have hparsed : Secret.ofManifest ((k.toSecret r).render .yaml) = .ok (k.toSecret r) := by
    rw [Secret.ofManifest_render_of_fits (Secret.IsMade.toSecret k r).fits]
    rfl
  have hkey : keyOf (worldOf ((k.toSecret r).render .yaml) log) .nothing = kubeconfigKey := rfl
  have hdecoded := SecretKubeconfig.ofSecret_of_fits hk r
  rw [← hkey] at hdecoded
  exact ⟨.omitted hstdin, hparsed, hdecoded, fun h => by cases h⟩

/-- A manifest is decoded, whatever is said about the log; there is nothing to encode. -/
theorem run_result_worldOf :
    let w (log : Option String) : World :=
      worldOf ((Kubeconfig.toSecret .empty ⟨"default", "none"⟩).render .yaml) log
    (Accepts Grammar.decode ["decode"] .nothing .nothing ∧
      Accepts Grammar.decode ["--log-json", "decode"] ⟨[("log-json", "")], none⟩ .nothing ∧
      Decodes (w none) .nothing ⟨⟨"default", "none"⟩, .empty⟩) ∧
    (run (w none) ["decode"]).exitCode = 0 ∧
    (run (w none) ["decode"]).stdout = Kubeconfig.empty.render ∧
    (run (w none) ["decode"]).SameResult (run (w none) ["--log-json", "decode"]) ∧
    (run (w none) ["decode"]).SameResult (run (w (some "trace")) ["decode"]) ∧
    (run (w none) ["encode", "--name=x"]).exitCode = 1 ∧
    (run (w none) ["encode", "--name=x"]).stdout = "" := by
  intro w
  have hplain : Accepts Grammar.decode ["decode"] .nothing .nothing := ⟨[], rfl, rfl⟩
  have hjson : Accepts Grammar.decode ["--log-json", "decode"] ⟨[("log-json", "")], none⟩
      .nothing := ⟨[], rfl, rfl⟩
  have hencode : Accepts Grammar.encode ["encode", "--name=x"] .nothing ⟨[("name", "x")], none⟩ :=
    ⟨["--name=x"], rfl, rfl⟩
  have hdecodes : Decodes (w none) .nothing ⟨⟨"default", "none"⟩, .empty⟩ :=
    decodes_worldOf (Kubeconfig.Fits.empty _) _ none
  have hnone : ¬∃ k, Encodes (w none) ⟨[("name", "x")], none⟩ k := by
    rintro ⟨k, hk⟩
    cases hk with
    | file given h => cases given
    | default given h => cases h
  have hlog : (w none).SameButLog (w (some "trace")) := sameButLog_worldOf _ _ _
  obtain ⟨hdecode, -, hsame, hbesides⟩ := run_result (w none) ["decode"]
  obtain ⟨-, hfails, -⟩ := run_result (w none) ["encode", "--name=x"]
  obtain ⟨name, -, hprints⟩ := hfails _ _ hencode
  obtain ⟨hcode, hstdout⟩ := (hdecode _ _ hplain).1 _ hdecodes
  exact ⟨⟨hplain, hjson, hdecodes⟩, hcode, hstdout,
    hbesides _ (List.mem_cons_self ..) _ _ _ _ _ hplain hjson rfl, hsame _ hlog, hprints.2 hnone⟩

end ConfigVault.Cli
