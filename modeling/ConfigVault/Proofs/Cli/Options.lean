import ConfigVault.Cli.Command
import ConfigVault.Proofs.Gives
import ConfigVault.Proofs.Maps

/-! # What a command line gives

An option is written as its name alone, as a name and a value with an equals sign between them, or as a
name and a value of its own (`Written`).  Reading a command line undoes that: arguments are read to
their end, or up to a subcommand, exactly if they are written options with such an end behind them,
and what is given then are the names and values that were written, in their order
(`Grammar.parse_eq_ok_iff`).

The reader is behind what it reads.  A value of its own is kept back (`Given.pending`) and becomes
part of what is given only when the next option begins or the arguments end, so a state that keeps
one back is not the state after what was read.  What a step says is therefore said of the state once
it is settled: reading an option settles what was kept back, and the state behind it settles to the
one with the option added (`Grammar.Step`).  Arguments that are read are at their end or begin with
such a step (`Grammar.ends_or_step`), and from step to step a whole run adds what is written to what
was given before (`Grammar.parse_iff`).  That succeeds exactly if no name occurs twice and each value
is one that its option can have (`Given.addAll_eq_ok`).

Which written form is meant is decided by the first characters of an argument alone (`argument_cases`).
So a value of its own cannot look like an option, while one behind an equals sign can be any text,
with further equals signs in it.
-/
namespace ConfigVault.Cli

/-- The argument looks like an option, so it is no value of its own and no subcommand. -/
def isDashed (arg : String) : Bool :=
  match arg.toList with
  | '-' :: _ :: _ => true
  | _ => false

/-- The ways to write an option. -/
inductive Form where
  /-- The name of a switch. -/
  | alone
  /-- The name, an equals sign and the value. -/
  | joined
  /-- The name, and behind it the value as an argument of its own. -/
  | apart
  deriving DecidableEq, Repr

/-- An option as it is written on a command line. -/
structure Written where
  opt : Opt
  form : Form
  /-- The value; a switch has an empty one. -/
  value : String

namespace Written

/-- The arguments that an option is written as. -/
def args (w : Written) : List String :=
  match w.form with
  | .alone => ["--" ++ w.opt.long]
  | .joined => ["--" ++ w.opt.long ++ "=" ++ w.value]
  | .apart => ["--" ++ w.opt.long, w.value]

theorem length_args_pos (w : Written) : 0 < w.args.length := by
  unfold args
  split <;> exact Nat.succ_pos _

/-- What is given by it. -/
def entry (w : Written) : String × String := (w.opt.long, w.value)

/-- The form suits the option and its value. -/
def Suits (w : Written) : Prop :=
  match w.form with
  | .alone => w.opt.value = none ∧ w.value = "" ∧ w.opt.long ≠ ""
  | .joined => w.opt.value.isSome
  | .apart => w.opt.value.isSome ∧ w.opt.long ≠ "" ∧ isDashed w.value = false

end Written

namespace Grammar

variable {s : Grammar}

/-- The option is the one that its name stands for. -/
structure Knows (s : Grammar) (o : Opt) : Prop where
  found : s.options.find? (fun p => p.long == o.long) = some o
  plain : '=' ∉ o.long.toList
  notHelp : o.long ≠ "help"
  notVersion : ¬(o.long = "version" ∧ s.hasVersion)

/-- Where the reading of arguments ends: they are over, or two dashes end them, or a subcommand
follows with the arguments behind it. -/
inductive Ends (s : Grammar) : List String → Option (String × List String) → Prop where
  | nothing : Ends s [] none
  | dashes : Ends s ["--"] none
  | subcommand {name : String} {rest : List String} (hname : isDashed name = false)
    (h : s.subcommands.contains name) : Ends s (name :: rest) (some (name, rest))

end Grammar

/-! ## Arguments -/

theorem toList_dashes (name : String) : ("--" ++ name).toList = '-' :: '-' :: name.toList := by
  simp [String.toList_append]

theorem toList_joined (name value : String) :
    ("--" ++ name ++ "=" ++ value).toList = '-' :: '-' :: (name.toList ++ '=' :: value.toList) := by
  simp [String.toList_append]

theorem exists_of_isDashed {arg : String} (h : isDashed arg) :
    ∃ c cs, arg.toList = '-' :: c :: cs := by
  unfold isDashed at h
  split at h
  case h_1 c cs harg => exact ⟨c, cs, harg⟩
  case h_2 => cases h

/-- **What an argument can be**: no option, two dashes, the name of an option, a name with a value,
or a single dash with a letter. -/
theorem argument_cases (arg : String) :
    isDashed arg = false ∨ arg = "--" ∨
      (∃ name : String, name ≠ "" ∧ '=' ∉ name.toList ∧ arg = "--" ++ name) ∨
      (∃ name value : String, '=' ∉ name.toList ∧ arg = "--" ++ name ++ "=" ++ value) ∨
      ∃ c cs, c ≠ '-' ∧ arg.toList = '-' :: c :: cs := by
  cases hdashed : isDashed arg with
  | false => exact .inl rfl
  | true =>
    obtain ⟨c, cs, harg⟩ := exists_of_isDashed hdashed
    refine .inr ?_
    by_cases hc : c = '-'
    case neg => exact .inr (.inr (.inr ⟨c, cs, hc, harg⟩))
    subst hc
    by_cases hmem : '=' ∈ cs
    · obtain ⟨name, value, rfl, hname⟩ := List.eq_append_cons_of_mem hmem
      refine .inr (.inr (.inl ⟨.ofList name, .ofList value, by simpa using hname, ?_⟩))
      rw [← String.toList_inj, toList_joined, harg, String.toList_ofList, String.toList_ofList]
    · have htext : arg = "--" ++ String.ofList cs := by
        rw [← String.toList_inj, toList_dashes, harg, String.toList_ofList]
      cases cs with
      | nil => exact .inl htext
      | cons c cs =>
        exact .inr (.inl ⟨.ofList (c :: cs), by simp, by simpa using hmem, htext⟩)

/-! ## Steps -/

namespace Given

variable {g g' : Given} {o : Opt} {value : String}

/-- **What adding an option does.** -/
theorem add_eq_ok : g.add o value = .ok g' ↔ g.has o.long = false ∧ fault? o value = none ∧
    g' = { g with values := g.values ++ [(o.long, value)] } := by
  unfold add
  split
  case isTrue h => simp [h]
  case isFalse h =>
    cases fault? o value <;> simp [h, eq_comm]

theorem pending_of_settle (h : g.settle = .ok g') : g'.pending = none := by
  unfold settle at h
  split at h
  case h_1 hp => cases h; exact hp
  case h_2 => cases h
  case h_3 => rw [(add_eq_ok.mp h).2.2]

/-- A state to which an option was added keeps nothing back. -/
theorem settled_of_add {g₀ g₁ : Given} (hsettle : g.settle = .ok g₀)
    (hadd : g₀.add o value = .ok g₁) : g₁.awaits? = none ∧ g₁.settle = .ok g₁ := by
  have hpending : g₀.pending = none := pending_of_settle hsettle
  obtain ⟨-, -, rfl⟩ := add_eq_ok.mp hadd
  rw [awaits?, settle, hpending]
  exact ⟨rfl, rfl⟩

/-- An option that is kept back with its value is added when the state is settled. -/
theorem settle_value (h : g.pending = none) :
    { g with pending := some (o, some value) }.settle = g.add o value := by
  obtain ⟨values, pending⟩ := g
  subst h
  rfl

end Given

namespace Grammar

variable {s : Grammar} {g g' : Given} {arg : String} {args : List String}
  {sub : Option (String × List String)}

theorem parse_plain (h : isDashed arg = false) : s.parse g (arg :: args) =
    match g.awaits? with
    | some o => s.parse { g with pending := some (o, some arg) } args
    | none =>
      if s.subcommands.contains arg then do pure (← g.settle, some (arg, args))
      else .error (s.stray arg) := by
  have hno {c : Char} {cs : List Char} (harg : arg.toList = '-' :: c :: cs) : False := by
    rw [isDashed, harg] at h
    cases h
  rw [parse.eq_def]
  dsimp only
  split
  case h_1 harg => exact (hno harg).elim
  case h_2 harg => exact (hno harg).elim
  case h_3 harg => exact (hno harg).elim
  case h_4 hawaits _ _ _ => rw [hawaits]
  case h_5 hawaits _ _ _ => rw [hawaits]

theorem parse_dashes : s.parse g ["--"] = (do pure (← g.settle, none)) := by
  rw [parse.eq_def]
  cases g.awaits? <;> rfl

theorem parse_dashes_cons : s.parse g ("--" :: arg :: args) = .error (s.escaped arg) := by
  rw [parse.eq_def]
  cases g.awaits? <;> rfl

theorem parse_short {c : Char} {cs : List Char} (hc : c ≠ '-') (harg : arg.toList = '-' :: c :: cs) :
    s.parse g (arg :: args) = s.short g c >>= (s.parse · args) := by
  rw [parse.eq_def]
  dsimp only
  split
  case h_1 h => rw [harg] at h; cases h; exact absurd rfl hc
  case h_2 h => rw [harg] at h; cases h; exact absurd rfl hc
  case h_3 h => rw [harg] at h; cases h; rfl
  case h_4 h => exact absurd harg (h _ _)
  case h_5 h => exact absurd harg (h _ _)

/-- An argument that begins with two dashes is cut at its first equals sign. -/
theorem parse_long {cs : List Char} (hcs : cs ≠ []) (harg : arg.toList = '-' :: '-' :: cs) :
    s.parse g (arg :: args) =
      s.long g (.ofList (cs.takeWhile (· != '=')))
        ((if (cs.takeWhile (· != '=')).length = cs.length then none
          else some (cs.drop ((cs.takeWhile (· != '=')).length + 1))).map .ofList) >>=
        (s.parse · args) := by
  rw [parse.eq_def]
  dsimp only
  split
  case h_1 h => rw [harg] at h; cases h; exact absurd rfl hcs
  case h_2 h => rw [harg] at h; cases h; rfl
  case h_3 hne h => rw [harg] at h; cases h; exact (hne rfl).elim
  case h_4 h _ => exact absurd harg (h _)
  case h_5 h _ => exact absurd harg (h _)

theorem takeWhile_name {name : List Char} (h : '=' ∉ name) (rest : List Char) :
    (name ++ rest).takeWhile (· != '=') = name ++ rest.takeWhile (· != '=') := by
  refine List.takeWhile_append_of_pos fun c hc => ?_
  rw [bne_iff_ne]
  rintro rfl
  exact h hc

theorem parse_name {name : String} (hne : name ≠ "") (hname : '=' ∉ name.toList) :
    s.parse g (("--" ++ name) :: args) = s.long g name none >>= (s.parse · args) := by
  have htake := takeWhile_name hname []
  rw [List.append_nil, List.takeWhile_nil, List.append_nil] at htake
  rw [parse_long (mt String.toList_eq_nil_iff.mp hne) (toList_dashes name), htake, if_pos rfl,
    String.ofList_toList, Option.map_none]

theorem parse_joined {name : String} (hname : '=' ∉ name.toList) (value : String) :
    s.parse g (("--" ++ name ++ "=" ++ value) :: args) =
      s.long g name (some value) >>= (s.parse · args) := by
  have htake := takeWhile_name hname ('=' :: value.toList)
  rw [List.takeWhile_cons_of_neg (by simp), List.append_nil] at htake
  rw [parse_long (by simp) (toList_joined name value), htake, if_neg (by simp),
    Option.map_some, List.drop_append, List.drop_eq_nil_of_le (Nat.le_succ _)]
  simp

/-- What the name of an option does to the state, once what was kept back is settled: a switch is
given, as is an option with the value behind the equals sign, and any other option waits for its
value. -/
def Opens (o : Opt) (value : Option String) (g₀ g₁ : Given) : Prop :=
  match o.value, value with
  | none, none => g₀.add o "" = .ok g₁
  | some _, some v => g₀.add o v = .ok g₁
  | some _, none => g₁ = { g₀ with pending := some (o, none) }
  | none, some _ => False

/-- Only the name of an option that is known is read. -/
theorem exists_knows_of_long {name : String} {value : Option String} (hname : '=' ∉ name.toList)
    (h : s.long g name value = .ok g') : ∃ o, s.Knows o ∧ o.long = name := by
  have hstop (stop : Stop) : (g.settle >>= fun _ => throw stop) ≠ .ok g' := by
    cases g.settle <;> exact fun h => by cases h
  unfold long at h
  dsimp only at h
  split at h
  case isTrue =>
    cases value with
    | some v => cases h
    | none => exact absurd h (hstop _)
  case isFalse hhelp =>
    split at h
    case isTrue =>
      cases value with
      | some v => cases h
      | none => exact absurd h (hstop _)
    case isFalse hversion =>
      split at h
      case h_1 => cases h
      case h_2 o hfound =>
        obtain rfl : o.long = name := by simpa using List.find?_some hfound
        exact ⟨o, ⟨hfound, hname, hhelp, hversion⟩, rfl⟩

/-- **What reading the name of an option does.** -/
theorem long_eq_ok {o : Opt} {value : Option String} (ho : s.Knows o) :
    s.long g o.long value = .ok g' ↔ ∃ g₀, g.settle = .ok g₀ ∧ Opens o value g₀ g' := by
  rw [long, if_neg ho.notHelp, if_neg ho.notVersion, ho.found]
  unfold Opens
  dsimp only
  cases o.value with
  | none =>
    cases value with
    | none => exact bind_eq_ok
    | some v => exact ⟨fun h => (by cases h), fun ⟨_, _, h⟩ => h.elim⟩
  | some kind =>
    cases value with
    | none =>
      refine bind_eq_ok.trans (exists_congr fun g₀ => and_congr_right fun _ => ?_)
      exact ⟨fun h => (Except.ok.inj h).symm, fun h => congrArg Except.ok h.symm⟩
    | some v => exact bind_eq_ok

/-- An option with a short name never lets reading go on. -/
theorem short_ne_ok (c : Char) : s.short g c ≠ .ok g' := by
  unfold short
  dsimp only
  split
  case h_1 => exact fun h => by cases h
  case h_2 => cases g.settle <;> exact fun h => by cases h

/-- **A written option is read**: what was kept back is settled first, and the state behind the option
settles to the one with the option added. -/
inductive Step (s : Grammar) (g : Given) : List String → Given → List String → Prop where
  | mk {w : Written} {rest : List String} {g₀ g₁ : Given} (knows : s.Knows w.opt) (suits : w.Suits)
    (settles : g.settle = .ok g₀) (awaits : g₁.awaits? = none)
    (adds : g₁.settle = g₀.add w.opt w.value) : Step s g (w.args ++ rest) g₁ rest

theorem Step.length_lt {g₁ : Given} {rest : List String} (h : s.Step g args g₁ rest) :
    rest.length < args.length := by
  cases h with
  | @mk w =>
    have hargs : 0 < w.args.length := w.length_args_pos
    rw [List.length_append]
    omega

/-- An option that waits for its value takes the next argument, which does not look like an option. -/
theorem exists_of_parse_waiting {o : Opt} (hg : g.pending = some (o, none))
    (h : s.parse g args = .ok (g', sub)) : ∃ value rest, args = value :: rest ∧
      isDashed value = false ∧ s.parse { g with pending := some (o, some value) } rest = .ok (g', sub) := by
  have hsettle (g₀ : Given) : g.settle ≠ .ok g₀ := by
    rw [Given.settle, hg]
    exact fun h => by cases h
  -- Whatever begins an option or ends the arguments settles the state, which misses a value.
  have hlong {name : String} {value : Option String} (hname : '=' ∉ name.toList) (g₁ : Given) :
      s.long g name value ≠ .ok g₁ := by
    intro h
    obtain ⟨o, ho, rfl⟩ := exists_knows_of_long hname h
    obtain ⟨g₀, h₀, -⟩ := (long_eq_ok ho).mp h
    exact hsettle g₀ h₀
  cases args with
  | nil =>
    obtain ⟨g₀, h₀, -⟩ := bind_eq_ok.mp h
    exact absurd h₀ (hsettle g₀)
  | cons arg rest =>
    obtain hbare | rfl | ⟨name, hne, hname, rfl⟩ | ⟨name, value, hname, rfl⟩ | ⟨c, cs, hc, harg⟩ :=
      argument_cases arg
    · rw [parse_plain hbare, Given.awaits?, hg] at h
      exact ⟨arg, rest, rfl, hbare, h⟩
    · cases rest with
      | nil =>
        rw [parse_dashes] at h
        obtain ⟨g₀, h₀, -⟩ := bind_eq_ok.mp h
        exact absurd h₀ (hsettle g₀)
      | cons arg rest => rw [parse_dashes_cons] at h; cases h
    · rw [parse_name hne hname] at h
      obtain ⟨g₁, h₁, -⟩ := bind_eq_ok.mp h
      exact absurd h₁ (hlong hname g₁)
    · rw [parse_joined hname] at h
      obtain ⟨g₁, h₁, -⟩ := bind_eq_ok.mp h
      exact absurd h₁ (hlong hname g₁)
    · rw [parse_short hc harg] at h
      obtain ⟨g₁, h₁, -⟩ := bind_eq_ok.mp h
      exact absurd h₁ (short_ne_ok c)

/-- Arguments that begin with a name alone are read on behind it, or behind its value. -/
theorem exists_step_of_parse_name {name : String} (hne : name ≠ "") (hname : '=' ∉ name.toList)
    (h : s.parse g (("--" ++ name) :: args) = .ok (g', sub)) :
    ∃ g₁ rest, s.Step g (("--" ++ name) :: args) g₁ rest ∧ s.parse g₁ rest = .ok (g', sub) := by
  rw [parse_name hne hname] at h
  obtain ⟨g₁, hlong, hrest⟩ := bind_eq_ok.mp h
  obtain ⟨o, ho, rfl⟩ := exists_knows_of_long hname hlong
  obtain ⟨g₀, hsettle, hopens⟩ := (long_eq_ok ho).mp hlong
  unfold Opens at hopens
  cases hvalue : o.value with
  | none =>
    rw [hvalue] at hopens
    obtain ⟨hawaits, hsettled⟩ := Given.settled_of_add hsettle hopens
    exact ⟨g₁, args, .mk (w := ⟨o, .alone, ""⟩) ho ⟨hvalue, rfl, hne⟩ hsettle hawaits
      (hsettled.trans hopens.symm), hrest⟩
  | some kind =>
    rw [hvalue] at hopens
    -- The value is the next argument, so the step takes two of them.
    have hpending : g₁.pending = some (o, none) := by rw [hopens]
    obtain ⟨value, rest, rfl, hbare, hrest⟩ := exists_of_parse_waiting hpending hrest
    have hsuits : (⟨o, .apart, value⟩ : Written).Suits :=
      ⟨Option.isSome_iff_exists.mpr ⟨kind, hvalue⟩, hne, hbare⟩
    refine ⟨_, rest, .mk (w := ⟨o, .apart, value⟩) ho hsuits hsettle rfl ?_, hrest⟩
    rw [hopens]
    exact Given.settle_value (Given.pending_of_settle hsettle)

/-- Arguments that begin with a name and a value are read on behind them. -/
theorem exists_step_of_parse_joined {name value : String} (hname : '=' ∉ name.toList)
    (h : s.parse g (("--" ++ name ++ "=" ++ value) :: args) = .ok (g', sub)) :
    ∃ g₁, s.Step g (("--" ++ name ++ "=" ++ value) :: args) g₁ args ∧
      s.parse g₁ args = .ok (g', sub) := by
  rw [parse_joined hname] at h
  obtain ⟨g₁, hlong, hrest⟩ := bind_eq_ok.mp h
  obtain ⟨o, ho, rfl⟩ := exists_knows_of_long hname hlong
  obtain ⟨g₀, hsettle, hopens⟩ := (long_eq_ok ho).mp hlong
  unfold Opens at hopens
  cases hvalue : o.value with
  | none => rw [hvalue] at hopens; cases hopens
  | some kind =>
    rw [hvalue] at hopens
    obtain ⟨hawaits, hsettled⟩ := Given.settled_of_add hsettle hopens
    exact ⟨g₁, .mk (w := ⟨o, .joined, value⟩) ho (Option.isSome_iff_exists.mpr ⟨kind, hvalue⟩)
      hsettle hawaits (hsettled.trans hopens.symm), hrest⟩

/-- **What arguments that are read begin with**: the end, or a written option. -/
theorem ends_or_step (hg : g.awaits? = none) (h : s.parse g args = .ok (g', sub)) :
    (s.Ends args sub ∧ g.settle = .ok g') ∨
      ∃ g₁ rest, s.Step g args g₁ rest ∧ s.parse g₁ rest = .ok (g', sub) := by
  cases args with
  | nil =>
    obtain ⟨g₀, h₀, hend⟩ := bind_eq_ok.mp h
    cases hend
    exact .inl ⟨.nothing, h₀⟩
  | cons arg rest =>
    -- Bare arguments and two dashes are ends here, as no option waits for a value.
    obtain hbare | rfl | ⟨name, hne, hname, rfl⟩ | ⟨name, value, hname, rfl⟩ | ⟨c, cs, hc, harg⟩ :=
      argument_cases arg
    · rw [parse_plain hbare, hg] at h
      dsimp only at h
      split at h
      case isTrue hsub =>
        obtain ⟨g₀, h₀, hend⟩ := bind_eq_ok.mp h
        cases hend
        exact .inl ⟨.subcommand hbare hsub, h₀⟩
      case isFalse => cases h
    · cases rest with
      | nil =>
        rw [parse_dashes] at h
        obtain ⟨g₀, h₀, hend⟩ := bind_eq_ok.mp h
        cases hend
        exact .inl ⟨.dashes, h₀⟩
      | cons arg rest => rw [parse_dashes_cons] at h; cases h
    · exact .inr (exists_step_of_parse_name hne hname h)
    · obtain ⟨g₁, hstep, hrest⟩ := exists_step_of_parse_joined hname h
      exact .inr ⟨g₁, rest, hstep, hrest⟩
    · rw [parse_short hc harg] at h
      obtain ⟨g₁, h₁, -⟩ := bind_eq_ok.mp h
      exact absurd h₁ (short_ne_ok c)

/-- **A written option is read in one step**, if it can be added. -/
theorem parse_args {w : Written} {g₀ g₁ : Given} (ho : s.Knows w.opt) (hw : w.Suits)
    (hsettle : g.settle = .ok g₀) (hadd : g₀.add w.opt w.value = .ok g₁) (rest : List String) :
    ∃ g₂, g₂.awaits? = none ∧ g₂.settle = .ok g₁ ∧
      s.parse g (w.args ++ rest) = s.parse g₂ rest := by
  obtain ⟨hawaits, hsettled⟩ := Given.settled_of_add hsettle hadd
  obtain ⟨o, form, value⟩ := w
  cases form with
  | alone =>
    obtain ⟨hswitch, rfl, hne⟩ : o.value = none ∧ value = "" ∧ o.long ≠ "" := hw
    have hopens : Opens o none g₀ g₁ := by
      unfold Opens
      rw [hswitch]
      exact hadd
    have hlong : s.long g o.long none = .ok g₁ := (long_eq_ok ho).mpr ⟨g₀, hsettle, hopens⟩
    refine ⟨g₁, hawaits, hsettled, ?_⟩
    show s.parse g (("--" ++ o.long) :: rest) = _
    rw [parse_name hne ho.plain, hlong]
    rfl
  | joined =>
    obtain ⟨kind, hkind⟩ := Option.isSome_iff_exists.mp (show o.value.isSome from hw)
    have hopens : Opens o (some value) g₀ g₁ := by
      unfold Opens
      rw [hkind]
      exact hadd
    have hlong : s.long g o.long (some value) = .ok g₁ :=
      (long_eq_ok ho).mpr ⟨g₀, hsettle, hopens⟩
    refine ⟨g₁, hawaits, hsettled, ?_⟩
    show s.parse g (("--" ++ o.long ++ "=" ++ value) :: rest) = _
    rw [parse_joined ho.plain, hlong]
    rfl
  | apart =>
    obtain ⟨hsome, hne, hbare⟩ : o.value.isSome ∧ o.long ≠ "" ∧ isDashed value = false := hw
    obtain ⟨kind, hkind⟩ := Option.isSome_iff_exists.mp hsome
    have hopens : Opens o none g₀ { g₀ with pending := some (o, none) } := by
      unfold Opens
      rw [hkind]
    have hlong : s.long g o.long none = .ok { g₀ with pending := some (o, none) } :=
      (long_eq_ok ho).mpr ⟨g₀, hsettle, hopens⟩
    refine ⟨{ g₀ with pending := some (o, some value) }, rfl, ?_, ?_⟩
    · rw [Given.settle_value (Given.pending_of_settle hsettle), hadd]
    · show s.parse g (("--" ++ o.long) :: value :: rest) = _
      rw [parse_name hne ho.plain, hlong]
      show s.parse { g₀ with pending := some (o, none) } (value :: rest) = _
      rw [parse_plain hbare]
      rfl

end Grammar

/-! ## Runs -/

namespace Given

variable {g g' : Given} {w : Written} {ws : List Written}

/-- Adds all that was written. -/
def addAll (g : Given) (ws : List Written) : Except Stop Given :=
  ws.foldlM (fun g w => g.add w.opt w.value) g

theorem addAll_nil : g.addAll [] = .ok g' ↔ g' = g := by
  exact ⟨fun h => (Except.ok.inj h).symm, fun h => congrArg Except.ok h.symm⟩

theorem addAll_cons : g.addAll (w :: ws) = .ok g' ↔
    ∃ g₁, g.add w.opt w.value = .ok g₁ ∧ g₁.addAll ws = .ok g' := by
  rw [addAll, List.foldlM_cons]
  exact bind_eq_ok

/-- **All that was written can be added** exactly if no name occurs twice and every value is one that
its option can have. -/
theorem addAll_eq_ok : g.addAll ws = .ok g' ↔
    (∀ w ∈ ws, g.has w.opt.long = false ∧ fault? w.opt w.value = none) ∧
      (ws.map fun w => w.opt.long).Nodup ∧
      g' = { g with values := g.values ++ ws.map Written.entry } := by
  induction ws generalizing g with
  | nil => simp [addAll_nil]
  | cons w ws ih =>
    have hhas (v : Written) :
        ({ g with values := g.values ++ [(w.opt.long, w.value)] } : Given).has v.opt.long = false ↔
          g.has v.opt.long = false ∧ w.opt.long ≠ v.opt.long := by
      rw [has, has, List.any_append, Bool.or_eq_false_iff]
      simp
    simp only [addAll_cons, add_eq_ok, ih]
    constructor
    · rintro ⟨_, ⟨hnew, hfault, rfl⟩, hall, hnodup, rfl⟩
      refine ⟨?_, ?_, by simp [Written.entry]⟩
      · exact List.forall_mem_cons.mpr
          ⟨⟨hnew, hfault⟩, fun v hv => ⟨((hhas v).mp (hall v hv).1).1, (hall v hv).2⟩⟩
      · refine List.nodup_cons.mpr ⟨fun hmem => ?_, hnodup⟩
        obtain ⟨v, hv, heq⟩ := List.mem_map.mp hmem
        exact ((hhas v).mp (hall v hv).1).2 heq.symm
    · rintro ⟨hall, hnodup, rfl⟩
      obtain ⟨⟨hnew, hfault⟩, hall⟩ := List.forall_mem_cons.mp hall
      obtain ⟨hw, hnodup⟩ := List.nodup_cons.mp hnodup
      refine ⟨_, ⟨hnew, hfault, rfl⟩, fun v hv => ⟨(hhas v).mpr ⟨(hall v hv).1, fun heq => ?_⟩,
        (hall v hv).2⟩, hnodup, by simp [Written.entry]⟩
      exact hw (List.mem_map.mpr ⟨v, hv, heq.symm⟩)

end Given

namespace Grammar

variable {s : Grammar} {g g' : Given} {args : List String} {sub : Option (String × List String)}

/-- **A run over arguments**: they are written options with an end behind them, and these are added to
what was given before. -/
theorem parse_iff (hg : g.awaits? = none) : s.parse g args = .ok (g', sub) ↔
    ∃ ws tail g₀, args = ws.flatMap Written.args ++ tail ∧ s.Ends tail sub ∧
      (∀ w ∈ ws, s.Knows w.opt ∧ w.Suits) ∧ g.settle = .ok g₀ ∧ g₀.addAll ws = .ok g' := by
  constructor
  · -- By induction on the number of arguments, as an option takes one of them or two.
    intro h
    induction hn : args.length using Nat.strongRecOn generalizing g args with
    | ind n ih =>
      obtain ⟨hend, hsettle⟩ | ⟨g₁, rest, hstep, hrest⟩ := ends_or_step hg h
      · exact ⟨[], args, g', rfl, hend, by simp, hsettle, Given.addAll_nil.mpr rfl⟩
      · have hlt : rest.length < n := hn ▸ hstep.length_lt
        cases hstep with
        | @mk w _ g₀ _ ho hw hsettle hawaits hadds =>
          obtain ⟨ws, tail, g₂, rfl, hend, hws, hsettled, hadd⟩ := ih _ hlt hawaits hrest rfl
          refine ⟨w :: ws, tail, g₀, by simp, hend, List.forall_mem_cons.mpr ⟨⟨ho, hw⟩, hws⟩, hsettle,
            Given.addAll_cons.mpr ⟨g₂, ?_, hadd⟩⟩
          rw [← hadds, hsettled]
  · rintro ⟨ws, tail, g₀, rfl, hend, hws, hsettle, hadd⟩
    induction ws generalizing g g₀ with
    | nil =>
      obtain rfl := Given.addAll_nil.mp hadd
      cases hend with
      | nothing => exact bind_eq_ok.mpr ⟨_, hsettle, rfl⟩
      | dashes => exact parse_dashes.trans (bind_eq_ok.mpr ⟨_, hsettle, rfl⟩)
      | subcommand hname hsub =>
        rw [List.flatMap_nil, List.nil_append, parse_plain hname, hg]
        dsimp only
        rw [if_pos hsub, hsettle]
        rfl
    | cons w ws ih =>
      obtain ⟨⟨ho, hw⟩, hws⟩ := List.forall_mem_cons.mp hws
      obtain ⟨g₁, hfirst, hadd⟩ := Given.addAll_cons.mp hadd
      obtain ⟨g₂, hawaits, hsettle', hstep⟩ :=
        parse_args ho hw hsettle hfirst (ws.flatMap Written.args ++ tail)
      rw [List.flatMap_cons, List.append_assoc, hstep]
      exact ih hawaits g₁ hws hsettle' hadd

/-- **The options are written as the grammar asks**: each is one of its options, in a form that suits
it and with a value that it can have, and none is written twice. -/
structure Admits (s : Grammar) (ws : List Written) : Prop where
  knows : ∀ w ∈ ws, s.Knows w.opt
  suits : ∀ w ∈ ws, w.Suits
  fits : ∀ w ∈ ws, Given.fault? w.opt w.value = none
  nodup : (ws.map fun w => w.opt.long).Nodup

/-- **What a command line gives**: the names and values of the options that are written on it. -/
theorem parse_eq_ok_iff : s.parse .nothing args = .ok (g, sub) ↔
    ∃ ws tail, args = ws.flatMap Written.args ++ tail ∧ s.Ends tail sub ∧ s.Admits ws ∧
      g = ⟨ws.map Written.entry, none⟩ := by
  rw [parse_iff rfl]
  constructor
  · rintro ⟨ws, tail, g₀, rfl, hend, hws, hsettle, hadd⟩
    obtain rfl : Given.nothing = g₀ := Except.ok.inj hsettle
    obtain ⟨hall, hnodup, rfl⟩ := Given.addAll_eq_ok.mp hadd
    exact ⟨ws, tail, rfl, hend, ⟨fun w hw => (hws w hw).1, fun w hw => (hws w hw).2,
      fun w hw => (hall w hw).2, hnodup⟩, rfl⟩
  · rintro ⟨ws, tail, rfl, hend, hadmits, rfl⟩
    exact ⟨ws, tail, .nothing, rfl, hend, fun w hw => ⟨hadmits.knows w hw, hadmits.suits w hw⟩, rfl,
      Given.addAll_eq_ok.mpr ⟨fun w hw => ⟨rfl, hadmits.fits w hw⟩, hadmits.nodup, rfl⟩⟩

-- A value of its own takes a whole argument, and one behind an equals sign may hold another one.
example : encode.parse .nothing ["--name", "a", "--namespace=b=c"] =
    .ok (⟨[("name", "a"), ("namespace", "b=c")], none⟩, none) := by
  rfl

end Grammar

end ConfigVault.Cli
