/-!
# Options

The grammar of a command line (`Grammar`) and how arguments are read by it (`Grammar.parse`).

An option has a long name and, unless it is a switch, a value, which follows it behind an equals
sign or as the next argument.  A value that follows as an argument is looked at only when the next
option begins or the arguments end, so what is wrong with it is reported late; an argument that is
no option at all is reported first.
-/

namespace ConfigVault.Cli

/-- What the value of an option can be. -/
inductive ValueKind where
  | text
  /-- A path is not empty. -/
  | path
  | oneOf (names : List String)
  deriving DecidableEq, Repr

/-- An option. -/
structure Opt where
  long : String
  about : String
  /-- A switch has no value. -/
  value : Option ValueKind
  /-- The option has to be given. -/
  required : Bool
  /-- Another option that has to be given beside this one. -/
  needs : Option String
  /-- What provides the value if the option is not given: a variable of the environment. -/
  envName : Option String
  /-- What the value is if nothing provides one. -/
  fallback : Option String

namespace Opt

/-- A switch. -/
def switch (long about : String) : Opt :=
  ⟨long, about, none, false, none, none, none⟩

/-- An option with a value. -/
def withValue (long : String) (kind : ValueKind) (about : String) : Opt :=
  ⟨long, about, some kind, false, none, none, none⟩

/-- What messages and help pages call the value. -/
def valueName (o : Opt) : String :=
  o.long.map fun c => if c = '-' then '_' else c.toUpper

/-- What messages and help pages call the option. -/
def display (o : Opt) : String :=
  "--" ++ o.long ++ (if o.value.isSome then " <" ++ o.valueName ++ ">" else "")

/-- The values to choose from, if there is a choice. -/
def choices (o : Opt) : List String :=
  match o.value with
  | some (.oneOf names) => names
  | _ => []

end Opt

/-- The grammar of a command. -/
structure Grammar where
  name : String
  about : String
  options : List Opt
  /-- The program's version can be asked for. -/
  hasVersion : Bool
  subcommands : List String

/-- Why arguments cannot be read. -/
inductive UsageError where
  | unexpectedArgument (arg : String)
  | unrecognizedSubcommand (arg : String)
  | missingSubcommand (names : List String)
  | missingRequired (options : List String)
  | missingValue (option : String) (choices : List String)
  | invalidValue (value option : String) (choices : List String)
  | unexpectedValue (value option : String)
  | repeated (option : String)
  deriving DecidableEq, Repr

namespace UsageError

/-- The values that messages offer. -/
def choicesText (label : String) : List String → String
  | [] => ""
  | names => "\n  [" ++ label ++ ": " ++ String.intercalate ", " names ++ "]"

/-- The message of an error. -/
def message : UsageError → String
  | .unexpectedArgument arg => "unexpected argument '" ++ arg ++ "' found"
  | .unrecognizedSubcommand arg => "unrecognized subcommand '" ++ arg ++ "'"
  | .missingSubcommand names =>
    "'kubeconfig-secret' requires a subcommand but one was not provided" ++
      choicesText "subcommands" names
  | .missingRequired options =>
    "the following required arguments were not provided:" ++
      String.join (options.map fun o => "\n  " ++ o)
  | .missingValue option choices =>
    "a value is required for '" ++ option ++ "' but none was supplied" ++
      choicesText "possible values" choices
  | .invalidValue value option choices =>
    "invalid value '" ++ value ++ "' for '" ++ option ++ "'" ++
      choicesText "possible values" choices
  | .unexpectedValue value option =>
    "unexpected value '" ++ value ++ "' for '" ++ option ++ "' found; no more were expected"
  | .repeated option => "the argument '" ++ option ++ "' cannot be used multiple times"

end UsageError

/-- What ends the reading of arguments. -/
inductive Stop where
  | usage (error : UsageError)
  /-- Help is asked for. -/
  | help
  /-- The version is asked for. -/
  | version
  deriving DecidableEq, Repr

/-- The options that were given. -/
structure Given where
  /-- The options and their values; switches have an empty one. -/
  values : List (String × String)
  /-- The last option, if its value is an argument of its own, and that argument once it is
  there. -/
  pending : Option (Opt × Option String)

namespace Given

/-- Nothing was given. -/
def nothing : Given := ⟨[], none⟩

/-- The option was given. -/
def has (g : Given) (name : String) : Bool := g.values.any fun v => v.1 == name

/-- What is wrong with a value. -/
def fault? (o : Opt) (value : String) : Option UsageError :=
  match o.value with
  | some .path => if value.isEmpty then some (.missingValue o.display []) else none
  | some (.oneOf names) =>
    if names.contains value then none
    else if value.isEmpty then some (.missingValue o.display names)
    else some (.invalidValue value o.display names)
  | _ => none

/-- Adds an option with its value. -/
def add (g : Given) (o : Opt) (value : String) : Except Stop Given :=
  if g.has o.long then .error (.usage (.repeated o.display))
  else
    match fault? o value with
    | some e => .error (.usage e)
    | none => .ok { g with values := g.values ++ [(o.long, value)] }

/-- Adds the option that is pending. -/
def settle (g : Given) : Except Stop Given :=
  match g.pending with
  | none => .ok g
  | some (o, none) => .error (.usage (.missingValue o.display o.choices))
  | some (o, some value) => { g with pending := none }.add o value

/-- The last option waits for its value. -/
def awaits? (g : Given) : Option Opt :=
  match g.pending with
  | some (o, none) => some o
  | _ => none

/-- The value of an option: as it was given, from the environment, or as it is by default. -/
def value? (g : Given) (env : String → Option String) (o : Opt) : Option String :=
  ((g.values.lookup o.long).or (o.envName.bind env)).or o.fallback

end Given

namespace Grammar

variable (s : Grammar)

/-- Reads an option with a long name.  The value is what stands behind an equals sign. -/
def long (g : Given) (name : String) (value : Option String) : Except Stop Given :=
  let special (stop : Stop) : Except Stop Given :=
    match value with
    | some v => .error (.usage (.unexpectedValue v ("--" ++ name)))
    | none => do
      let _ ← g.settle
      throw stop
  if name = "help" then special .help
  else if name = "version" ∧ s.hasVersion then special .version
  else
    match s.options.find? fun o => o.long == name with
    | none => .error (.usage (.unexpectedArgument ("--" ++ name)))
    | some o =>
      match o.value, value with
      | none, some v => .error (.usage (.unexpectedValue v o.display))
      | none, none => do (← g.settle).add o ""
      | some _, some v => do (← g.settle).add o v
      | some _, none => do pure { ← g.settle with pending := some (o, none) }

/-- Reads an option with a short name; both that exist end the reading. -/
def short (g : Given) (name : Char) : Except Stop Given :=
  let stop : Stop :=
    if name = 'h' then .help
    else if name = 'V' ∧ s.hasVersion then .version
    else .usage (.unexpectedArgument (String.ofList ['-', name]))
  match stop with
  | .usage e => .error (.usage e)
  | stop => do
    let _ ← g.settle
    throw stop

/-- An argument that is neither an option nor a value. -/
def stray (arg : String) : Stop :=
  .usage (if s.subcommands.isEmpty then .unexpectedArgument arg else .unrecognizedSubcommand arg)

/-- An argument behind two dashes, where no subcommand can stand. -/
def escaped (arg : String) : Stop :=
  if s.subcommands.contains arg then .usage (.unexpectedArgument arg) else s.stray arg

/-- Reads the arguments up to a subcommand: the options, and the subcommand with the arguments
behind it. -/
def parse (g : Given) : List String → Except Stop (Given × Option (String × List String))
  | [] => do pure (← g.settle, none)
  | arg :: args =>
    match g.awaits?, arg.toList with
    | _, ['-', '-'] =>
      match args with
      | [] => do pure (← g.settle, none)
      | arg :: _ => .error (s.escaped arg)
    | _, '-' :: '-' :: cs => do
      let name := cs.takeWhile (· != '=')
      let value := if name.length = cs.length then none else some (cs.drop (name.length + 1))
      let g ← s.long g (String.ofList name) (value.map String.ofList)
      parse g args
    | _, '-' :: c :: _ => do
      let g ← s.short g c
      parse g args
    | some o, _ => parse { g with pending := some (o, some arg) } args
    | none, _ =>
      if s.subcommands.contains arg then do pure (← g.settle, some (arg, args))
      else .error (s.stray arg)

/-- The options that are missing. -/
def missing (g : Given) : List String :=
  (s.options.filter fun o =>
    !g.has o.long &&
      (o.required || s.options.any fun p => g.has p.long && p.needs == some o.long)).map
    Opt.display

/-- Refuses options without those that have to be there. -/
def check (g : Given) : Except Stop Unit :=
  match s.missing g with
  | [] => .ok ()
  | options => .error (.usage (.missingRequired options))

end Grammar

end ConfigVault.Cli
