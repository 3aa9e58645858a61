import ConfigVault.Cli.Command

/-!
# Help pages

A page says what a command is for, how it is called, and what its options mean.  The descriptions
begin in one column, two places behind the longest entry.
-/

namespace ConfigVault.Cli

namespace Opt

/-- What is known about the value of an option. -/
def notes (env : String → Option String) (o : Opt) : List String :=
  (o.envName.map fun v => "[env: " ++ v ++ "=" ++ (env v).getD "" ++ "]").toList ++
    (o.fallback.map fun d => "[default: " ++ d ++ "]").toList ++
    (if o.choices.isEmpty then []
      else ["[possible values: " ++ String.intercalate ", " o.choices ++ "]"])

/-- The description of an option. -/
def description (env : String → Option String) (o : Opt) : String :=
  String.intercalate " " ((if o.about.isEmpty then [] else [o.about]) ++ o.notes env)

end Opt

namespace Page

/-- Entries and their descriptions, in two columns. -/
def table (rows : List (String × String)) : String :=
  let width := (rows.map fun r => r.1.length).foldl max 0
  String.join <| rows.map fun (entry, about) =>
    entry ++ "".pushn ' ' (width + 2 - entry.length) ++ about ++ "\n"

/-- The entries of options. -/
def optionRows (env : String → Option String) (s : Grammar) : List (String × String) :=
  s.options.map (fun o => ("      " ++ o.display, o.description env)) ++
    [("  -h, --help", "Print help")] ++
    (if s.hasVersion then [("  -V, --version", "Print version")] else [])

/-- The name of the help command. -/
def helpName : String := "help"

/-- What the help command is for. -/
def helpAbout : String := "Print this message or the help of the given subcommand(s)"

/-- The entries of subcommands. -/
def commandRows : List (String × String) :=
  ([Grammar.encode, Grammar.decode].map fun s => ("  " ++ s.name, s.about)) ++
    [("  " ++ helpName, helpAbout)]

/-- How the program is called. -/
def usage (rest : String) : String :=
  "Usage: " ++ Grammar.program.name ++ " " ++ rest ++ "\n\n"

/-- The page of a subcommand. -/
def ofCommand (env : String → Option String) (s : Grammar) : String :=
  let required := s.options.filter fun o => o.required
  s.about ++ "\n\n" ++
    usage (String.intercalate " " ([s.name, "[OPTIONS]"] ++ required.map Opt.display)) ++
    "Options:\n" ++ table (optionRows env s)

/-- The text of a page. -/
def text (env : String → Option String) : Page → String
  | .program =>
    Grammar.program.about ++ "\n\n" ++ usage "[OPTIONS] <COMMAND>" ++
      "Commands:\n" ++ table commandRows ++ "\nOptions:\n" ++
      table (optionRows env Grammar.program)
  | .encode => ofCommand env Grammar.encode
  | .decode => ofCommand env Grammar.decode
  | .help =>
    helpAbout ++ "\n\n" ++ usage (helpName ++ " [COMMAND]...") ++
      "Arguments:\n" ++ table [("  [COMMAND]...", "Print help for the subcommand(s)")]

/-- The text that names the version. -/
def versionText : String := Grammar.program.name ++ " 0.1.0\n"

end Page

end ConfigVault.Cli
