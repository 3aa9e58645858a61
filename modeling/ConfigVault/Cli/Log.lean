import ConfigVault.Json.Printer
import ConfigVault.Text.Utf8
import ConfigVault.Text.WhiteSpace

/-!
# The log

What a run reports about itself is a sequence of events, each with a level and with a target, the
part of the program that reports it.  A filter decides which events are shown (`Filter.shows`): of
its directives the one whose target is the longest beginning of the event's target counts.

Events are written one a line, as text or as JSON.
-/

namespace ConfigVault.Cli.Log

/-- How important an event is, most important first. -/
inductive Level where
  | error
  | warn
  | info
  | debug
  | trace
  deriving DecidableEq, Repr

namespace Level

/-- All levels, most important first. -/
def all : List Level := [error, warn, info, debug, trace]

/-- The name of a level in the log. -/
def name : Level → String
  | error => "ERROR"
  | warn => "WARN"
  | info => "INFO"
  | debug => "DEBUG"
  | trace => "TRACE"

/-- How many levels there are up to this one. -/
def rank : Level → Nat
  | error => 1
  | warn => 2
  | info => 3
  | debug => 4
  | trace => 5

end Level

/-- Something that is reported. -/
structure Event where
  level : Level
  target : String
  message : String
  deriving DecidableEq, Repr

/-! ## Filters -/

/-- What a filter says about targets. -/
structure Directive where
  /-- The beginning of the targets that are meant; all are, if there is none. -/
  target : Option String
  /-- The directive is about parts of a run that this program does not have. -/
  isScoped : Bool
  /-- The rank of the least important level that is shown; zero shows nothing. -/
  rank : Nat
  deriving DecidableEq, Repr

namespace Directive

/-- The number that digits stand for, if there are any. -/
def number? (cs : List Char) : Option Nat :=
  let digits := if cs.head? == some '+' then cs.drop 1 else cs
  if digits.isEmpty || !digits.all Char.isDigit then none
  else some (digits.foldl (fun n c => 10 * n + (c.toNat - 0x30)) 0)

/-- The rank with a name or a number. -/
def rank? (text : List Char) : Option Nat :=
  let upper := String.ofList (text.map Char.toUpper)
  match (number? text).filter (· ≤ 5) with
  | some n => some n
  | none =>
    if upper == "OFF" then some 0
    else (Level.all.find? fun l => l.name == upper).map Level.rank

/-- The rank behind an equals sign; nothing stands for everything. -/
def rankBehind? (text : List Char) : Option Nat :=
  if text.isEmpty then some 5 else rank? text

/-- The rank behind the name of a scope, which has its bracket still open. -/
def rankBehindScope? (text : List Char) : Option Nat :=
  let behind (rest : List Char) : Option Nat :=
    match rest with
    | [] => some 5
    | '=' :: rest => rankBehind? rest
    | _ => none
  match text.dropWhile fun c => c != ']' && c != '\x7b' with
  | ']' :: rest => behind rest
  | '\x7b' :: rest =>
    match rest.takeWhile (· != '\x7d'), rest.dropWhile (· != '\x7d') with
    | _ :: _, '\x7d' :: ']' :: rest => behind rest
    | _, _ => none
  | _ => none

/-- A letter or digit of any script, or one of the other characters that names begin with. -/
def isNameStart (c : Char) : Bool :=
  c.isAlphanum || c == '-' || c == ':' || c == '_' || 0x80 ≤ c.toNat

/-- The directive that a text stands for: a level, or a target with or without one. -/
def parse? (cs : List Char) : Option Directive :=
  match Text.trimStart cs with
  | [] => none
  | '[' :: rest => (rankBehindScope? rest).map fun rank => ⟨none, true, rank⟩
  | c :: _ =>
    if !isNameStart c then none
    else
      let name := cs.takeWhile fun c => c != '=' && c != '['
      match cs.drop name.length with
      | '=' :: rest =>
        (rankBehind? rest).map fun rank => ⟨some (String.ofList name), false, rank⟩
      | '[' :: rest =>
        (rankBehindScope? rest).map fun rank => ⟨some (String.ofList name), true, rank⟩
      | _ =>
        match rank? name with
        | some rank => some ⟨none, false, rank⟩
        | none => some ⟨some (String.ofList name), false, 5⟩

/-- The length of the target, one more than that, or zero if there is none. -/
def weight (d : Directive) : Nat := d.target.elim 0 fun t => t.length + 1

/-- The directive is about events with this target. -/
def covers (d : Directive) (target : String) : Bool :=
  !d.isScoped && d.target.all fun t => t.toList.isPrefixOf target.toList

end Directive

/-- Decides which events are shown. -/
abbrev Filter := List Directive

namespace Filter

/-- The directive that counts for a target: the one with the longest target, and of several with
the same target the last. -/
def directive? (f : Filter) (target : String) : Option Directive :=
  (f.filter fun d => d.covers target).foldl
    (fun best d => if best.all fun b => b.weight ≤ d.weight then some d else best) none

/-- The event is shown. -/
def shows (f : Filter) (e : Event) : Bool :=
  (f.directive? e.target).any fun d => e.level.rank ≤ d.rank

/-- The filter that directives make; without any, only errors are shown. -/
def ofDirectives (ds : List Directive) : Filter :=
  if ds.isEmpty then [⟨none, false, Level.error.rank⟩] else ds

/-- The filter that a text stands for. -/
def parse? (text : String) : Option Filter :=
  (((text.toList.splitOn ',').filter fun d => !d.isEmpty).mapM Directive.parse?).map ofDirectives

/-- The filter that holds unless another one is asked for. -/
def default : Filter :=
  [⟨none, false, Level.warn.rank⟩, ⟨some "kubeconfig_secret", false, Level.info.rank⟩]

/-- The filter that the environment asks for, if that makes sense. -/
def ofEnv (env : String → Option String) : Filter :=
  ((env "RUST_LOG").bind parse?).getD default

end Filter

/-! ## Lines -/

/-- How a character of a message is written: characters that control a terminal are not sent to
it. -/
def shown (c : Char) : List Char :=
  if c = '\x1b' then "\\x1b".toList
  else if c = '\x07' then "\\x07".toList
  else if c = '\x08' then "\\x08".toList
  else if c = '\x0c' then "\\x0c".toList
  else if c = '\x7f' then "\\x7f".toList
  else if 0x80 ≤ c.toNat ∧ c.toNat ≤ 0x9f then
    "\\u".toList ++ '\x7b' :: (Nat.toDigits 16 c.toNat ++ ['\x7d'])
  else [c]

namespace Event

/-- The line of an event as text. -/
def text (time : String) (e : Event) : String :=
  time ++ " " ++ "".pushn ' ' (5 - e.level.name.length) ++ e.level.name ++ " " ++ e.target ++
    ": " ++ String.ofList (e.message.toList.flatMap shown) ++ "\n"

/-- The line of an event as JSON. -/
def json (time : String) (e : Event) : String :=
  (Json.object [("timestamp", .string time), ("level", .string e.level.name),
    ("fields", .object [("message", .string e.message)]),
    ("target", .string e.target)]).text ++ "\n"

end Event

end ConfigVault.Cli.Log
