import ConfigVault.Json.Basic
import ConfigVault.Number.Shortest

/-!
# JSON text

Two layouts of a JSON value: `Json.compact` on one line, and `Json.pretty` with a line for each
member and item, indented by two spaces.  Strings are written with the escapes that JSON requires
and no others (`Json.quoted`).
-/

namespace ConfigVault.Json

/-- The hexadecimal digit of a number below sixteen, in lower case. -/
def hexDigit (n : Nat) : Char :=
  if n < 10 then Char.ofNat (48 + n) else Char.ofNat (87 + n)

/-- How a character is written in a string. -/
def escaped (c : Char) : List Char :=
  match c with
  | '"' => ['\\', '"']
  | '\\' => ['\\', '\\']
  | '\x08' => ['\\', 'b']
  | '\x0c' => ['\\', 'f']
  | '\n' => ['\\', 'n']
  | '\r' => ['\\', 'r']
  | '\t' => ['\\', 't']
  | c =>
    if c.toNat < 32 then ['\\', 'u', '0', '0', hexDigit (c.toNat / 16), hexDigit (c.toNat % 16)]
    else [c]

/-- A string in quotes. -/
def quoted (s : String) : List Char :=
  '"' :: (s.toList.flatMap escaped ++ ['"'])

mutual

/-- A value on one line. -/
def compact : Json → List Char
  | .null => "null".toList
  | .bool b => (if b then "true" else "false").toList
  | .int i => (toString i).toList
  | .float x => x.jsonText
  | .string s => quoted s
  | .array items => '[' :: (compactItems items ++ [']'])
  | .object members => '\x7b' :: (compactMembers members ++ ['\x7d'])

/-- Items on one line. -/
def compactItems : List Json → List Char
  | [] => []
  | [v] => compact v
  | v :: vs => compact v ++ ',' :: compactItems vs

/-- Members on one line. -/
def compactMembers : List (String × Json) → List Char
  | [] => []
  | [(k, v)] => quoted k ++ ':' :: compact v
  | (k, v) :: ms => quoted k ++ ':' :: (compact v ++ ',' :: compactMembers ms)

end

/-- A line break and the indentation of a depth. -/
def newLine (depth : Nat) : List Char :=
  '\n' :: List.replicate (2 * depth) ' '

mutual

/-- A value over several lines, at a depth. -/
def pretty (depth : Nat) : Json → List Char
  | .null => "null".toList
  | .bool b => (if b then "true" else "false").toList
  | .int i => (toString i).toList
  | .float x => x.jsonText
  | .string s => quoted s
  | .array [] => ['[', ']']
  | .array (v :: vs) => '[' :: (prettyItems (depth + 1) (v :: vs) ++ newLine depth ++ [']'])
  | .object [] => ['\x7b', '\x7d']
  | .object (m :: ms) =>
    '\x7b' :: (prettyMembers (depth + 1) (m :: ms) ++ newLine depth ++ ['\x7d'])

/-- Items, each on a line of its own. -/
def prettyItems (depth : Nat) : List Json → List Char
  | [] => []
  | [v] => newLine depth ++ pretty depth v
  | v :: vs => newLine depth ++ pretty depth v ++ ',' :: prettyItems depth vs

/-- Members, each on a line of its own. -/
def prettyMembers (depth : Nat) : List (String × Json) → List Char
  | [] => []
  | [(k, v)] => newLine depth ++ quoted k ++ ':' :: ' ' :: pretty depth v
  | (k, v) :: ms =>
    newLine depth ++ quoted k ++ ':' :: ' ' :: (pretty depth v ++ ',' :: prettyMembers depth ms)

end

/-- The text of a value on one line. -/
def text (v : Json) : String := String.ofList (compact v)

/-- The text of a value on lines of its own. -/
def prettyText (v : Json) : String := String.ofList (pretty 0 v)

end ConfigVault.Json
