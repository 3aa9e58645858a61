import ConfigVault.Json.Basic
import ConfigVault.Number.Shortest
import ConfigVault.Yaml.Style

/-!
# YAML text

The block layout of a JSON value: a line for each scalar, collections indented by two columns, and
only empty collections in brackets.  A list under a key is not indented further than the key, and
behind a dash a collection begins in the same line.  Keys that are long or hold line breaks are
written behind a question mark.

Every part is written with the line break that ends it, so that parts follow each other without
anything between them.
-/

namespace ConfigVault.Yaml

namespace Writer

/-- Spaces. -/
def spaces (n : Nat) : List Char := List.replicate n ' '

/-- A hexadecimal digit in upper case. -/
def hexDigit (n : Nat) : Char :=
  if n < 10 then Char.ofNat (48 + n) else Char.ofNat (55 + n)

/-- The last `width` hexadecimal digits of a number. -/
def hexDigits : (width : Nat) → Nat → List Char
  | 0, _ => []
  | width + 1, n => hexDigits width (n / 16) ++ [hexDigit (n % 16)]

/-- The letter of a short escape. -/
def shortEscape? : Char → Option Char
  | '\x00' => some '0'
  | '\x07' => some 'a'
  | '\x08' => some 'b'
  | '\t' => some 't'
  | '\n' => some 'n'
  | '\x0b' => some 'v'
  | '\x0c' => some 'f'
  | '\r' => some 'r'
  | '\x1b' => some 'e'
  | '"' => some '"'
  | '\\' => some '\\'
  | '\x85' => some 'N'
  | '\xa0' => some '_'
  | '\u2028' => some 'L'
  | '\u2029' => some 'P'
  | _ => none

/-- An escape in double quotes. -/
def escape (c : Char) : List Char :=
  match shortEscape? c with
  | some e => ['\\', e]
  | none =>
    let n := c.toNat
    if n ≤ 0xFF then '\\' :: 'x' :: hexDigits 2 n
    else if n ≤ 0xFFFF then '\\' :: 'u' :: hexDigits 4 n
    else '\\' :: 'U' :: hexDigits 8 n

/-- A character in double quotes. -/
def doubleChar (c : Char) : List Char :=
  if Style.isPrintable c && !isBreak c && c != '"' && c != '\\' then [c] else escape c

/-- Text in double quotes. -/
def doubleQuoted (cs : List Char) : List Char :=
  '"' :: (cs.flatMap doubleChar ++ ['"'])

/-- Text whose lines begin with an indentation; `fresh` says that a line begins here. -/
def indented (width : Nat) (write : Char → List Char) : (fresh : Bool) → List Char → List Char
  | _, [] => []
  | fresh, c :: cs =>
    if isBreak c then c :: indented width write true cs
    else (if fresh then spaces width else []) ++ write c ++ indented width write false cs

/-- The last character of a text is a line break. -/
def endsWithBreak (cs : List Char) : Bool := cs.getLast?.any isBreak

/-- Text in single quotes; lines after the first are indented. -/
def singleQuoted (width : Nat) (cs : List Char) : List Char :=
  '\'' :: (indented width (fun c => if c = '\'' then ['\'', '\''] else [c]) false cs ++
    (if endsWithBreak cs then spaces width else []) ++ ['\''])

/-- The indentation that a literal block has to announce, because its text begins with a blank
line or a space. -/
def indentHint (cs : List Char) : List Char :=
  if cs.head?.any fun c => Style.isSpace c || isBreak c then ['2'] else []

/-- What a literal block announces about the line breaks at its end. -/
def chompHint (cs : List Char) : List Char :=
  match cs.reverse with
  | [] => ['-']
  | [c] => if isBreak c then ['+'] else ['-']
  | c :: d :: _ => if !isBreak c then ['-'] else if isBreak d then ['+'] else []

/-- A literal block, up to the end of its last line. -/
def literal (width : Nat) (cs : List Char) : List Char :=
  '|' :: (indentHint cs ++ chompHint cs ++ '\n' :: indented width (fun c => [c]) true cs ++
    if endsWithBreak cs then [] else ['\n'])

/-- A string, up to the end of its last line; its further lines are indented. -/
def stringLine (width : Nat) (s : String) : List Char :=
  let cs := s.toList
  match styleOf s with
  | .plain => cs ++ ['\n']
  | .singleQuoted => singleQuoted width cs ++ ['\n']
  | .literal => literal width cs
  | _ => doubleQuoted cs ++ ['\n']

/-- A string as a key in front of a colon: its text in one line. -/
def keyText (s : String) : List Char :=
  let cs := s.toList
  match styleOf s with
  | .plain => cs
  | .singleQuoted => singleQuoted 0 cs
  | _ => doubleQuoted cs

/-- The longest key, in octets, that is written in front of its colon. -/
def longestKey : Nat := 128

/-- A key is written in front of its colon: it is short and in one line. -/
def isSimpleKey (s : String) : Bool :=
  s.utf8ByteSize ≤ longestKey && !s.toList.any isBreak

/-- The text of a value that takes one line whatever is around it. -/
def inline? : Json → Option (List Char)
  | .null => some "null".toList
  | .bool b => some (if b then "true" else "false").toList
  | .int i => some (toString i).toList
  | .float x => some x.text
  | .array [] => some ['[', ']']
  | .object [] => some ['\x7b', '\x7d']
  | _ => none

mutual

/-- A value behind a dash, a question mark or the colon of such a key, in a collection that is
indented by `width`: it begins in the same line. -/
def behindIndicator (width : Nat) : Json → List Char
  | .array (v :: vs) => ' ' :: items (width + 2) true (v :: vs)
  | .object (m :: ms) => ' ' :: entries (width + 2) true (m :: ms)
  | .string s => ' ' :: stringLine (width + 2) s
  | v => ' ' :: ((inline? v).getD [] ++ ['\n'])

/-- A value behind a key in a mapping that is indented by `width`: collections begin in the next
line. -/
def behindKey (width : Nat) : Json → List Char
  | .array (v :: vs) => '\n' :: items width false (v :: vs)
  | .object (m :: ms) => '\n' :: entries (width + 2) false (m :: ms)
  | .string s => ' ' :: stringLine (width + 2) s
  | v => ' ' :: ((inline? v).getD [] ++ ['\n'])

/-- The items of a list, each behind a dash.  `compact` says that the first is indented already. -/
def items (width : Nat) (compact : Bool) : List Json → List Char
  | [] => []
  | v :: vs =>
    (if compact then [] else spaces width) ++ '-' :: behindIndicator width v ++
      items width false vs

/-- The entries of a mapping.  `compact` says that the first is indented already. -/
def entries (width : Nat) (compact : Bool) : List (String × Json) → List Char
  | [] => []
  | (k, v) :: es =>
    (if compact then [] else spaces width) ++
      (if isSimpleKey k then keyText k ++ ':' :: behindKey width v
        else '?' :: ' ' :: stringLine (width + 2) k ++ spaces width ++
          ':' :: behindIndicator width v) ++
      entries width false es

end

/-- The text of a document. -/
def document : Json → List Char
  | .array (v :: vs) => items 0 true (v :: vs)
  | .object (m :: ms) => entries 0 true (m :: ms)
  | .string s => stringLine 2 s
  | v => (inline? v).getD [] ++ ['\n']

end Writer

/-- The YAML text of a JSON value. -/
def render (v : Json) : String := String.ofList (Writer.document v)

end ConfigVault.Yaml
