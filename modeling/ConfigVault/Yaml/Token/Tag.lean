import ConfigVault.Text.Utf8
import ConfigVault.Yaml.Cursor
import ConfigVault.Yaml.Token
import ConfigVault.Yaml.Token.Quoted

/-!
# Tags, anchors and directives

The tokens that are written with an indicator and a name.  A tag is written out between angle
brackets, or as a handle, which a directive may have declared, and a suffix.  Suffixes may escape
octets, so they are octets here, and nothing promises that they encode a text.
-/

namespace ConfigVault.Yaml

/-- The characters of names: letters, digits, hyphens and underscores, all of them ASCII. -/
def isNameChar (c : Char) : Bool :=
  c.isAlphanum || c == '_' || c == '-'

namespace Tag

/-- A cursor with octets read so far, latest first. -/
abbrev Reading := List UInt8 × Cursor

/-- The octet that `%` and two hexadecimal digits write. -/
def escapedOctet? : List Char → Option Nat
  | '%' :: a :: b :: _ => do
    let x ← Quoted.hexValue? a
    let y ← Quoted.hexValue? b
    some (x * 16 + y)
  | _ => none

/-- The octets after the first of an escaped character. -/
def escapedRest (context : Context) (began : Mark) :
    (more : Nat) → Reading → Except SyntaxError Reading
  | 0, r => .ok r
  | more + 1, (seen, c) => do
    c.need 3
    match escapedOctet? c.rest with
    | none => c.fail .expectedUriOctet context began
    | some n =>
      if 0x80 ≤ n ∧ n < 0xC0 then
        escapedRest context began more (UInt8.ofNat n :: seen, c.skip 3)
      else c.fail .badTrailingUriOctet context began

/-- The octets of an escaped character. -/
def escaped (context : Context) (began : Mark) (r : Reading) : Except SyntaxError Reading := do
  let (seen, c) := r
  c.need 3
  match escapedOctet? c.rest with
  | none => c.fail .expectedUriOctet context began
  | some n =>
    match Text.Utf8.leading? (UInt8.ofNat n) with
    | none => c.fail .badLeadingUriOctet context began
    | some (more, _) => escapedRest context began more (UInt8.ofNat n :: seen, c.skip 3)

/-- The characters of a URI; commas and brackets only where nothing else can claim them. -/
def isUriChar (wide : Bool) (c : Char) : Bool :=
  isNameChar c || ";/?:@&=+$.%!~*'()".toList.contains c || (wide && ",[]".toList.contains c)

/-- The octets of the URI characters at the cursor. -/
def uriOctets (wide : Bool) (context : Context) (began : Mark) :
    (fuel : Nat) → Reading → Except SyntaxError Reading
  | 0, r => .ok r
  | fuel + 1, (seen, c) =>
    match c.rest with
    | [] => do
      c.need 1
      .ok (seen, c)
    | x :: _ =>
      if isUriChar wide x then
        if x = '%' then do
          let r ← escaped context began (seen, c)
          uriOctets wide context began fuel r
        else uriOctets wide context began fuel (UInt8.ofNat x.toNat :: seen, c.skip 1)
      else .ok (seen, c)

/-- A URI, after the part `head` of it that was read already.  It may be empty only after a
nonempty head; the exclamation mark that opens the head is not part of the URI. -/
def uri (wide : Bool) (context : Context) (head : List Char) (began : Mark) (c : Cursor) :
    Except SyntaxError (List UInt8 × Cursor) := do
  let (seen, c') ← uriOctets wide context began (c.rest.length + 1) ([], c)
  if head.isEmpty && c'.mark.index == c.mark.index then
    c'.fail .expectedTagUri context began
  else .ok (head.tail.map (fun x => UInt8.ofNat x.toNat) ++ seen.reverse, c')

/-- A handle: an exclamation mark and a name, and a second exclamation mark.  A tag may lack the
second; a directive only if the name is empty. -/
def handle (inDirective : Bool) (began : Mark) (c : Cursor) :
    Except SyntaxError (List Char × Cursor) := do
  c.need 1
  if !c.at? '!' then
    c.fail .expectedBang (if inDirective then .tagDirectiveHandle else .tag) began
  else
    let body := c.skip 1
    let name := body.rest.takeWhile isNameChar
    let c := body.skipWhile isNameChar
    c.need 1
    if c.at? '!' then .ok ('!' :: name ++ ['!'], c.skip 1)
    else if inDirective && !name.isEmpty then
      c.fail .expectedBang .parsedTagDirectiveHandle began
    else .ok ('!' :: name, c)

/-- Handle and suffix of a tag that is not written out. -/
def shorthand (began : Mark) (c : Cursor) :
    Except SyntaxError (List Char × List UInt8 × Cursor) := do
  let (h, c) ← handle false began c
  if h.length > 1 && h.getLast? == some '!' then
    let (suffix, c) ← uri false .parsedTag [] began c
    .ok (h, suffix, c)
  else
    let (suffix, c) ← uri false .parsedTag h began c
    if suffix.isEmpty then .ok ([], [0x21], c) else .ok (['!'], suffix, c)

/-- Handle and suffix of a tag that is written out. -/
def verbatim (began : Mark) (c : Cursor) :
    Except SyntaxError (List Char × List UInt8 × Cursor) := do
  let (suffix, c) ← uri true .parsedTag [] began (c.skip 2)
  if c.at? '>' then .ok ([], suffix, c.skip 1)
  else c.fail .expectedClosingAngle .tag began

/-- The octets before the first zero octet: a zero octet ends a tag. -/
def untilZero (bs : List UInt8) : List UInt8 :=
  bs.takeWhile (· != 0)

/-- The tag at the cursor. -/
def read (inFlow : Bool) (c : Cursor) : Except SyntaxError (Token.Kind × Cursor) := do
  c.need 2
  let began := c.mark
  let (h, suffix, c) ←
    if c.rest.tail.head? == some '<' then verbatim began c else shorthand began c
  c.need 1
  if atSpace c.rest || (inFlow && c.at? ',') then
    .ok (.tag (String.ofList h) (untilZero suffix), c)
  else c.fail .expectedBlankOrBreak .tag began

end Tag

/-- An anchor or alias name may be followed by these besides a space. -/
def endsName (rest : List Char) : Bool :=
  atSpace rest || rest.head?.any fun c => "?:,]\x7d%@`".toList.contains c

/-- The name behind the indicator of an anchor or an alias. -/
def readName (context : Context) (c : Cursor) : Except SyntaxError (String × Cursor) := do
  let body := c.skip 1
  let name := body.rest.takeWhile isNameChar
  let after := body.skipWhile isNameChar
  after.need 1
  if name.isEmpty || !endsName after.rest then
    after.fail .expectedAlphanumeric context c.mark
  else .ok (String.ofList name, after)

namespace Directive

/-- The number that decimal digits write. -/
def number (ds : List Char) : Nat :=
  ds.foldl (fun n d => n * 10 + (d.toNat - 48)) 0

/-- One part of a version: at most nine digits. -/
def versionPart (began : Mark) (c : Cursor) : Except SyntaxError (Nat × Cursor) := do
  let ds := c.rest.takeWhile Char.isDigit
  if 9 < ds.length then (c.skip 9).fail .longVersion .versionDirective began
  else
    let after := c.skip ds.length
    after.need 1
    if ds.isEmpty then after.fail .expectedVersion .versionDirective began
    else .ok (number ds, after)

/-- The value of a version directive. -/
def version (began : Mark) (c : Cursor) : Except SyntaxError (Token.Kind × Cursor) := do
  let c := c.skipWhile isBlank
  c.need 1
  let (major, c) ← versionPart began c
  if c.at? '.' then
    let (minor, c) ← versionPart began (c.skip 1)
    .ok (.versionDirective major minor, c)
  else c.fail .expectedDigitOrDot .versionDirective began

/-- The value of a tag directive. -/
def tag (began : Mark) (c : Cursor) : Except SyntaxError (Token.Kind × Cursor) := do
  let c := c.skipWhile isBlank
  c.need 1
  let (h, c) ← Tag.handle true began c
  c.need 1
  if !c.rest.head?.any isBlank then c.fail .expectedBlank .tagDirective began
  else
    let c := c.skipWhile isBlank
    c.need 1
    let (stem, c) ← Tag.uri true .parsedTagDirective [] began c
    c.need 1
    if atSpace c.rest then
      .ok (.tagDirective (String.ofList h) (Tag.untilZero stem), c)
    else c.fail .expectedBlankOrBreak .tagDirective began

/-- The name of a directive, which a space must end. -/
def name (began : Mark) (c : Cursor) : Except SyntaxError (List Char × Cursor) := do
  let word := c.rest.takeWhile isNameChar
  let after := c.skipWhile isNameChar
  after.need 1
  if word.isEmpty then after.fail .expectedDirectiveName .directive began
  else if atSpace after.rest then .ok (word, after)
  else after.fail .nonAlphabeticDirective .directive began

/-- The value of the directive with this name. -/
def value (word : List Char) (began : Mark) (c : Cursor) :
    Except SyntaxError (Token.Kind × Cursor) :=
  if word = "YAML".toList then version began c
  else if word = "TAG".toList then tag began c
  else c.fail .unknownDirective .directive began

/-- The directive at the cursor, up to and with its line break. -/
def read (c : Cursor) : Except SyntaxError (Token.Kind × Cursor) := do
  let began := c.mark
  let (word, c) ← name began (c.skip 1)
  let (kind, c) ← value word began c
  let c := c.skipComment
  c.need 1
  if atBreak c.rest then .ok (kind, c.skipBreak)
  else c.fail .expectedCommentOrBreak .directive began

end Directive

end ConfigVault.Yaml
