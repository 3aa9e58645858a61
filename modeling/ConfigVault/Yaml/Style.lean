import ConfigVault.Yaml.Mark
import ConfigVault.Yaml.Resolve
import ConfigVault.Yaml.Token

/-!
# How strings are written

A string is written in the plainest style that reads back as the same string (`styleOf`).  Text
that would mean something else without quotes gets them (`needsQuotes`), and text of several lines
is written as a literal block.  What a style can hold is a matter of the characters alone
(`fitsPlain`, `fitsSingle`, `fitsLiteral`); double quotes hold everything.
-/

namespace ConfigVault.Yaml

namespace Style

/-- The characters that are written as they are. -/
def isPrintable (c : Char) : Bool :=
  let n := c.toNat
  n == 0x0A || (0x20 ≤ n && n ≤ 0x7E) || (0xA0 ≤ n && n ≤ 0xD7FF) ||
    (0xE000 ≤ n && n ≤ 0xFFFD && n != 0xFEFF) || 0x10000 ≤ n

/-- Some character satisfies `p` and the one after it `q`. -/
def hasAdjacent (p q : Char → Bool) : List Char → Bool
  | c :: d :: cs => (p c && q d) || hasAdjacent p q (d :: cs)
  | _ => false

/-- A space, and not a tab. -/
def isSpace (c : Char) : Bool := c == ' '

/-- A blank, a line break or NUL, which separate words. -/
def separates (c : Char) : Bool := isBlank c || isBreak c || c == '\x00'

/-- The next character separates words, or there is none. -/
def beforeSpace (cs : List Char) : Bool := cs.head?.all separates

/-- The characters that begin no plain text. -/
def isOpening (c : Char) : Bool :=
  "#,[]\x7b\x7d&*!|>'\"%@`".toList.contains c

/-- A colon in front of a space, or a number sign behind one. -/
def hasInnerIndicator : List Char → Bool
  | c :: d :: cs => (d == ':' && beforeSpace cs) || (d == '#' && separates c) ||
      hasInnerIndicator (d :: cs)
  | _ => false

/-- The text would be taken for structure: it begins with an indicator or holds one. -/
def hasIndicator (cs : List Char) : Bool :=
  ['-', '-', '-'].isPrefixOf cs || ['.', '.', '.'].isPrefixOf cs || hasInnerIndicator cs ||
    match cs with
    | [] => false
    | c :: rest => isOpening c || ((c == '?' || c == ':' || c == '-') && beforeSpace rest)

/-- All characters can be written as they are. -/
def isPlainText (cs : List Char) : Bool := cs.all isPrintable

/-- Plain style holds the text: one line that neither begins nor ends with a space and has no
indicator. -/
def fitsPlain (cs : List Char) : Bool :=
  isPlainText cs && !cs.any isBreak && !cs.head?.any isSpace && !cs.getLast?.any isSpace &&
    !hasIndicator cs

/-- Single quotes hold the text: no space stands next to a line break. -/
def fitsSingle (cs : List Char) : Bool :=
  isPlainText cs && !hasAdjacent isBreak isSpace cs && !hasAdjacent isSpace isBreak cs

/-- A literal block holds the text: no line ends with a space. -/
def fitsLiteral (cs : List Char) : Bool :=
  isPlainText cs && !cs.isEmpty && !cs.getLast?.any isSpace && !hasAdjacent isSpace isBreak cs

/-- Without quotes, text would not mean itself, or looks too much like a number. -/
def needsQuotes (s : String) : Bool :=
  resolve s != .string || isDigitString s

end Style

open Style

/-- The style that a string is written in. -/
def styleOf (s : String) : ScalarStyle :=
  let cs := s.toList
  if cs.contains '\n' then
    if fitsLiteral cs then .literal else .doubleQuoted
  else if !needsQuotes s && fitsPlain cs then .plain
  else if fitsSingle cs then .singleQuoted
  else .doubleQuoted

end ConfigVault.Yaml
