/-!
# Marks

A mark names a place in a text: how many octets stand before it, and its line and column, all counted
from zero.  Errors report lines and columns, which count characters, and block structure is read off
the columns; how long a text is that may be a key is measured in octets.

Five characters break a line, and a carriage return before a line feed counts with it as one break:
such a return moves the index alone (`Mark.past`).
-/

namespace ConfigVault.Yaml

/-- A place in a text. -/
structure Mark where
  /-- The octets in front of it. -/
  index : Nat
  line : Nat
  column : Nat
  deriving DecidableEq, Repr

/-- The characters that end a line: line feed, carriage return, next line, line separator and
paragraph separator. -/
def isBreak (c : Char) : Bool :=
  c == '\n' || c == '\r' || c == '\x85' || c == '\u2028' || c == '\u2029'

/-- A space or a tab. -/
def isBlank (c : Char) : Bool :=
  c == ' ' || c == '\t'

/-- A text that is over, or goes on with a blank or a line break. -/
def atSpace : List Char → Bool
  | [] => true
  | c :: _ => isBlank c || isBreak c

/-- A text that is over or goes on with a line break. -/
def atBreak : List Char → Bool
  | [] => true
  | c :: _ => isBreak c

/-- `c` is the carriage return of a break of two characters, when `rest` follows it. -/
def isReturnOfPair (c : Char) (rest : List Char) : Bool :=
  c == '\r' && rest.head? == some '\n'

/-- What a line break reads as: the separators stand for themselves, the others for a line feed. -/
def breakText (c : Char) : Char :=
  if c == '\u2028' || c == '\u2029' then c else '\n'

namespace Mark

/-- The beginning of a text. -/
def start : Mark := ⟨0, 0, 0⟩

/-- The place `n` characters of one octet each further on in the same line. -/
def right (m : Mark) (n : Nat) : Mark :=
  ⟨m.index + n, m.line, m.column + n⟩

/-- The place after character `c`, when `rest` follows it. -/
def past (m : Mark) (c : Char) (rest : List Char) : Mark :=
  let index := m.index + c.utf8Size
  if isReturnOfPair c rest then ⟨index, m.line, m.column⟩
  else if isBreak c then ⟨index, m.line + 1, 0⟩
  else ⟨index, m.line, m.column + 1⟩

/-- The place after a number of characters of a text. -/
def pastMany (m : Mark) : Nat → List Char → Mark
  | 0, _ => m
  | _ + 1, [] => m
  | n + 1, c :: cs => (m.past c cs).pastMany n cs

/-- The mark is worth reporting: it is not the beginning of the text's first line. -/
def isReported (m : Mark) : Bool :=
  m.line != 0 || m.column != 0

/-- Lines and columns are reported counting from one. -/
def text (m : Mark) : String :=
  "line " ++ toString (m.line + 1) ++ " column " ++ toString (m.column + 1)

/-- The mark as the end of a message, or nothing where it is not worth reporting. -/
def suffix (m : Mark) : String :=
  if m.isReported then " at " ++ m.text else ""

@[simp] theorem right_zero (m : Mark) : m.right 0 = m := rfl

@[simp] theorem right_right (m : Mark) (a b : Nat) : (m.right a).right b = m.right (a + b) := by
  simp [right, Nat.add_assoc]

end Mark

end ConfigVault.Yaml
