import ConfigVault.Yaml.Cursor
import ConfigVault.Yaml.Token

/-!
# Block scalars

Literal and folded text, introduced by a header (`header`) that may fix its indentation and says
what becomes of the line breaks at its end (`Chomping`).  Where the header leaves the indentation
open, the first line with text decides (`detect`).  `scan` then reads the lines: each character
either belongs to a margin, which is indentation and empty lines, or to a line of text.
-/

namespace ConfigVault.Yaml.BlockScalar

/-- What becomes of the line breaks that end a block scalar: all go, the first stays, all stay. -/
inductive Chomping where
  | strip
  | clip
  | keep
  deriving DecidableEq, Repr

/-- A digit's value. -/
def digit? (c : Char) : Option Nat :=
  if '0' ≤ c ∧ c ≤ '9' then some (c.toNat - 48) else none

/-- The chomping that an indicator asks for. -/
def chomping? : Char → Option Chomping
  | '+' => some .keep
  | '-' => some .strip
  | _ => none

/-- An indentation digit, if one comes next; zero is refused. -/
def increment (began : Mark) (c : Cursor) : Except SyntaxError (Nat × Cursor) :=
  match c.rest.head?.bind digit? with
  | some 0 => c.fail .zeroIndentation .blockScalar began
  | some n => .ok (n, c.skip 1)
  | none => .ok (0, c)

/-- A chomping indicator, if one comes next. -/
def chomping (c : Cursor) : Option (Chomping × Cursor) :=
  (c.rest.head?.bind chomping?).map fun k => (k, c.skip 1)

/-- The two indicators of a header, in either order; no indentation counts as zero. -/
def indicators (began : Mark) (c : Cursor) : Except SyntaxError (Chomping × Nat × Cursor) := do
  match chomping c with
  | some (k, c) =>
    c.need 1
    let (n, c) ← increment began c
    .ok (k, n, c)
  | none =>
    let (n, c) ← increment began c
    if n = 0 then .ok (.clip, 0, c)
    else
      c.need 1
      match chomping c with
      | some (k, c) => .ok (k, n, c)
      | none => .ok (.clip, n, c)

/-- The header of a block scalar, up to and with its line break. -/
def header (began : Mark) (c : Cursor) : Except SyntaxError (Chomping × Nat × Cursor) := do
  c.need 1
  let (k, n, c) ← indicators began c
  let c := c.skipComment
  c.need 1
  if atBreak c.rest then .ok (k, n, c.skipBreak)
  else c.fail .expectedCommentOrBreak .blockScalar began

/-- Passes empty lines and the indentation of the first line with text: the widest indentation
seen, the breaks passed, latest first, and what follows. -/
def detect (began : Mark) : List Char → Mark → (widest : Nat) → (breaks : List Char) →
    Except SyntaxError (Nat × List Char × Mark × List Char)
  | [], m, widest, breaks => .ok (max widest m.column, breaks, m, [])
  | c :: cs, m, widest, breaks =>
    let m' := m.past c cs
    if c = ' ' then detect began cs m' widest breaks
    else if c = '\t' then .error (.malformed .tabInIndentation m (some (.blockScalar, began)))
    else if isReturnOfPair c cs then detect began cs m' widest breaks
    else if isBreak c then detect began cs m' (max widest m.column) (breakText c :: breaks)
    else .ok (max widest m.column, breaks, m, c :: cs)

/-- Where in a block scalar a character stands. -/
inductive Place where
  /-- In front of a line, after these line breaks of empty lines, latest first. -/
  | margin (breaks : List Char)
  /-- In a line. -/
  | line
  deriving DecidableEq, Repr

/-- The text so far, and how its last line began and ended. -/
structure Lines where
  /-- The characters so far, latest first. -/
  seen : List Char
  /-- The last line began with a blank. -/
  indented : Bool
  /-- The line break after the last line. -/
  lastBreak : Option Char
  deriving DecidableEq, Repr

namespace Lines

/-- No line yet. -/
def empty : Lines := ⟨[], false, none⟩

/-- The text when a new line begins with `c`, after the breaks of empty lines.  In folded text the
break between two lines that begin with text becomes a space, or goes if there are empty lines. -/
def newLine (literal : Bool) (breaks : List Char) (c : Char) (l : Lines) : Lines :=
  let joined :=
    if !literal && l.lastBreak == some '\n' && !l.indented && !isBlank c then
      if breaks.isEmpty then [' '] else []
    else l.lastBreak.toList
  ⟨c :: (breaks ++ (joined ++ l.seen)), isBlank c, none⟩

/-- The text with the line breaks at its end that the chomping keeps. -/
def text (k : Chomping) (breaks : List Char) (l : Lines) : List Char :=
  match k with
  | .strip => l.seen.reverse
  | .clip => (l.lastBreak.toList ++ l.seen).reverse
  | .keep => (breaks ++ (l.lastBreak.toList ++ l.seen)).reverse

end Lines

/-- The breaks of empty lines in front of a place. -/
def Place.breaks : Place → List Char
  | .margin breaks => breaks
  | .line => []

/-- Reads the lines of a block scalar that are indented by `indent` columns. -/
def scan (literal : Bool) (k : Chomping) (indent : Nat) (began : Mark)
    (fault : Option ReaderFault) :
    List Char → Mark → Place → Lines → Except SyntaxError (String × Cursor)
  | [], m, place, l => do
    lookAhead fault 1 []
    .ok (String.ofList (l.text k place.breaks), ⟨m, [], fault⟩)
  | c :: cs, m, place, l =>
    let m' := m.past c cs
    if isReturnOfPair c cs then scan literal k indent began fault cs m' place l
    else
      match place with
      | .line =>
        if isBreak c then
          scan literal k indent began fault cs m' (.margin [])
            { l with lastBreak := some (breakText c) }
        else scan literal k indent began fault cs m' .line { l with seen := c :: l.seen }
      | .margin breaks =>
        if m.column < indent && c == ' ' then
          scan literal k indent began fault cs m' (.margin breaks) l
        else if m.column < indent && c == '\t' then
          .error (.malformed .tabInIndentation m (some (.blockScalar, began)))
        else if isBreak c then
          scan literal k indent began fault cs m' (.margin (breakText c :: breaks)) l
        else if m.column = indent then
          scan literal k indent began fault cs m' .line (l.newLine literal breaks c)
        else .ok (String.ofList (l.text k breaks), ⟨m, c :: cs, fault⟩)

/-- The block scalar whose indicator is next, inside a block that is indented by `parent`. -/
def read (literal : Bool) (parent : Int) (c : Cursor) : Except SyntaxError (String × Cursor) := do
  let began := c.mark
  let (k, n, c) ← header began (c.skip 1)
  if n = 0 then
    let (widest, breaks, m, rest) ← detect began c.rest c.mark 0 []
    if rest.isEmpty then lookAhead c.fault 1 []
    let indent := max (max (widest : Int) (parent + 1)) 1
    scan literal k indent.toNat began c.fault rest m (.margin breaks) .empty
  else
    let indent := if 0 ≤ parent then parent.toNat + n else n
    scan literal k indent began c.fault c.rest c.mark (.margin []) .empty

end ConfigVault.Yaml.BlockScalar
