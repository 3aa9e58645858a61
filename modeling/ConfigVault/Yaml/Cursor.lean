import ConfigVault.Yaml.SyntaxError

/-!
# Cursors

A cursor stands at a mark in a text: it holds the characters not read yet, and the fault, if any,
that lies behind the last of them.  Before a decision that looks `n` characters ahead, `need n`
asks that they can be had: too few of them is no error where the text simply ends, but it is one
where a fault hides the rest.
-/

namespace ConfigVault.Yaml

/-- A place in a text, with what is still to be read. -/
structure Cursor where
  mark : Mark
  rest : List Char
  fault : Option ReaderFault
  deriving DecidableEq, Repr

/-- Refuses to look `n` characters ahead into a fault. -/
def lookAhead (fault : Option ReaderFault) (n : Nat) (rest : List Char) : Except SyntaxError Unit :=
  match fault with
  | none => .ok ()
  | some f => if (rest.take n).length < n then .error (.unreadable f) else .ok ()

@[simp] theorem lookAhead_none (n : Nat) (rest : List Char) : lookAhead none n rest = .ok () := rfl

namespace Cursor

/-- The beginning of a document's text. -/
def ofSource (s : Source) : Cursor :=
  ⟨Mark.start, s.chars, s.fault⟩

/-- Refuses to look `n` characters ahead into a fault. -/
def need (c : Cursor) (n : Nat) : Except SyntaxError Unit :=
  lookAhead c.fault n c.rest

/-- The cursor `n` characters on. -/
def skip (c : Cursor) (n : Nat) : Cursor :=
  { c with mark := c.mark.pastMany n c.rest, rest := c.rest.drop n }

/-- The cursor after the longest run of characters that satisfy `p`. -/
def skipWhile (p : Char → Bool) (c : Cursor) : Cursor :=
  c.skip (c.rest.takeWhile p).length

/-- The next character is `x`. -/
def at? (c : Cursor) (x : Char) : Bool :=
  c.rest.head? == some x

/-- The cursor after a line break, if one comes next. -/
def skipBreak (c : Cursor) : Cursor :=
  match c.rest with
  | '\r' :: '\n' :: _ => c.skip 2
  | x :: _ => if isBreak x then c.skip 1 else c
  | [] => c

/-- The cursor at the end of the line, after blanks and a comment. -/
def skipComment (c : Cursor) : Cursor :=
  let c := c.skipWhile isBlank
  if c.at? '#' then c.skipWhile (fun x => !isBreak x) else c

/-- An error at the cursor, found while reading a construct. -/
def fail {α : Type} (c : Cursor) (problem : Problem) (context : Context) (began : Mark) :
    Except SyntaxError α :=
  .error (.malformed problem c.mark (some (context, began)))

/-- The text goes on with three dashes or three dots and then a space or its end, at the start of
a line. -/
def atDocumentIndicator (column : Nat) (rest : List Char) : Bool :=
  column == 0 &&
    match rest with
    | '-' :: '-' :: '-' :: r => atSpace r
    | '.' :: '.' :: '.' :: r => atSpace r
    | _ => false

end Cursor

end ConfigVault.Yaml
