import ConfigVault.Codec.Mismatch
import ConfigVault.Yaml.Document
import ConfigVault.Yaml.Resolve

/-!
# Reading nodes

A document is read from its root down.  A `Place` says where the reader stands: the path from the
root, how many collections it may still enter, and the document around it (`Scope`).  Aliases are
followed as they are met, and only so many times, so that a small document cannot unfold into an
endless one.

A mismatch is reported with the path and the mark of the innermost node around it that can tell
them (`Place.locate`).  Reading a cut reports what cut the document short.
-/

namespace ConfigVault.Codec

open ConfigVault.Yaml

/-- One step of the path from the root to a value. -/
inductive PathStep where
  | index (i : Nat)
  | key (name : String)
  /-- The value of a key that is no scalar. -/
  | unknown
  deriving DecidableEq, Repr

/-- The steps to a value, last first. -/
abbrev Path := List PathStep

namespace Path

mutual

/-- The text of a path; the root is a point. -/
def text : Path → String
  | [] => "."
  | .index i :: p => text p ++ "[" ++ toString i ++ "]"
  | .key name :: p => lead p ++ name
  | .unknown :: p => lead p ++ "?"

/-- The text of a path in front of a key. -/
def lead : Path → String
  | [] => ""
  | .index i :: p => text p ++ "[" ++ toString i ++ "]."
  | .key name :: p => lead p ++ name ++ "."
  | .unknown :: p => lead p ++ "?."

end

end Path

/-- Where a mismatch was found. -/
structure Location where
  path : Path
  mark : Mark
  deriving DecidableEq, Repr

/-- Why a document cannot be read. -/
inductive ReadError where
  | mismatch (cause : Mismatch) (location : Option Location)
  | recursionLimit (mark : Mark)
  | repetitionLimit
  | document (fault : DocumentFault)
  | severalDocuments
  deriving DecidableEq, Repr

namespace ReadError

/-- The message of a fault of the document itself. -/
def faultMessage : DocumentFault → String
  | .malformed e => e.message
  | .unknownAnchor mark => "unknown anchor" ++ mark.suffix
  | .endOfStream => "EOF while parsing a value"

/-- The message of an error. -/
def message : ReadError → String
  | .mismatch cause none => cause.message
  | .mismatch cause (some l) =>
    (if l.path.isEmpty then "" else l.path.text ++ ": ") ++ cause.message ++ l.mark.suffix
  | .recursionLimit mark => "recursion limit exceeded" ++ mark.suffix
  | .repetitionLimit => "repetition limit exceeded"
  | .document fault => faultMessage fault
  | .severalDocuments =>
    "deserializing from YAML containing more than one document is not supported"

end ReadError

/-- Reading counts the aliases it follows, and may fail. -/
abbrev Reading := StateT Nat (Except ReadError)

/-- The document around a node. -/
structure Scope where
  /-- The nodes with an anchor, in the order of the text. -/
  anchored : List (Nat × Node)
  /-- How many aliases may be followed. -/
  limit : Nat
  /-- What a cut reports. -/
  ending : ReadError

namespace Scope

/-- The scope of a document's nodes. -/
def ofDocument (d : Document) : Scope where
  anchored := d.root.anchored
  limit := 100 * d.root.size
  ending := .document (d.fault.getD .endOfStream)

/-- The node that bears an anchor's number: the last one, if several do. -/
def find? (s : Scope) (anchor : Nat) : Option Node :=
  s.anchored.reverse.lookup anchor

end Scope

/-- Where the reader stands. -/
structure Place where
  scope : Scope
  path : Path
  /-- How many collections may still be entered. -/
  depth : Nat

/-- Fails for a reason whose location is not known yet. -/
def mismatch {α : Type} (cause : Mismatch) : Reading α :=
  throw (.mismatch cause none)

/-- Adds a location to an error that has none. -/
def ReadError.locate (l : Location) : ReadError → ReadError
  | .mismatch cause none => .mismatch cause (some l)
  | e => e

namespace Place

/-- How many collections can be nested. -/
def maxDepth : Nat := 128

/-- The root of a document. -/
def root (d : Document) : Place :=
  ⟨Scope.ofDocument d, [], maxDepth⟩

/-- The place of a part. -/
def step (p : Place) (s : PathStep) : Place :=
  { p with path := s :: p.path }

/-- The place of the value behind a key. -/
def value (p : Place) (key : Node) : Place :=
  match key with
  | .scalar _ _ _ text => p.step (.key text)
  | _ => p.step .unknown

/-- Reports mismatches without a location at this place. -/
def locate {α : Type} (p : Place) (mark : Mark) (r : Reading α) : Reading α :=
  fun n => (r n).mapError (ReadError.locate ⟨p.path, mark⟩)

/-- The node that an alias refers to. -/
def follow (p : Place) (anchor : Nat) : Reading Node := do
  let n ← get
  if p.scope.limit < n + 1 then throw .repetitionLimit
  else
    set (n + 1)
    match p.scope.find? anchor with
    | some node => pure node
    | none => throw p.scope.ending

/-- The place inside a collection at this mark. -/
def enter (p : Place) (mark : Mark) : Reading Place :=
  match p.depth with
  | 0 => throw (.recursionLimit mark)
  | depth + 1 => pure { p with depth }

/-- Reads the items of a sequence, counting from `i`. -/
def items {α : Type} (p : Place) (read : Place → Node → Reading α) :
    (i : Nat) → List Node → Reading (List α)
  | _, [] => pure []
  | i, node :: nodes => do
    let x ← read (p.step (.index i)) node
    let xs ← items p read (i + 1) nodes
    pure (x :: xs)

/-- Reads the entries of a mapping one after the other. -/
def entries {σ : Type} (step : σ → Node → Node → Reading σ) :
    σ → List (Node × Node) → Reading σ
  | s, [] => pure s
  | s, (k, v) :: es => do
    let s ← step s k v
    entries step s es

/-- Fails at a cut. -/
def cut {α : Type} (p : Place) : Reading α :=
  throw p.scope.ending

/-- Passes over a node without looking at it. -/
def ignore (p : Place) (node : Node) : Reading Unit :=
  if node.isComplete then pure () else p.cut

end Place

end ConfigVault.Codec

namespace ConfigVault.Yaml.Node

/-- Where a node begins. -/
def mark : Node → Mark
  | .scalar m .. => m
  | .sequence m .. => m
  | .mapping m .. => m
  | .alias m _ => m
  | .cut => Mark.start

end ConfigVault.Yaml.Node

namespace ConfigVault.Codec

open ConfigVault.Yaml

/-- Reads what is behind an alias, or the node itself.  Mismatches are located at the node, and
failing that at the alias. -/
def Place.visit {α : Type} (p : Place) (node : Node) (read : Node → Reading α) : Reading α :=
  match node with
  | .alias m anchor => p.locate m do
    let target ← p.follow anchor
    p.locate target.mark (read target)
  | .cut => p.cut
  | node => p.locate node.mark (read node)

/-- Reads a document.  It must be the only one, and its text must make sense to the end. -/
def readDocument {α : Type} (read : Place → Node → Reading α) (bytes : List UInt8) :
    Except ReadError α :=
  match Document.allOf bytes with
  | [] => .error (.document .endOfStream)
  | d :: ds => do
    let (x, _) ← (read (Place.root d) d.root).run 0
    match d.fault, ds with
    | some fault, _ => .error (.document fault)
    | none, [] => .ok x
    | none, _ :: _ => .error .severalDocuments

end ConfigVault.Codec
