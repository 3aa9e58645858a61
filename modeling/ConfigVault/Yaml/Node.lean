import ConfigVault.Yaml.SyntaxError
import ConfigVault.Yaml.Token

/-!
# Nodes

A document is a tree of nodes.  Nodes keep the marks that errors report.  An alias is not followed
here: it holds the number of the anchor it refers to, and `Node.anchored` lists which node bears
which number.

A document that goes wrong is a tree all the same.  Where its text stops making sense the tree has
a `cut`, and nothing comes after a cut: the nodes around it are cut short there too
(`Node.isComplete`).
-/

namespace ConfigVault.Yaml

/-- What can precede the content of a node. -/
structure Properties where
  /-- The number of the node's anchor. -/
  anchor : Option Nat
  /-- The octets of the node's tag. -/
  tag : Option (List UInt8)
  deriving DecidableEq, Repr

/-- A node without anchor and tag. -/
def Properties.none : Properties := ⟨.none, .none⟩

/-- A document, or a part of one. -/
inductive Node where
  | scalar (mark : Mark) (props : Properties) (style : ScalarStyle) (text : String)
  | sequence (mark : Mark) (props : Properties) (items : List Node)
  | mapping (mark : Mark) (props : Properties) (entries : List (Node × Node))
  | alias (mark : Mark) (anchor : Nat)
  | cut
  deriving Repr

namespace Node

/-- A node with no content. -/
def empty (mark : Mark) : Node :=
  .scalar mark .none .plain ""

mutual

/-- No part of the node is missing. -/
def isComplete : Node → Bool
  | .scalar .. => true
  | .sequence _ _ items => areComplete items
  | .mapping _ _ entries => entriesComplete entries
  | .alias .. => true
  | .cut => false

/-- No part of any of the nodes is missing. -/
def areComplete : List Node → Bool
  | [] => true
  | n :: ns => n.isComplete && areComplete ns

/-- No part of any of the keys and values is missing. -/
def entriesComplete : List (Node × Node) → Bool
  | [] => true
  | (k, v) :: es => k.isComplete && v.isComplete && entriesComplete es

end

mutual

/-- The size of a node: one for a scalar or an alias, and for a collection one for its beginning,
one for its end if it is reached, and the size of its parts. -/
def size : Node → Nat
  | .scalar .. => 1
  | .sequence _ _ items => 1 + sizes items + (if areComplete items then 1 else 0)
  | .mapping _ _ entries => 1 + entrySizes entries + (if entriesComplete entries then 1 else 0)
  | .alias .. => 1
  | .cut => 0

/-- The sizes of nodes added up. -/
def sizes : List Node → Nat
  | [] => 0
  | n :: ns => n.size + sizes ns

/-- The sizes of keys and values added up. -/
def entrySizes : List (Node × Node) → Nat
  | [] => 0
  | (k, v) :: es => k.size + v.size + entrySizes es

end

mutual

/-- The nodes with an anchor, each with its number, in the order of the text. -/
def anchored : Node → List (Nat × Node)
  | .scalar m p s t => (p.anchor.map (·, .scalar m p s t)).toList
  | .sequence m p items => (p.anchor.map (·, .sequence m p items)).toList ++ anchoredIn items
  | .mapping m p entries =>
    (p.anchor.map (·, .mapping m p entries)).toList ++ anchoredInEntries entries
  | .alias .. => []
  | .cut => []

/-- The nodes with an anchor among these and their parts. -/
def anchoredIn : List Node → List (Nat × Node)
  | [] => []
  | n :: ns => n.anchored ++ anchoredIn ns

/-- The nodes with an anchor among these keys and values and their parts. -/
def anchoredInEntries : List (Node × Node) → List (Nat × Node)
  | [] => []
  | (k, v) :: es => k.anchored ++ (v.anchored ++ anchoredInEntries es)

end

end Node

end ConfigVault.Yaml
