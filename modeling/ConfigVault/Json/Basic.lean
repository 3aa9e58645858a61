import ConfigVault.Number.Binary64

/-!
# JSON values

The tree that every record of this library is written as, whatever the format of the text.  Objects
keep the order of their members, since texts show it.
-/

namespace ConfigVault

/-- A JSON value.  Numbers are integers or finite floating point numbers. -/
inductive Json where
  | null
  | bool (b : Bool)
  | int (i : Int)
  | float (x : Binary64)
  | string (s : String)
  | array (items : List Json)
  | object (members : List (String × Json))
  deriving Repr

namespace Json

instance : Inhabited Json := ⟨.null⟩

/-- A string, or null if there is none. -/
def ofOption (s : Option String) : Json :=
  s.elim .null .string

mutual

/-- Equality of values, with the members of objects in order. -/
def beq : Json → Json → Bool
  | .null, .null => true
  | .bool a, .bool b => a == b
  | .int a, .int b => a == b
  | .float a, .float b => a == b
  | .string a, .string b => a == b
  | .array a, .array b => beqItems a b
  | .object a, .object b => beqMembers a b
  | _, _ => false

/-- Equality of items, in order. -/
def beqItems : List Json → List Json → Bool
  | [], [] => true
  | a :: as, b :: bs => beq a b && beqItems as bs
  | _, _ => false

/-- Equality of members, in order. -/
def beqMembers : List (String × Json) → List (String × Json) → Bool
  | [], [] => true
  | (k, a) :: as, (l, b) :: bs => k == l && beq a b && beqMembers as bs
  | _, _ => false

end

instance : BEq Json := ⟨beq⟩

end Json

end ConfigVault
