import ConfigVault.Number.Shortest
import ConfigVault.Text.Escape

/-!
# Mismatches

How a value can fail to be what a record wants, and the wording of each failure.
-/

namespace ConfigVault.Codec

/-- What a value turned out to be. -/
inductive Found where
  | unit
  | bool (b : Bool)
  | integer (i : Int)
  /-- An integer that needs more than 64 bits. -/
  | wideInteger (i : Int)
  | float (x : ExtendedFloat)
  | string (s : String)
  | sequence
  | map
  /-- A value that a tag makes a choice. -/
  | tagged
  deriving DecidableEq, Repr

namespace Found

/-- The text of a floating point number. -/
def floatText : ExtendedFloat → String
  | .finite x => String.ofList x.plainText
  | .infinite true => "-inf"
  | .infinite false => "inf"
  | .nan => "NaN"

/-- A value as messages name it. -/
def text : Found → String
  | .unit => "unit value"
  | .bool b => "boolean `" ++ (if b then "true" else "false") ++ "`"
  | .integer i => "integer `" ++ toString i ++ "`"
  | .wideInteger i => "integer `" ++ toString i ++ "` as " ++ (if i < 0 then "i128" else "u128")
  | .float x => "floating point `" ++ floatText x ++ "`"
  | .string s => "string " ++ Text.quote s
  | .sequence => "sequence"
  | .map => "map"
  | .tagged => "enum"

end Found

/-- Why a value is not what was wanted. -/
inductive Mismatch where
  | invalidType (found : Found) (expected : String)
  | invalidValue (found : Found) (expected : String)
  | missingField (name : String)
  | duplicateField (name : String)
  | unknownChoice (name : String) (known : List String)
  /-- The text or number itself is at fault, in the words of its own rules. -/
  | badContent (reason : String)
  deriving DecidableEq, Repr

namespace Mismatch

/-- A list of names, as messages enumerate them. -/
def namesText : List String → String
  | [] => "there are no variants"
  | [a] => "expected `" ++ a ++ "`"
  | [a, b] => "expected `" ++ a ++ "` or `" ++ b ++ "`"
  | names => "expected one of " ++ String.intercalate ", " (names.map fun n => "`" ++ n ++ "`")

/-- The message of a mismatch. -/
def message : Mismatch → String
  | .invalidType found expected => "invalid type: " ++ found.text ++ ", expected " ++ expected
  | .invalidValue found expected => "invalid value: " ++ found.text ++ ", expected " ++ expected
  | .missingField name => "missing field `" ++ name ++ "`"
  | .duplicateField name => "duplicate field `" ++ name ++ "`"
  | .unknownChoice name known => "unknown variant `" ++ name ++ "`, " ++ namesText known
  | .badContent reason => reason

end Mismatch

end ConfigVault.Codec
