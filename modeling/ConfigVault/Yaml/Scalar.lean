import ConfigVault.Codec.Reading

/-!
# Scalars and tags

What a scalar node means, which depends on its text, on how it was written and on its tag.  Of the
standard tags four force a meaning; a tag of one's own, which an exclamation mark opens, makes a
value a choice (`ownTag?`).
-/

namespace ConfigVault.Yaml

open ConfigVault.Codec

/-- The standard tag with this name. -/
def standardTag (name : String) : List UInt8 :=
  Text.Utf8.encodeString ("tag:yaml.org,2002:" ++ name)

/-- The name behind the exclamation mark of a tag of one's own, if it is text.  A mark on its own
is its name. -/
def ownTag? : Option (List UInt8) → Option String
  | some (b :: bs) =>
    if b = 0x21 then Text.Utf8.decodeString? (if bs.isEmpty then [b] else bs) else none
  | _ => none

/-- The tag opens with an exclamation mark. -/
def isOwnTag (tag : List UInt8) : Bool :=
  tag.head? == some 0x21

/-- What plain text was found to be. -/
def Meaning.found (text : String) : Meaning → Found
  | .null => .unit
  | .bool b => .bool b
  | .int i => if isNarrow i then .integer i else .wideInteger i
  | .float x => .float x
  | .string => .string text

/-- What a scalar means.  Tags count only where they were not taken into account before. -/
def scalarMeaning (tagged : Bool) (tag : Option (List UInt8)) (style : ScalarStyle)
    (text : String) : Except Mismatch Meaning :=
  match if tagged then none else tag with
  | none => .ok (if style = .plain then resolve text else .string)
  | some t =>
    let refuse {α : Type} (expected : String) : Except Mismatch α :=
      .error (.invalidValue (.string text) expected)
    if t = standardTag "bool" then
      match bool? text with
      | some b => .ok (.bool b)
      | none => refuse "a boolean"
    else if t = standardTag "int" then
      match int? text with
      | some i => .ok (.int i)
      | none => refuse "an integer"
    else if t = standardTag "float" then
      match float? text with
      | some x => .ok (.float x)
      | none => refuse "a float"
    else if t = standardTag "null" then
      if isNullText text then .ok .null else refuse "null"
    else .ok (if style = .plain ∧ isOwnTag t then resolve text else .string)

/-- The mismatch of a node that is not what was expected. -/
def unexpected (expected : String) : Node → Mismatch
  | .scalar _ props style text =>
    match scalarMeaning false props.tag style text with
    | .error m => m
    | .ok meaning => .invalidType (meaning.found text) expected
  | .sequence .. => .invalidType .sequence expected
  | .mapping .. => .invalidType .map expected
  | _ => .invalidType .unit expected

/-- A scalar that can stand for a collection without parts. -/
def isEmptyPlain (style : ScalarStyle) (text : String) : Bool :=
  style == .plain && text.isEmpty

end ConfigVault.Yaml
