import ConfigVault.Yaml.Mark

/-!
# Tokens

A text is cut into tokens before its structure is read.  Block structure, which the text shows by
indentation, is made explicit: a block collection has a token where it starts and one where it
ends, and the key of a mapping entry is announced even where the text has no indicator for it.
-/

namespace ConfigVault.Yaml

/-- How a scalar was written. -/
inductive ScalarStyle where
  | plain
  | singleQuoted
  | doubleQuoted
  | literal
  | folded
  deriving DecidableEq, Repr

namespace Token

/-- What a token is. -/
inductive Kind where
  | streamStart
  | streamEnd
  | versionDirective (major minor : Nat)
  | tagDirective (handle : String) (stem : List UInt8)
  | documentStart
  | documentEnd
  | blockSequenceStart
  | blockMappingStart
  | blockEnd
  | flowSequenceStart
  | flowSequenceEnd
  | flowMappingStart
  | flowMappingEnd
  | blockEntry
  | flowEntry
  | key
  | value
  | alias (name : String)
  | anchor (name : String)
  | tag (handle : String) (suffix : List UInt8)
  | scalar (text : String) (style : ScalarStyle)
  deriving DecidableEq, Repr

end Token

/-- A token and where it begins. -/
structure Token where
  kind : Token.Kind
  mark : Mark
  deriving DecidableEq, Repr

namespace Token

/-- Where an empty node stands that this one-character token should have introduced. -/
def after (t : Token) : Mark := t.mark.right 1

end Token

/-- The tokens of a text, as far as they can be told, and what ended them early. -/
structure TokenStream (ε : Type) where
  tokens : List Token
  fault : Option ε
  deriving Repr

end ConfigVault.Yaml
