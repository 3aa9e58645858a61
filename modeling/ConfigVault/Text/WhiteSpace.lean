/-!
# White space

The characters with the Unicode property of that name.
-/

namespace ConfigVault.Text

/-- The character separates words or lines. -/
def isWhiteSpace (c : Char) : Bool :=
  ('\t' ≤ c && c ≤ '\r') || c == ' ' || c == '\u0085' || c == '\u00A0' || c == '\u1680' ||
    ('\u2000' ≤ c && c ≤ '\u200A') || c == '\u2028' || c == '\u2029' || c == '\u202F' ||
    c == '\u205F' || c == '\u3000'

/-- The text without white space in front. -/
def trimStart (cs : List Char) : List Char := cs.dropWhile isWhiteSpace

end ConfigVault.Text
