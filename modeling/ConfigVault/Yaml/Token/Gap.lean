import ConfigVault.Yaml.Mark

/-!
# Gaps in flowing text

Plain and quoted scalars may span lines.  What stands between two pieces of their text, a `Gap`, is
folded (`Gap.text`): blanks within a line stay, a single line break becomes a space, of several
line breaks the first is dropped, and the blanks around line breaks are dropped too.
-/

namespace ConfigVault.Yaml

/-- What was passed since the last character of text. -/
inductive Gap where
  /-- Blanks within a line, latest first. -/
  | blanks (seen : List Char)
  /-- Line breaks: the first, unless it was escaped, and the others, latest first. -/
  | lines (first : Option Char) (more : List Char)
  deriving DecidableEq, Repr

namespace Gap

/-- The gap after one more blank. -/
def addBlank (c : Char) : Gap → Gap
  | .blanks seen => .blanks (c :: seen)
  | .lines first more => .lines first more

/-- The gap after one more line break. -/
def addBreak (c : Char) : Gap → Gap
  | .blanks _ => .lines (some (breakText c)) []
  | .lines first more => .lines first (breakText c :: more)

/-- What a gap reads as. -/
def text : Gap → List Char
  | .blanks seen => seen.reverse
  | .lines none more => more.reverse
  | .lines (some '\n') [] => [' ']
  | .lines (some '\n') more => more.reverse
  | .lines (some c) more => c :: more.reverse

/-- The characters read so far, latest first, when a gap separates them from the next one. -/
def before (gap : Option Gap) (seen : List Char) : List Char :=
  match gap with
  | none => seen
  | some g => g.text.reverse ++ seen

/-- The gap holds a line break. -/
def isLines : Gap → Bool
  | .blanks _ => false
  | .lines _ _ => true

end Gap

end ConfigVault.Yaml
