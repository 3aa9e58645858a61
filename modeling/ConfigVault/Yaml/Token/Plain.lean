import ConfigVault.Yaml.Cursor
import ConfigVault.Yaml.Token.Gap

/-!
# Plain scalars

Text without quotes.  It goes on until something that no plain text may hold: a colon before a
space, inside flow collections also a bracket, brace or comma, a comment, a document indicator, or
a line that is indented too little.  Lines are folded as in quotes.
-/

namespace ConfigVault.Yaml.Plain

/-- The brackets, braces and commas that end plain text inside flow collections. -/
def isFlowIndicator (c : Char) : Bool :=
  c == ',' || c == '[' || c == ']' || c == '\x7b' || c == '\x7d'

/-- Inside a flow collection, a colon right before an indicator is refused. -/
def isStrayColon (flow : Bool) (c : Char) (rest : List Char) : Bool :=
  flow && c == ':' && rest.head?.any (fun d => isFlowIndicator d || d == '?')

/-- Character `c`, with `rest` behind it, ends plain text. -/
def isEnd (flow : Bool) (c : Char) (rest : List Char) : Bool :=
  (c == ':' && atSpace rest) || (flow && isFlowIndicator c)

/-- The result of a scan that stops: the text, the place, and whether a line break was passed last,
after which a key may begin. -/
def stop (fault : Option ReaderFault) (m : Mark) (rest : List Char) (gap : Option Gap)
    (seen : List Char) : String × Cursor × Bool :=
  (String.ofList seen.reverse, ⟨m, rest, fault⟩, gap.any Gap.isLines)

/-- Text after a gap may not go on here: a document indicator or a comment follows. -/
def stopsAfterGap (m : Mark) (c : Char) (rest : List Char) : Bool :=
  Cursor.atDocumentIndicator m.column (c :: rest) || c == '#'

/-- Reads the rest of a scalar that began at `began`.  Its lines are indented by at least
`indent`, and `seen` holds the characters of its text so far, latest first. -/
def scan (flow : Bool) (indent : Int) (began : Mark) (fault : Option ReaderFault) :
    List Char → Mark → Option Gap → (seen : List Char) →
      Except SyntaxError (String × Cursor × Bool)
  | [], m, gap, seen => do
    lookAhead fault 1 []
    .ok (stop fault m [] gap seen)
  | c :: cs, m, gap, seen =>
    let m' := m.past c cs
    if isBlank c then do
      if gap.isNone then lookAhead fault 2 (c :: cs)
      if gap.any Gap.isLines && decide ((m.column : Int) < indent) && c == '\t' then
        .error (.malformed .tabViolatesIndentation m (some (.plainScalar, began)))
      else scan flow indent began fault cs m' (some ((gap.getD (.blanks [])).addBlank c)) seen
    else if isReturnOfPair c cs then
      scan flow indent began fault cs m' gap seen
    else if isBreak c then do
      lookAhead fault 2 (c :: cs)
      scan flow indent began fault cs m' (some ((gap.getD (.blanks [])).addBreak c)) seen
    else if !flow && gap.isSome && decide ((m.column : Int) < indent) then
      .ok (stop fault m (c :: cs) gap seen)
    else do
      lookAhead fault (if gap.isSome then 4 else 2) (c :: cs)
      if gap.isSome && stopsAfterGap m c cs then .ok (stop fault m (c :: cs) gap seen)
      else if isStrayColon flow c cs then
        .error (.malformed .unexpectedColon m (some (.plainScalar, began)))
      else if isEnd flow c cs then .ok (stop fault m (c :: cs) gap seen)
      else
        scan flow indent began fault cs m' none (c :: Gap.before gap seen)

/-- The plain scalar that begins at the cursor. -/
def read (flow : Bool) (indent : Int) (c : Cursor) : Except SyntaxError (String × Cursor × Bool) :=
  scan flow indent c.mark c.fault c.rest c.mark none []

end ConfigVault.Yaml.Plain
