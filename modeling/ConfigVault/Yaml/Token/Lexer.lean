import ConfigVault.Yaml.Token.BlockScalar
import ConfigVault.Yaml.Token.Plain
import ConfigVault.Yaml.Token.Quoted
import ConfigVault.Yaml.Token.Tag

/-!
# From text to tokens

The lexer reads one construct at a time (`Lexer.fetch`).  Two things make it more than a list of
scanners.

* **Indentation.**  `indent` is the column of the innermost block collection.  Text further to the
  left ends collections (`unroll`), and an indicator further to the right begins one (`roll`).
* **Keys.**  A mapping key needs no indicator in front, so what may turn out to be a key is
  remembered (`PossibleKey`) until a colon follows it in the same line and within
  `longestKey` octets; only then are the tokens in front of it put in place.

Tokens are settled once no possible key can add one before them.  Where the text goes wrong the
settled tokens are all that is delivered (`Lexer.run`).
-/

namespace ConfigVault.Yaml

/-- A token that a colon may still turn into a key. -/
structure PossibleKey where
  /-- Nothing but a key may stand here. -/
  required : Bool
  /-- How many tokens come before it. -/
  position : Nat
  mark : Mark
  deriving DecidableEq, Repr

/-- The state between two tokens. -/
structure Lexer where
  cursor : Cursor
  /-- The tokens so far, latest first. -/
  tokens : List Token
  /-- How many flow collections are open. -/
  flow : Nat
  /-- The column of the innermost block collection, or −1 outside all. -/
  indent : Int
  /-- The columns of the collections around it, innermost first. -/
  indents : List Int
  /-- A key may begin here without an indicator. -/
  keyAllowed : Bool
  /-- The possible key of each open flow collection, innermost first, and of the block context. -/
  keys : List (Option PossibleKey)
  deriving Repr

namespace Lexer

/-- The longest text, in octets, that can be a key without an indicator. -/
def longestKey : Nat := 1024

/-- The state before the first token. -/
def ofSource (s : Source) : Lexer :=
  ⟨Cursor.ofSource s, [], 0, -1, [], false, []⟩

/-- Adds a token. -/
def push (l : Lexer) (kind : Token.Kind) (mark : Mark) : Lexer :=
  { l with tokens := ⟨kind, mark⟩ :: l.tokens }

/-- Puts a token behind the first `position` tokens. -/
def insert (l : Lexer) (position : Nat) (kind : Token.Kind) (mark : Mark) : Lexer :=
  let later := l.tokens.length - position
  { l with tokens := l.tokens.take later ++ ⟨kind, mark⟩ :: l.tokens.drop later }

/-- The error for a key that no colon follows. -/
def missingColon (l : Lexer) (k : PossibleKey) : SyntaxError :=
  .malformed .expectedColon l.cursor.mark (some (.simpleKey, k.mark))

/-- A possible key can be one no more: its line is over, or it is too long. -/
def isStale (m : Mark) (k : PossibleKey) : Bool :=
  k.mark.line < m.line || k.mark.index + longestKey < m.index

/-- Gives up the possible keys that can be keys no more; a required one is missing its colon. -/
def dropStale (l : Lexer) : Except SyntaxError Lexer :=
  let stale := fun k => isStale l.cursor.mark k
  match l.keys.reverse.findSome? (fun k => k.filter fun k => stale k && k.required) with
  | some k => .error (l.missingColon k)
  | none => .ok { l with keys := l.keys.map (·.filter fun k => !stale k) }

/-- Gives up the possible key of the innermost context. -/
def dropKey (l : Lexer) : Except SyntaxError Lexer :=
  match l.keys with
  | some k :: ks =>
    if k.required then .error (l.missingColon k) else .ok { l with keys := none :: ks }
  | _ => .ok l

/-- Remembers that the next token may be a key, where one may begin. -/
def saveKey (l : Lexer) : Except SyntaxError Lexer :=
  if l.keyAllowed then do
    let m := l.cursor.mark
    let l ← l.dropKey
    let required := l.flow == 0 && l.indent == (m.column : Int)
    .ok { l with keys := some ⟨required, l.tokens.length, m⟩ :: l.keys.tail }
  else .ok l

/-- Begins a block collection at `column`, unless one is open there or we are inside a flow
collection; `position` tells how many tokens come before its start. -/
def roll (l : Lexer) (column position : Nat) (kind : Token.Kind) (mark : Mark) : Lexer :=
  if l.flow = 0 ∧ l.indent < (column : Int) then
    { l.insert position kind mark with indent := column, indents := l.indent :: l.indents }
  else l

/-- Ends the block collections to the right of `column`: one token for each, and the columns of
those that stay open. -/
def unrolled (column : Int) (mark : Mark) :
    Int → List Int → List Token → Int × List Int × List Token
  | indent, [], tokens =>
    if column < indent then (-1, [], ⟨.blockEnd, mark⟩ :: tokens) else (indent, [], tokens)
  | indent, outer :: indents, tokens =>
    if column < indent then
      unrolled column mark outer indents (⟨.blockEnd, mark⟩ :: tokens)
    else (indent, outer :: indents, tokens)

/-- Ends the block collections to the right of `column`; inside flow collections indentation means
nothing. -/
def unroll (l : Lexer) (column : Int) : Lexer :=
  if l.flow = 0 then
    let (indent, indents, tokens) := unrolled column l.cursor.mark l.indent l.indents l.tokens
    { l with indent, indents, tokens }
  else l

/-- Moves over blanks, comments and line breaks to the next token.  Tabs count as blanks only where
they cannot be indentation; a new line may begin with a key. -/
def toNextToken (inFlow : Bool) : (fuel : Nat) → (keyAllowed : Bool) → Cursor → Bool × Cursor
  | 0, keyAllowed, c => (keyAllowed, c)
  | fuel + 1, keyAllowed, c =>
    let c := if c.mark.index = 0 ∧ c.at? '\ufeff' then c.skip 1 else c
    let c := c.skipWhile fun x => x == ' ' || ((inFlow || !keyAllowed) && x == '\t')
    let c := if c.at? '#' then c.skipWhile (fun x => !isBreak x) else c
    if c.rest.isEmpty || !atBreak c.rest then (keyAllowed, c)
    else toNextToken inFlow fuel (keyAllowed || !inFlow) c.skipBreak

/-- Adds the one-character token at the cursor. -/
def pushIndicator (l : Lexer) (kind : Token.Kind) : Lexer :=
  { l.push kind l.cursor.mark with cursor := l.cursor.skip 1 }

/-- The end of the text: it ends its last line and every open block collection. -/
def fetchEnd (l : Lexer) : Except SyntaxError Lexer := do
  let m := l.cursor.mark
  let m := if m.column = 0 then m else ⟨m.index, m.line + 1, 0⟩
  let l ← ({ l with cursor := { l.cursor with mark := m } }.unroll (-1)).dropKey
  .ok ({ l with keyAllowed := false }.push .streamEnd m)

/-- A directive. -/
def fetchDirective (l : Lexer) : Except SyntaxError Lexer := do
  let l ← (l.unroll (-1)).dropKey
  let (kind, c) ← Directive.read l.cursor
  .ok { l.push kind l.cursor.mark with cursor := c, keyAllowed := false }

/-- Three dashes or three dots. -/
def fetchDocumentIndicator (l : Lexer) (kind : Token.Kind) : Except SyntaxError Lexer := do
  let l ← (l.unroll (-1)).dropKey
  .ok { l.push kind l.cursor.mark with cursor := l.cursor.skip 3, keyAllowed := false }

/-- An opening bracket or brace; it may itself begin a key. -/
def fetchFlowStart (l : Lexer) (kind : Token.Kind) : Except SyntaxError Lexer := do
  let l ← l.saveKey
  .ok { l.pushIndicator kind with
    flow := l.flow + 1, keys := none :: l.keys, keyAllowed := true }

/-- A closing bracket or brace. -/
def fetchFlowEnd (l : Lexer) (kind : Token.Kind) : Except SyntaxError Lexer := do
  let l ← l.dropKey
  .ok { l.pushIndicator kind with
    flow := l.flow - 1, keys := if l.flow = 0 then l.keys else l.keys.tail, keyAllowed := false }

/-- A comma between flow entries. -/
def fetchFlowEntry (l : Lexer) : Except SyntaxError Lexer := do
  let l ← l.dropKey
  .ok { l.pushIndicator .flowEntry with keyAllowed := true }

/-- Refuses an indicator where a block entry or key may not begin. -/
def requireKeyAllowed (l : Lexer) (problem : Problem) : Except SyntaxError Unit :=
  if l.flow = 0 ∧ !l.keyAllowed then .error (.malformed problem l.cursor.mark none) else .ok ()

/-- Begins a block collection at the cursor, if none is open there. -/
def rollHere (l : Lexer) (kind : Token.Kind) : Lexer :=
  l.roll l.cursor.mark.column l.tokens.length kind l.cursor.mark

/-- The dash of a block sequence entry. -/
def fetchBlockEntry (l : Lexer) : Except SyntaxError Lexer := do
  l.requireKeyAllowed .blockEntryNotAllowed
  let l ← (l.rollHere .blockSequenceStart).dropKey
  .ok { l.pushIndicator .blockEntry with keyAllowed := true }

/-- The question mark of a key. -/
def fetchKey (l : Lexer) : Except SyntaxError Lexer := do
  l.requireKeyAllowed .keyNotAllowed
  let l ← (l.rollHere .blockMappingStart).dropKey
  .ok { l.pushIndicator .key with keyAllowed := l.flow == 0 }

/-- The colon of a value.  If a possible key is pending it is one now: its token goes in front of
it, and a mapping begins there unless one is open. -/
def fetchValue (l : Lexer) : Except SyntaxError Lexer := do
  match l.keys with
  | some k :: ks =>
    let l := { l with keys := none :: ks }
    let l := (l.insert k.position .key k.mark).roll k.mark.column k.position .blockMappingStart
      k.mark
    .ok { l.pushIndicator .value with keyAllowed := false }
  | _ =>
    l.requireKeyAllowed .valueNotAllowed
    let l := l.rollHere .blockMappingStart
    .ok { l.pushIndicator .value with keyAllowed := l.flow == 0 }

/-- An anchor or an alias. -/
def fetchName (l : Lexer) (context : Context) (kind : String → Token.Kind) :
    Except SyntaxError Lexer := do
  let l ← l.saveKey
  let (name, c) ← readName context l.cursor
  .ok { l.push (kind name) l.cursor.mark with cursor := c, keyAllowed := false }

/-- A tag. -/
def fetchTag (l : Lexer) : Except SyntaxError Lexer := do
  let l ← l.saveKey
  let (kind, c) ← Tag.read (l.flow != 0) l.cursor
  .ok { l.push kind l.cursor.mark with cursor := c, keyAllowed := false }

/-- Literal or folded text. -/
def fetchBlockScalar (l : Lexer) (literal : Bool) : Except SyntaxError Lexer := do
  let l ← l.dropKey
  let (text, c) ← BlockScalar.read literal l.indent l.cursor
  .ok { l.push (.scalar text (if literal then .literal else .folded)) l.cursor.mark with
    cursor := c, keyAllowed := true }

/-- A quoted scalar. -/
def fetchQuoted (l : Lexer) (single : Bool) : Except SyntaxError Lexer := do
  let l ← l.saveKey
  let (text, c) ← Quoted.read single l.cursor
  .ok { l.push (.scalar text (if single then .singleQuoted else .doubleQuoted)) l.cursor.mark with
    cursor := c, keyAllowed := false }

/-- A plain scalar.  If line breaks follow it, a key may begin behind them. -/
def fetchPlain (l : Lexer) : Except SyntaxError Lexer := do
  let l ← l.saveKey
  let (text, c, brokeLine) ← Plain.read (l.flow != 0) (l.indent + 1) l.cursor
  .ok { l.push (.scalar text .plain) l.cursor.mark with cursor := c, keyAllowed := brokeLine }

/-- The characters that cannot begin a plain scalar, or only in front of text. -/
def isIndicator (c : Char) : Bool :=
  "-?:,[]\x7b\x7d#&*!|>'\"%@`".toList.contains c

/-- A plain scalar begins with character `c`, when `rest` follows it. -/
def startsPlain (inFlow : Bool) (c : Char) (rest : List Char) : Bool :=
  !(isBlank c || isBreak c || isIndicator c) ||
    (c == '-' && !rest.head?.any isBlank) ||
    (!inFlow && (c == '?' || c == ':') && !atSpace rest)

/-- The construct that begins with character `c`, when `rest` follows it. -/
def fetchAt (l : Lexer) (c : Char) (rest : List Char) : Except SyntaxError Lexer :=
  let inFlow := l.flow != 0
  let column := l.cursor.mark.column
  if column = 0 ∧ c = '%' then l.fetchDirective
  else if Cursor.atDocumentIndicator column (c :: rest) then
    l.fetchDocumentIndicator (if c = '-' then .documentStart else .documentEnd)
  else if c = '[' then l.fetchFlowStart .flowSequenceStart
  else if c = '\x7b' then l.fetchFlowStart .flowMappingStart
  else if c = ']' then l.fetchFlowEnd .flowSequenceEnd
  else if c = '\x7d' then l.fetchFlowEnd .flowMappingEnd
  else if c = ',' then l.fetchFlowEntry
  else if c = '-' ∧ atSpace rest then l.fetchBlockEntry
  else if c = '?' ∧ (inFlow || atSpace rest) then l.fetchKey
  else if c = ':' ∧ (inFlow || atSpace rest) then l.fetchValue
  else if c = '*' then l.fetchName .alias .alias
  else if c = '&' then l.fetchName .anchor .anchor
  else if c = '!' then l.fetchTag
  else if c = '|' ∧ !inFlow then l.fetchBlockScalar true
  else if c = '>' ∧ !inFlow then l.fetchBlockScalar false
  else if c = '\'' then l.fetchQuoted true
  else if c = '"' then l.fetchQuoted false
  else if startsPlain inFlow c rest then l.fetchPlain
  else l.cursor.fail .cannotStartToken .nextToken l.cursor.mark

/-- Reads the next construct. -/
def fetch (l : Lexer) : Except SyntaxError Lexer := do
  l.cursor.need 1
  if l.tokens.isEmpty then
    .ok { l.push .streamStart l.cursor.mark with keyAllowed := true, keys := [none] }
  else
    let (keyAllowed, c) :=
      toNextToken (l.flow != 0) (l.cursor.rest.length + 1) l.keyAllowed l.cursor
    c.need 1
    let l ← { l with keyAllowed, cursor := c }.dropStale
    let l := l.unroll c.mark.column
    c.need 4
    match c.rest with
    | [] => l.fetchEnd
    | x :: rest => l.fetchAt x rest

/-- The tokens that no possible key can add one before. -/
def settled (l : Lexer) : List Token :=
  let pending := l.keys.filterMap (·.map PossibleKey.position)
  l.tokens.reverse.take (pending.foldl min l.tokens.length)

/-- The last token ends the text. -/
def isOver (l : Lexer) : Bool :=
  l.tokens.head?.any fun t => t.kind == .streamEnd

/-- Reads constructs until the text ends or goes wrong. -/
def run : (fuel : Nat) → Lexer → TokenStream SyntaxError
  | 0, l => ⟨l.tokens.reverse, none⟩
  | fuel + 1, l =>
    match l.fetch >>= dropStale with
    | .error e => ⟨l.settled, some e⟩
    | .ok l' => if l'.isOver then ⟨l'.tokens.reverse, none⟩ else run fuel l'

end Lexer

namespace TokenStream

/-- The tokens of a text.  Every construct but the two ends of the text takes a character. -/
def ofSource (s : Source) : TokenStream SyntaxError :=
  Lexer.run (s.chars.length + 2) (Lexer.ofSource s)

end TokenStream

end ConfigVault.Yaml
