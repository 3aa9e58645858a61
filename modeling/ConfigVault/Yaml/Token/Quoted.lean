import ConfigVault.Yaml.Cursor
import ConfigVault.Yaml.Token.Gap

/-!
# Quoted scalars

The text between quotes.  In single quotes a quote is written twice and nothing else is special; in
double quotes a backslash starts an escape (`escape`), or continues the line after a break.  Either
way text that spans lines is folded.

`scan` reads a character at a time.  `skip` counts characters that an escape has already accounted
for, and `gap` is what was passed since the last character of text, if anything was.
-/

namespace ConfigVault.Yaml.Quoted

/-- The value of a hexadecimal digit. -/
def hexValue? (c : Char) : Option Nat :=
  if '0' ≤ c ∧ c ≤ '9' then some (c.toNat - 48)
  else if 'a' ≤ c ∧ c ≤ 'f' then some (c.toNat - 87)
  else if 'A' ≤ c ∧ c ≤ 'F' then some (c.toNat - 55)
  else none

/-- The number that the first `n` characters write in hexadecimal, after `value`. -/
def hexNumber? : (n value : Nat) → List Char → Option Nat
  | 0, value, _ => some value
  | _ + 1, _, [] => none
  | n + 1, value, c :: cs =>
    match hexValue? c with
    | some d => hexNumber? n (value * 16 + d) cs
    | none => none

/-- The character that a one-letter escape stands for. -/
def namedEscape? : Char → Option Char
  | '0' => some '\x00'
  | 'a' => some '\x07'
  | 'b' => some '\x08'
  | 't' => some '\t'
  | '\t' => some '\t'
  | 'n' => some '\n'
  | 'v' => some '\x0b'
  | 'f' => some '\x0c'
  | 'r' => some '\r'
  | 'e' => some '\x1b'
  | ' ' => some ' '
  | '"' => some '"'
  | '/' => some '/'
  | '\\' => some '\\'
  | 'N' => some '\x85'
  | '_' => some '\xa0'
  | 'L' => some '\u2028'
  | 'P' => some '\u2029'
  | _ => none

/-- How many hexadecimal digits a numeric escape has. -/
def escapeDigits? : Char → Option Nat
  | 'x' => some 2
  | 'u' => some 4
  | 'U' => some 8
  | _ => none

/-- The character that an escape at mark `m` stands for, and how many characters the escape takes
after its backslash. -/
def escape (began : Mark) (fault : Option ReaderFault) (m : Mark) :
    List Char → Except SyntaxError (Char × Nat)
  | [] => .error (.malformed .unknownEscape m (some (.parsedQuotedScalar, began)))
  | e :: cs =>
    match namedEscape? e with
    | some c => .ok (c, 1)
    | none =>
      match escapeDigits? e with
      | none => .error (.malformed .unknownEscape m (some (.parsedQuotedScalar, began)))
      | some n => do
        lookAhead fault n cs
        match hexNumber? n 0 cs with
        | none =>
          .error (.malformed .expectedHexadecimal (m.right 2) (some (.parsedQuotedScalar, began)))
        | some value =>
          if h : value.isValidChar then .ok (Char.ofNatAux value h, n + 1)
          else
            .error (.malformed .badCharacterEscape (m.right 2) (some (.parsedQuotedScalar, began)))

/-- Refuses to go on with text after a gap where the document is cut off by an indicator. -/
def resume (began : Mark) (fault : Option ReaderFault) (m : Mark) (rest : List Char) :
    Option Gap → Except SyntaxError Unit
  | none => lookAhead fault 2 rest
  | some _ => do
    lookAhead fault 4 rest
    if Cursor.atDocumentIndicator m.column rest then
      .error (.malformed .unexpectedDocumentIndicator m (some (.quotedScalar, began)))
    else .ok ()

/-- Reads the rest of a scalar that began at `began`, up to and with its closing quote.  `seen`
holds the characters of its text so far, latest first. -/
def scan (single : Bool) (began : Mark) (fault : Option ReaderFault) :
    List Char → (skip : Nat) → Mark → Option Gap → (seen : List Char) →
      Except SyntaxError (String × Cursor)
  | [], _, m, _, _ => do
    lookAhead fault 1 []
    .error (.malformed .unexpectedEnd m (some (.quotedScalar, began)))
  | c :: cs, skip + 1, m, gap, seen => scan single began fault cs skip (m.past c cs) gap seen
  | c :: cs, 0, m, gap, seen =>
    let m' := m.past c cs
    if isBlank c then do
      if gap.isNone then lookAhead fault 2 (c :: cs)
      scan single began fault cs 0 m' (some ((gap.getD (.blanks [])).addBlank c)) seen
    else if isReturnOfPair c cs then
      scan single began fault cs 0 m' gap seen
    else if isBreak c then do
      lookAhead fault 2 (c :: cs)
      scan single began fault cs 0 m' (some ((gap.getD (.blanks [])).addBreak c)) seen
    else do
      resume began fault m (c :: cs) gap
      let seen := Gap.before gap seen
      if single then
        if c = '\'' then
          if cs.head? = some '\'' then scan single began fault cs 1 m' none ('\'' :: seen)
          else .ok (String.ofList seen.reverse, ⟨m', cs, fault⟩)
        else scan single began fault cs 0 m' none (c :: seen)
      else if c = '"' then .ok (String.ofList seen.reverse, ⟨m', cs, fault⟩)
      else if c = '\\' then
        if cs.head?.any isBreak then do
          lookAhead fault 3 (c :: cs)
          let skip := if isReturnOfPair (cs.headD ' ') cs.tail then 2 else 1
          scan single began fault cs skip m' (some (.lines none [])) seen
        else do
          let (x, n) ← escape began fault m cs
          scan single began fault cs n m' none (x :: seen)
      else scan single began fault cs 0 m' none (c :: seen)

/-- The scalar whose opening quote is next. -/
def read (single : Bool) (c : Cursor) : Except SyntaxError (String × Cursor) :=
  let body := c.skip 1
  scan single c.mark c.fault body.rest 0 body.mark (some (.blanks [])) []

end ConfigVault.Yaml.Quoted
