import ConfigVault.Text.Base64
import ConfigVault.Text.MalformedUtf8
import ConfigVault.Text.WhiteSpace

/-!
# Armoured octets

Octets in Base64 between a line that begins and a line that ends them, both with the same label.
Lines of headers may come first, and an empty line parts them from the octets.

A text may hold any number of such blocks with anything between them (`Pem.blocks`).  What does not
look like a block is passed over, and so is one that never ends.
-/

namespace ConfigVault.Text

/-- A block of armoured octets. -/
structure Pem where
  label : String
  octets : List UInt8
  deriving DecidableEq, Repr

namespace Pem

/-- Why a block cannot be read. -/
inductive Fault where
  | missingBegin
  | missingEnd
  | mismatch (beginning ending : String)
  | invalidData (fault : Base64.Fault)
  | invalidHeader (header : String)
  | notText (place : Utf8.Malformed)
  deriving DecidableEq, Repr

namespace Fault

/-- The message of a fault. -/
def message : Fault → String
  | .missingBegin => "missing BEGIN tag"
  | .missingEnd => "missing END tag"
  | .mismatch b e => "mismatching BEGIN (\"" ++ b ++ "\") and END (\"" ++ e ++ "\") tags"
  | .invalidData fault => "invalid data: " ++ fault.message
  | .invalidHeader header => "invalid header: " ++ header
  | .notText place => "invalid utf-8 value: " ++ place.message

/-- The messages of what caused a fault. -/
def causes : Fault → List String
  | .invalidData fault => [fault.message]
  | .notText place => [place.message]
  | _ => []

end Fault

/-! ## Finding blocks -/

/-- Looks for a marker: what comes before it, in reverse, and what comes behind it.  `left` is what
is missing of the marker; a wrong octet begins the search anew behind it. -/
def findFrom (marker : List UInt8) :
    (left before : List UInt8) → List UInt8 → Option (List UInt8 × List UInt8)
  | [], before, bs => some (before, bs)
  | _ :: _, _, [] => none
  | m :: left, before, b :: bs =>
    if m = b then findFrom marker left (b :: before) bs
    else findFrom marker marker (b :: before) bs

/-- What comes before and behind the first marker. -/
def find (marker bytes : List UInt8) : Option (List UInt8 × List UInt8) :=
  (findFrom marker marker [] bytes).map fun (before, rest) =>
    ((before.drop marker.length).reverse, rest)

/-- The octets of a text of ASCII characters. -/
def ascii (s : String) : List UInt8 := Utf8.encodeString s

/-- The octet separates words or lines. -/
def isBlank (b : UInt8) : Bool := b == 0x20 || b == 0x0A || b == 0x0D || b == 0x09

/-- The parts of a block, as they were found. -/
structure Parts where
  beginning : List UInt8
  content : List UInt8
  ending : List UInt8

/-- The parts of the first block, and what comes behind it. -/
def firstParts (bytes : List UInt8) : Option (Parts × List UInt8) := do
  let dashes := ascii "-----"
  let (_, rest) ← find (ascii "-----BEGIN ") bytes
  let (beginning, rest) ← find dashes rest
  let (content, rest) ← find (ascii "-----END ") (rest.dropWhile isBlank)
  let (ending, rest) ← find dashes rest
  pure (⟨beginning, content, ending⟩, rest.dropWhile isBlank)

/-- The parts of all blocks; each takes up at least one octet. -/
def allParts : (fuel : Nat) → List UInt8 → List Parts
  | 0, _ => []
  | fuel + 1, bytes =>
    match firstParts bytes with
    | none => []
    | some (parts, rest) => parts :: allParts fuel rest

/-! ## Reading blocks -/

/-- The text of octets. -/
def textOf (bytes : List UInt8) : Except Fault (List Char) :=
  match Utf8.malformed? bytes, Utf8.decode? bytes with
  | none, some cs => .ok cs
  | some place, _ => .error (.notText place)
  | none, none => .error (.notText ⟨0, none⟩)

/-- The headers and the data of a block. -/
def splitContent (content : List UInt8) : List UInt8 × List UInt8 :=
  match find (ascii "\n\n") content with
  | some split => split
  | none => (find (ascii "\r\n\r\n") content).getD ([], content)

/-- The lines of a text, without their ends. -/
def linesOf (cs : List Char) : List (List Char) :=
  let lines := cs.splitOn '\n'
  let lines := if lines.getLast? == some [] then lines.dropLast else lines
  lines.map fun l => if l.getLast? == some '\r' then l.dropLast else l

/-- The block with these parts. -/
def ofParts (p : Parts) : Except Fault Pem := do
  let label ← textOf p.beginning
  if label.isEmpty then throw .missingBegin
  let ending ← textOf p.ending
  if ending.isEmpty then throw .missingEnd
  if label ≠ ending then throw (.mismatch (String.ofList label) (String.ofList ending))
  let (headers, data) := splitContent p.content
  let data ← textOf data
  let symbols := Utf8.encode (data.filter fun c => !isWhiteSpace c)
  let octets ← (Base64.decode? symbols).mapError .invalidData
  let headers ← textOf headers
  match (linesOf headers).find? fun l => !l.contains ':' with
  | some header => throw (.invalidHeader (String.ofList header))
  | none => pure ⟨String.ofList label, octets⟩

/-- The blocks of a text. -/
def blocks (bytes : List UInt8) : Except Fault (List Pem) :=
  (allParts bytes.length bytes).mapM ofParts

end Pem

end ConfigVault.Text
