import ConfigVault.Text.Utf8
import ConfigVault.Yaml.Mark

/-!
# The text behind a document

A document arrives as octets.  They are decoded a window of `windowSize` octets at a time, and a
character that a window's end would split opens the next window.  An octet that cannot be decoded,
or a character that documents may not hold, spoils its whole window: `Source.ofBytes` keeps the
characters of the windows before it, and the fault for whoever asks for a character after those.
Only where the octets end inside a character are the characters just before it still there.
-/

namespace ConfigVault.Yaml

open ConfigVault.Text

/-- Why the octets of a document cannot be read. -/
inductive ReaderProblem where
  | encoding (fault : Utf8.Fault)
  | controlCharacter
  deriving DecidableEq, Repr

/-- A problem with the octets, and the octet where its character starts. -/
structure ReaderFault where
  problem : ReaderProblem
  offset : Nat
  deriving DecidableEq, Repr

/-- The characters a document may hold. -/
def isAllowed (c : Char) : Bool :=
  let n := c.toNat
  n == 0x09 || n == 0x0A || n == 0x0D || (0x20 ≤ n && n ≤ 0x7E) || n == 0x85 ||
    (0xA0 ≤ n && n ≤ 0xD7FF) || (0xE000 ≤ n && n ≤ 0xFFFD) || 0x10000 ≤ n

/-- The characters of a document, and what stands in the way of the rest. -/
structure Source where
  chars : List Char
  fault : Option ReaderFault
  deriving DecidableEq, Repr

/-- The octet that a decoding fault is reported at, for a character that starts at `offset`. -/
def faultOffset (offset : Nat) : Utf8.Fault → Nat
  | .trailing distance => offset + distance
  | _ => offset

/-- How many octets are said to follow a leading octet; none for one that starts no character. -/
def announced (b : UInt8) : Nat :=
  match Utf8.leading? b with
  | some (more, _) => more
  | none => 0

namespace Source

/-- How many octets are decoded together. -/
def windowSize : Nat := 16384

/-- Decodes from octet `offset` on.  `first` is where the current window starts, `current` holds
its characters and `earlier` those of the windows before it, both latest first. -/
def decode (offset first : Nat) (earlier current : List Char) : List UInt8 → Source
  | [] => ⟨(current ++ earlier).reverse, none⟩
  | b :: bs =>
    let fits := offset + announced b < first + windowSize
    let kept := if fits then earlier else current ++ earlier
    match Utf8.step b bs with
    | .error .incomplete =>
      ⟨(current ++ earlier).reverse, some ⟨.encoding .incomplete, offset⟩⟩
    | .error f => ⟨kept.reverse, some ⟨.encoding f, faultOffset offset f⟩⟩
    | .ok (c, more) =>
      if isAllowed c then
        if fits then
          decode (offset + more + 1) first earlier (c :: current) (bs.drop more)
        else
          decode (offset + more + 1) offset (current ++ earlier) [c] (bs.drop more)
      else ⟨kept.reverse, some ⟨.controlCharacter, offset⟩⟩
termination_by bs => bs.length
decreasing_by all_goals (simp only [List.length_drop, List.length_cons]; omega)

/-- The characters of the octets, up to the window of the first fault. -/
def ofBytes (bs : List UInt8) : Source :=
  decode 0 0 [] [] bs

end Source

end ConfigVault.Yaml
