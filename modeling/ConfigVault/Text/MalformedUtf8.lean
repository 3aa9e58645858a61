import ConfigVault.Text.Utf8

/-!
# Where octets stop being text

The first place at which octets are not UTF-8, with the number of octets there that cannot be the
beginning of any character.
-/

namespace ConfigVault.Text.Utf8

/-- The first place at which octets are no text. -/
structure Malformed where
  offset : Nat
  /-- How many octets are wrong, unless the text only ends too early. -/
  length : Option Nat
  deriving DecidableEq, Repr

/-- The message about a place. -/
def Malformed.message (m : Malformed) : String :=
  match m.length with
  | some n =>
    "invalid utf-8 sequence of " ++ toString n ++ " bytes from index " ++ toString m.offset
  | none => "incomplete utf-8 byte sequence from index " ++ toString m.offset

/-- The octets that may follow a leading octet. -/
def secondRange (b : UInt8) : UInt8 × UInt8 :=
  if b = 0xE0 then (0xA0, 0xBF)
  else if b = 0xED then (0x80, 0x9F)
  else if b = 0xF0 then (0x90, 0xBF)
  else if b = 0xF4 then (0x80, 0x8F)
  else (0x80, 0xBF)

/-- How many octets follow a leading octet. -/
def followers? (b : UInt8) : Option Nat :=
  if b < 0x80 then some 0
  else if 0xC2 ≤ b ∧ b ≤ 0xDF then some 1
  else if 0xE0 ≤ b ∧ b ≤ 0xEF then some 2
  else if 0xF0 ≤ b ∧ b ≤ 0xF4 then some 3
  else none

/-- How many octets are wrong where `count` continuation octets are wanted, `good` octets having
been right. -/
def wrongFollowers? (range : UInt8 × UInt8) : (count good : Nat) → List UInt8 →
    Option (Option Nat)
  | 0, _, _ => none
  | _ + 1, _, [] => some none
  | count + 1, good, b :: bs =>
    if range.1 ≤ b ∧ b ≤ range.2 then wrongFollowers? (0x80, 0xBF) count (good + 1) bs
    else some (some good)

/-- The first place from an offset on at which octets are no text. -/
def malformedFrom? (offset : Nat) : List UInt8 → Option Malformed
  | [] => none
  | b :: bs =>
    match followers? b with
    | none => some ⟨offset, some 1⟩
    | some count =>
      match wrongFollowers? (secondRange b) count 1 bs with
      | some length => some ⟨offset, length⟩
      | none => malformedFrom? (offset + count + 1) (bs.drop count)
termination_by bs => bs.length
decreasing_by simp only [List.length_drop, List.length_cons]; omega

/-- The first place at which octets are no text. -/
def malformed? (bytes : List UInt8) : Option Malformed := malformedFrom? 0 bytes

end ConfigVault.Text.Utf8
