/-!
# UTF-8

Texts are stored and exchanged as octets.  `encode` writes the octets of a text and `decode?` reads
them back, refusing whatever no text encodes to: stray continuation octets, truncated and overlong
sequences, surrogates, and numbers above the last code point.

Reading goes one character at a time (`step`), so that a reader that stops at the first bad octet
can say what is wrong with it (`Fault`).  The checks are made in a fixed order: the leading octet,
the number of octets left, the continuation octets from left to right, the length, the value.
-/

namespace ConfigVault.Text.Utf8

/-- The octets of a text. -/
def encode (cs : List Char) : List UInt8 :=
  cs.flatMap String.utf8EncodeChar

@[simp] theorem encode_nil : encode [] = [] := rfl

@[simp] theorem encode_cons (c : Char) (cs : List Char) :
    encode (c :: cs) = String.utf8EncodeChar c ++ encode cs := rfl

@[simp] theorem encode_append (cs ds : List Char) :
    encode (cs ++ ds) = encode cs ++ encode ds := by
  simp [encode]

/-- What is wrong with an octet sequence. -/
inductive Fault where
  /-- The octet starts no character. -/
  | leading
  /-- The octets end before the character does. -/
  | incomplete
  /-- The octet at this distance from the leading one continues nothing. -/
  | trailing (distance : Nat)
  /-- A shorter sequence encodes the same number. -/
  | overlong
  /-- The number is a surrogate or lies above the last code point. -/
  | notScalar
  deriving DecidableEq, Repr

/-- How many octets follow a leading octet, and the bits it contributes itself. -/
def leading? (b : UInt8) : Option (Nat × Nat) :=
  let n := b.toNat
  if n < 0x80 then some (0, n)
  else if n < 0xC0 then none
  else if n < 0xE0 then some (1, n - 0xC0)
  else if n < 0xF0 then some (2, n - 0xE0)
  else if n < 0xF8 then some (3, n - 0xF0)
  else none

/-- The number that `more` continuation octets complete, six bits each. -/
def continue? : (more : Nat) → (value distance : Nat) → List UInt8 → Except Fault Nat
  | 0, value, _, _ => .ok value
  | _ + 1, _, _, [] => .error .incomplete
  | more + 1, value, distance, b :: bs =>
    if 0x80 ≤ b.toNat ∧ b.toNat < 0xC0 then
      continue? more (value * 64 + (b.toNat - 0x80)) (distance + 1) bs
    else .error (.trailing distance)

/-- The least number that needs this many continuation octets. -/
def leastOf : Nat → Nat
  | 0 => 0
  | 1 => 0x80
  | 2 => 0x800
  | _ => 0x10000

/-- The character that starts with octet `b` and goes on in `bs`, and how many octets of `bs` it
takes. -/
def step (b : UInt8) (bs : List UInt8) : Except Fault (Char × Nat) :=
  match leading? b with
  | none => .error .leading
  | some (more, bits) =>
    if (bs.take more).length < more then .error .incomplete
    else
      match continue? more bits 1 bs with
      | .error f => .error f
      | .ok value =>
        if value < leastOf more then .error .overlong
        else if h : value.isValidChar then .ok (Char.ofNatAux value h, more)
        else .error .notScalar

/-- The text that the octets encode, if they encode one. -/
def decode? : List UInt8 → Option (List Char)
  | [] => some []
  | b :: bs =>
    match step b bs with
    | .error _ => none
    | .ok (c, more) => (decode? (bs.drop more)).map (c :: ·)
termination_by bs => bs.length
decreasing_by simp only [List.length_drop, List.length_cons]; omega

/-- The text that the octets encode, as a string. -/
def decodeString? (bs : List UInt8) : Option String :=
  (decode? bs).map String.ofList

/-- The octets of a string. -/
def encodeString (s : String) : List UInt8 :=
  encode s.toList

end ConfigVault.Text.Utf8
