/-!
# Base64

Octets written as text: three octets make a group of four symbols, six bits each, and a shorter
last group is filled up with the padding mark.

Reading accepts only what writing produces (`decode?`): the padding has to be there, no symbol may
carry bits that no octet uses, and nothing may stand between the symbols.  The first fault from the
left is reported, except that an odd last octet which is no symbol at all is seen before
everything else.
-/

namespace ConfigVault.Text.Base64

/-- The symbol of six bits. -/
def symbol (v : Nat) : UInt8 :=
  if v < 26 then UInt8.ofNat (0x41 + v)
  else if v < 52 then UInt8.ofNat (0x61 + (v - 26))
  else if v < 62 then UInt8.ofNat (0x30 + (v - 52))
  else if v = 62 then 0x2B
  else 0x2F

/-- The mark that fills up the last group. -/
def pad : UInt8 := 0x3D

/-- The six bits of a symbol. -/
def value? (c : UInt8) : Option Nat :=
  if 0x41 ≤ c ∧ c ≤ 0x5A then some (c.toNat - 0x41)
  else if 0x61 ≤ c ∧ c ≤ 0x7A then some (c.toNat - 0x61 + 26)
  else if 0x30 ≤ c ∧ c ≤ 0x39 then some (c.toNat - 0x30 + 52)
  else if c = 0x2B then some 62
  else if c = 0x2F then some 63
  else none

/-- The octets of the written form. -/
def encode : List UInt8 → List UInt8
  | [] => []
  | [a] => [symbol (a.toNat / 4), symbol (a.toNat % 4 * 16), pad, pad]
  | [a, b] =>
    [symbol (a.toNat / 4), symbol (a.toNat % 4 * 16 + b.toNat / 16), symbol (b.toNat % 16 * 4), pad]
  | a :: b :: c :: rest =>
    symbol (a.toNat / 4) :: symbol (a.toNat % 4 * 16 + b.toNat / 16) ::
      symbol (b.toNat % 16 * 4 + c.toNat / 64) :: symbol (c.toNat % 64) :: encode rest

/-- The written form. -/
def encodeString (octets : List UInt8) : String :=
  String.ofList ((encode octets).map fun c => Char.ofNat c.toNat)

/-- Why a text cannot be read. -/
inductive Fault where
  | invalidSymbol (offset : Nat) (octet : UInt8)
  | invalidLength (length : Nat)
  /-- The symbol carries bits that no octet uses. -/
  | invalidLastSymbol (offset : Nat) (octet : UInt8)
  | invalidPadding
  deriving DecidableEq, Repr

/-- The message of a fault. -/
def Fault.message : Fault → String
  | .invalidSymbol offset octet =>
    "Invalid symbol " ++ toString octet.toNat ++ ", offset " ++ toString offset ++ "."
  | .invalidLength length => "Invalid input length: " ++ toString length
  | .invalidLastSymbol offset octet =>
    "Invalid last symbol " ++ toString octet.toNat ++ ", offset " ++ toString offset ++ "."
  | .invalidPadding => "Invalid padding"

/-- The six bits of a symbol at an offset. -/
def valueAt (offset : Nat) (c : UInt8) : Except Fault Nat :=
  match value? c with
  | some v => .ok v
  | none => .error (.invalidSymbol offset c)

/-- The octets of a group without padding. -/
def fullGroup (offset : Nat) (a b c d : UInt8) : Except Fault (List UInt8) := do
  let u ← valueAt offset a
  let v ← valueAt (offset + 1) b
  let w ← valueAt (offset + 2) c
  let x ← valueAt (offset + 3) d
  pure [UInt8.ofNat (u * 4 + v / 16), UInt8.ofNat (v % 16 * 16 + w / 4),
    UInt8.ofNat (w % 4 * 64 + x)]

/-- The single octet of two symbols. -/
def oneOctet (offset : Nat) (a b : UInt8) : Except Fault (List UInt8) := do
  let u ← valueAt offset a
  let v ← valueAt (offset + 1) b
  if v % 16 = 0 then pure [UInt8.ofNat (u * 4 + v / 16)]
  else .error (.invalidLastSymbol (offset + 1) b)

/-- The two octets of three symbols. -/
def twoOctets (offset : Nat) (a b c : UInt8) : Except Fault (List UInt8) := do
  let u ← valueAt offset a
  let v ← valueAt (offset + 1) b
  let w ← valueAt (offset + 2) c
  if w % 4 = 0 then
    pure [UInt8.ofNat (u * 4 + v / 16), UInt8.ofNat (v % 16 * 16 + w / 4)]
  else .error (.invalidLastSymbol (offset + 2) c)

/-- The octets of the last group, which may have padding or be cut short. -/
def lastGroup (offset : Nat) : List UInt8 → Except Fault (List UInt8)
  | [] => .ok []
  | [a] => do
    let _ ← valueAt offset a
    .error (.invalidLength (offset + 1))
  | [a, b] => do
    let _ ← valueAt offset a
    let _ ← valueAt (offset + 1) b
    .error .invalidPadding
  | [a, b, c] => do
    let _ ← valueAt offset a
    let _ ← valueAt (offset + 1) b
    if c ≠ pad then
      let _ ← valueAt (offset + 2) c
    .error .invalidPadding
  | a :: b :: c :: d :: _ =>
    if d = pad then
      if c = pad then oneOctet offset a b else twoOctets offset a b c
    else if c = pad then do
      let _ ← valueAt offset a
      let _ ← valueAt (offset + 1) b
      .error (.invalidSymbol (offset + 2) pad)
    else fullGroup offset a b c d

/-- The octets of all groups from an offset on. -/
def groups (offset : Nat) : List UInt8 → Except Fault (List UInt8)
  | a :: b :: c :: d :: e :: rest => do
    let first ← fullGroup offset a b c d
    let others ← groups (offset + 4) (e :: rest)
    pure (first ++ others)
  | tail => lastGroup offset tail

/-- A last octet that belongs to no group and is no symbol. -/
def strayOctet? (text : List UInt8) : Option Fault :=
  if text.length % 4 = 1 then
    text.getLast?.bind fun c =>
      if c ≠ pad ∧ value? c = none then some (.invalidSymbol (text.length - 1) c) else none
  else none

/-- The octets that a text stands for. -/
def decode? (text : List UInt8) : Except Fault (List UInt8) :=
  match strayOctet? text with
  | some fault => .error fault
  | none => groups 0 text

end ConfigVault.Text.Base64
