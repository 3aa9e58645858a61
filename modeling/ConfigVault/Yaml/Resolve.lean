import ConfigVault.Number.Binary64

/-!
# What plain text means

Plain text may be null, a boolean, a number or a string (`resolve`).  Numbers are integers in four
radices and decimals; zeros in front of an integer make it a string, so that codes and dates keep
their digits.
-/

namespace ConfigVault.Yaml

/-- The texts that mean null, besides the empty one. -/
def isNullText (s : String) : Bool :=
  s == "null" || s == "Null" || s == "NULL" || s == "~"

/-- The truth value that a text means. -/
def bool? (s : String) : Option Bool :=
  if s == "true" || s == "True" || s == "TRUE" then some true
  else if s == "false" || s == "False" || s == "FALSE" then some false
  else none

/-- The value of a digit in a radix. -/
def radixDigit? (radix : Nat) (c : Char) : Option Nat :=
  let value? :=
    if '0' ≤ c ∧ c ≤ '9' then some (c.toNat - 48)
    else if 'a' ≤ c ∧ c ≤ 'z' then some (c.toNat - 87)
    else if 'A' ≤ c ∧ c ≤ 'Z' then some (c.toNat - 55)
    else none
  value?.filter (· < radix)

/-- The number that digits write in a radix; there must be one. -/
def natural? (radix : Nat) (cs : List Char) : Option Nat :=
  if cs.isEmpty then none
  else cs.foldlM (fun n c => (radixDigit? radix c).map (n * radix + ·)) 0

/-- Two digits or more of which the first is zero. -/
def hasLeadingZero (cs : List Char) : Bool :=
  match cs with
  | '0' :: c :: cs => (c :: cs).all Char.isDigit
  | _ => false

/-- The natural number that text writes, with a radix mark or without. -/
def unsigned? : List Char → Option Nat
  | '0' :: 'x' :: cs => natural? 16 cs
  | '0' :: 'o' :: cs => natural? 8 cs
  | '0' :: 'b' :: cs => natural? 2 cs
  | cs => if hasLeadingZero cs then none else natural? 10 cs

/-- The integer that text writes. -/
def integer? : List Char → Option Int
  | '-' :: cs => (unsigned? cs).map fun n => -(n : Int)
  | '+' :: cs => (unsigned? cs).map Int.ofNat
  | cs => (unsigned? cs).map Int.ofNat

/-- The integers of 64 bits, signed or not. -/
def isNarrow (i : Int) : Bool :=
  -0x8000000000000000 ≤ i && i < 0x10000000000000000

/-- The integers of 128 bits, signed or not. -/
def isWide (i : Int) : Bool :=
  -0x80000000000000000000000000000000 ≤ i && i < 0x100000000000000000000000000000000

/-- The exponent that text writes behind its mark: an optional sign and digits. -/
def exponent? : List Char → Option Int
  | '-' :: cs => (natural? 10 cs).map fun n => -(n : Int)
  | '+' :: cs => (natural? 10 cs).map Int.ofNat
  | cs => (natural? 10 cs).map Int.ofNat

/-- The exponent that the rest of a decimal writes; zero if nothing is left. -/
def optionalExponent? : List Char → Option Int
  | [] => some 0
  | c :: cs => if c == 'e' || c == 'E' then exponent? cs else none

/-- The decimal that text writes without a sign: digits around a point, of which there must be
one, and an exponent. -/
def decimal? (cs : List Char) : Option (Nat × Int) :=
  let whole := cs.takeWhile Char.isDigit
  let rest := cs.dropWhile Char.isDigit
  let (fraction, rest) :=
    match rest with
    | '.' :: rest => (rest.takeWhile Char.isDigit, rest.dropWhile Char.isDigit)
    | rest => ([], rest)
  (natural? 10 (whole ++ fraction)).bind fun digits =>
    (optionalExponent? rest).map fun e => (digits, e - (fraction.length : Int))

/-- The finite number that text writes. -/
def finite? (cs : List Char) : Option Binary64 :=
  match cs with
  | '-' :: cs => (decimal? cs).bind fun (digits, e) => Binary64.ofDecimal? true digits e
  | cs => (decimal? cs).bind fun (digits, e) => Binary64.ofDecimal? false digits e

/-- A sign that may not be followed by another. -/
def withoutPlus? : List Char → Option (List Char)
  | '+' :: '+' :: _ => none
  | '+' :: '-' :: _ => none
  | '+' :: cs => some cs
  | cs => some cs

/-- The floating point number that text writes. -/
def float? (s : String) : Option ExtendedFloat :=
  (withoutPlus? s.toList).bind fun cs =>
    let unsigned := String.ofList cs
    if unsigned == ".inf" || unsigned == ".Inf" || unsigned == ".INF" then some (.infinite false)
    else if s == "-.inf" || s == "-.Inf" || s == "-.INF" then some (.infinite true)
    else if s == ".nan" || s == ".NaN" || s == ".NAN" then some .nan
    else (finite? cs).map .finite

/-- What text without quotes and tag means. -/
inductive Meaning where
  | null
  | bool (b : Bool)
  | int (i : Int)
  | float (x : ExtendedFloat)
  | string
  deriving DecidableEq, Repr

/-- The integer that text means: one of at most 128 bits. -/
def int? (s : String) : Option Int :=
  (integer? s.toList).filter isWide

/-- Digits that a leading zero keeps from being a number. -/
def isDigitString (s : String) : Bool :=
  match s.toList with
  | '-' :: cs => hasLeadingZero cs
  | '+' :: cs => hasLeadingZero cs
  | cs => hasLeadingZero cs

/-- What text means that has neither quotes nor a tag. -/
def resolve (s : String) : Meaning :=
  if s.isEmpty || isNullText s then .null
  else
    match bool? s with
    | some b => .bool b
    | none =>
      match int? s with
      | some i => .int i
      | none =>
        if isDigitString s then .string
        else
          match float? s with
          | some x => .float x
          | none => .string

end ConfigVault.Yaml
