/-!
# Binary floating point

The finite numbers of the 64-bit binary format, each as `± significand · 2 ^ exponent` in its one
normal form: the significand is below `2 ^ 53`, and below `2 ^ 52` only for the least exponent.
`ofRatio?` rounds a positive ratio to the nearest such number, ties to an even significand, and
`ofDecimal?` does so for a decimal.  Both work in exact arithmetic on natural numbers.
-/

namespace ConfigVault

/-- A finite number of the 64-bit binary format. -/
structure Binary64 where
  negative : Bool
  significand : Nat
  exponent : Int
  deriving DecidableEq, Repr

namespace Binary64

/-- The least exponent. -/
def minExponent : Int := -1074

/-- The greatest exponent. -/
def maxExponent : Int := 971

/-- Zero, with a sign. -/
def zero (negative : Bool) : Binary64 := ⟨negative, 0, minExponent⟩

/-- The number is zero. -/
def isZero (x : Binary64) : Bool := x.significand == 0

/-- `base ^ e` for a nonnegative exponent, and 1 for a negative one. -/
def upper (base : Nat) (e : Int) : Nat := base.pow e.toNat

/-- `base ^ (-e)` for a negative exponent, and 1 for a nonnegative one. -/
def lower (base : Nat) (e : Int) : Nat := base.pow (-e).toNat

/-- A quotient rounded to the nearest integer, ties to the even one. -/
def roundQuotient (num den : Nat) : Nat :=
  let q := num / den
  let twice := 2 * (num % den)
  if den < twice ∨ (twice = den ∧ q % 2 = 1) then q + 1 else q

/-- The exponent that leaves a ratio a significand below `2 ^ 53`, not below the least one. -/
def exponentOf (num den : Nat) : Int :=
  let e := max ((Nat.log2 num : Int) - Nat.log2 den - 53) minExponent
  if Nat.pow 2 53 ≤ num * lower 2 e / (den * upper 2 e) then e + 1 else e

/-- The number nearest to a positive ratio, or none if the ratio is too great. -/
def ofRatio? (negative : Bool) (num den : Nat) : Option Binary64 :=
  let e := exponentOf num den
  let m := roundQuotient (num * lower 2 e) (den * upper 2 e)
  let x : Binary64 := if m = Nat.pow 2 53 then ⟨negative, Nat.pow 2 52, e + 1⟩ else ⟨negative, m, e⟩
  if maxExponent < x.exponent then none else some x

/-- The number nearest to the decimal `digits · 10 ^ e`, or none if it is too great.  Decimals far
outside the format's range are decided by their size alone. -/
def ofDecimal? (negative : Bool) (digits : Nat) (e : Int) : Option Binary64 :=
  let size := e + (Nat.repr digits).length
  if digits = 0 ∨ size < -400 then some (zero negative)
  else if 400 < size then none
  else ofRatio? negative (digits * upper 10 e) (lower 10 e)

end Binary64

/-- A number of the 64-bit binary format that may be infinite or no number at all. -/
inductive ExtendedFloat where
  | finite (x : Binary64)
  | infinite (negative : Bool)
  | nan
  deriving DecidableEq, Repr

end ConfigVault
