import ConfigVault.Number.Binary64

/-!
# The shortest decimal

A floating point number is written with the fewest digits that read back as the same number
(`Binary64.shortest`).  Every number has an interval of reals that round to it, ends included if
its significand is even.  For one digit, two digits and so on, the two decimals next to the number
on that grid are tried; the first grid with a hit wins, and of two hits the nearer one.

Two layouts are in use.  `Binary64.text` is for data: positional where the point falls within
sixteen digits or up to five places before them, with an exponent elsewhere, and always marked as
no integer.  `Binary64.plainText` is for messages and never uses an exponent.
-/

namespace ConfigVault

/-- The decimal `digits · 10 ^ exponent`. -/
structure Decimal where
  digits : Nat
  exponent : Int
  deriving DecidableEq, Repr

namespace Decimal

/-- The same decimal without zeros at the end of its digits. -/
def trimmed : (fuel : Nat) → Decimal → Decimal
  | 0, d => d
  | fuel + 1, d =>
    if d.digits ≠ 0 ∧ d.digits % 10 = 0 then trimmed fuel ⟨d.digits / 10, d.exponent + 1⟩ else d

end Decimal

namespace Binary64

/-- Compares `a · 10 ^ p` with `b · 2 ^ q`. -/
def compareScaled (a : Nat) (p : Int) (b : Nat) (q : Int) : Ordering :=
  compare (a * upper 10 p * lower 2 q) (b * upper 2 q * lower 10 p)

/-- The lower end of the reals that round to a number, in quarters of its last place: half a place
away, or a quarter below a power of two. -/
def lowEnd (x : Binary64) : Nat :=
  if x.significand = Nat.pow 2 52 ∧ minExponent < x.exponent then 4 * x.significand - 1
  else 4 * x.significand - 2

/-- The upper end of the reals that round to a number, in quarters of its last place. -/
def highEnd (x : Binary64) : Nat := 4 * x.significand + 2

/-- The decimal `a · 10 ^ p` reads back as the number, its sign apart. -/
def readsBack (x : Binary64) (a : Nat) (p : Int) : Bool :=
  let q := x.exponent - 2
  let low := compareScaled a p x.lowEnd q
  let high := compareScaled a p x.highEnd q
  let even := x.significand % 2 == 0
  (low == .gt || (even && low == .eq)) && (high == .lt || (even && high == .eq))

/-- The exponent of a nonzero number's leading decimal digit. -/
def leadingExponent (x : Binary64) : Int :=
  let scaled := x.significand * upper 2 x.exponent * upper 10 340 / lower 2 x.exponent
  (Nat.repr scaled).length - 341

/-- A number, its sign apart, as a ratio in units of `10 ^ p`. -/
def ratio (x : Binary64) (p : Int) : Nat × Nat :=
  (x.significand * upper 2 x.exponent * lower 10 p, lower 2 x.exponent * upper 10 p)

/-- The nearest decimal on the grid of `10 ^ p`. -/
def nearest (x : Binary64) (p : Int) : Decimal :=
  ⟨roundQuotient (x.ratio p).1 (x.ratio p).2, p⟩

/-- The decimal next to a number on the grid of `10 ^ p` that reads back, if one does. -/
def onGrid? (x : Binary64) (p : Int) : Option Decimal :=
  let a := (x.ratio p).1 / (x.ratio p).2
  match x.readsBack a p, x.readsBack (a + 1) p with
  | true, false => some ⟨a, p⟩
  | false, true => some ⟨a + 1, p⟩
  | true, true => some (x.nearest p)
  | false, false => none

/-- The shortest decimal that reads back as the number, its sign apart. -/
def shortest (x : Binary64) : Decimal :=
  if x.isZero then ⟨0, 0⟩
  else
    let e := x.leadingExponent
    let found := (List.range 17).findSome? fun (n : Nat) => x.onGrid? (e - n)
    (found.getD (x.nearest (e - 16))).trimmed 20

/-- As many zeros. -/
def zeros (n : Nat) : List Char := List.replicate n '0'

/-- The sign in front of a number. -/
def signText (x : Binary64) : List Char := if x.negative then ['-'] else []

/-- Digits with a point behind the first `point` of them, or in front of zeros before them. -/
def positional (digits : List Char) (exponent : Int) : List Char :=
  let point : Int := digits.length + exponent
  if 0 ≤ exponent then digits ++ zeros exponent.toNat ++ ['.', '0']
  else if 0 < point then digits.take point.toNat ++ '.' :: digits.drop point.toNat
  else '0' :: '.' :: zeros (-point).toNat ++ digits

/-- Digits with a point behind the first and an exponent, which may have a plus sign. -/
def scientific (plus : Bool) (digits : List Char) (exponent : Int) : List Char :=
  let n := (digits.length : Int) + exponent - 1
  let e := (if plus && 0 ≤ n then ['+'] else []) ++ (toString n).toList
  match digits with
  | [d] => d :: 'e' :: e
  | d :: ds => d :: '.' :: ds ++ 'e' :: e
  | [] => 'e' :: e

/-- The text of a number in data, in which an exponent may have a plus sign. -/
def dataText (plus : Bool) (x : Binary64) : List Char :=
  let d := x.shortest
  let digits := (Nat.repr d.digits).toList
  let point : Int := digits.length + d.exponent
  x.signText ++
    if point ≤ 16 ∧ -5 < point then positional digits d.exponent
    else scientific plus digits d.exponent

/-- The text of a number in YAML. -/
def text (x : Binary64) : List Char := dataText false x

/-- The text of a number in JSON. -/
def jsonText (x : Binary64) : List Char := dataText true x

/-- The text of a number in messages. -/
def plainText (x : Binary64) : List Char :=
  let d := x.shortest
  x.signText ++ positional (Nat.repr d.digits).toList d.exponent

end Binary64

end ConfigVault
