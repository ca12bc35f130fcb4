import ComHeaders.Number.Double

/-!
# Decimals beside binary values

A decimal is a coefficient and a power of ten.  Three questions about decimals and
binary values are answered here, all in exact integer arithmetic.

* Which double does a decimal denote?  The nearest one (`Decimal.toDouble`).
* Which decimal of `n` significant digits is nearest to a quotient?
  (`Decimal.significant`)
* Which is the shortest decimal that still denotes a given binary value?
  (`BinaryFormat.shortest`)

## Why looking at two neighbours is enough

The reals that round to a given member of a format form an interval around it.  If
some point of a decimal grid lies in the interval, then so does the grid neighbour
of the member on the same side.  So on each grid only the two neighbours of the value
have to be tried, coarsest grid first; and seventeen digits always suffice for double
precision.
-/

namespace ComHeaders

/-- The number `coefficient * 10 ^ exponent`. -/
structure Decimal where
  coefficient : Nat
  exponent : Int
  deriving DecidableEq, Repr

/-- The quotient `num / den` in units of `10 ^ e`, as a quotient of naturals. -/
def inTens (num den : Nat) (e : Int) : Nat × Nat :=
  (num * Nat.pow 10 (-e).toNat, den * Nat.pow 10 e.toNat)

/-- The decimal digits of a natural number. -/
def decimalDigits (n : Nat) : List Char := Nat.toDigits 10 n

/-- The exponent `e` with `10 ^ e ≤ num / den < 10 ^ (e + 1)`, for a positive quotient. -/
def floorLog10 (num den : Nat) : Int :=
  let e : Int := ((decimalDigits num).length : Int) - ((decimalDigits den).length : Int)
  let (n, d) := inTens num den e
  if d ≤ n then e else e - 1

namespace Decimal

def numerator (d : Decimal) : Nat := d.coefficient * Nat.pow 10 d.exponent.toNat

def denominator (d : Decimal) : Nat := Nat.pow 10 (-d.exponent).toNat

/-- The decimal of `n` significant digits nearest to a positive quotient, a tie going to
the even last digit.  Rounding up to the next power of ten keeps the number of digits. -/
def significant (n num den : Nat) : Decimal :=
  if num = 0 then ⟨0, 0⟩
  else
    let e := floorLog10 num den - (n : Int) + 1
    let (a, b) := inTens num den e
    let c := roundHalfEven a b
    if c < Nat.pow 10 n then ⟨c, e⟩ else ⟨Nat.pow 10 (n - 1), e + 1⟩

/-- The double nearest to a decimal.  Exponents far outside the range of doubles are
settled by the position of the leading digit, before any power of ten is formed. -/
def toDouble (negative : Bool) (d : Decimal) : Double :=
  let leading : Int := (decimalDigits d.coefficient).length + d.exponent
  if d.coefficient = 0 || leading < -330 then Double.ofFields negative 0 0
  else if 330 < leading then Double.infinity negative
  else Double.ofQuotient negative d.numerator d.denominator

/-- The same number with the zeros at the end of the coefficient moved into the exponent. -/
def trimZeros (d : Decimal) : Decimal :=
  let zeros := ((decimalDigits d.coefficient).reverse.takeWhile (· == '0')).length
  if d.coefficient = 0 then ⟨0, 0⟩
  else ⟨d.coefficient / Nat.pow 10 zeros, d.exponent + zeros⟩

/-- The decimal exponent of the leading digit. -/
def leadingExponent (d : Decimal) : Int :=
  (decimalDigits d.coefficient).length + d.exponent - 1

end Decimal

namespace BinaryFormat

/-- Whether a decimal rounds to the given member of the format. -/
def readsBack (f : BinaryFormat) (d : Dyadic) (c : Decimal) : Bool :=
  match f.round c.numerator c.denominator with
  | some r => r.sameMagnitude d
  | none => false

/-- The better of the two neighbours of a member on the grid of `10 ^ e`, if one of them
reads back.  Of two that do, the nearer is taken, of equally near ones the even one. -/
def neighbour? (f : BinaryFormat) (d : Dyadic) (e : Int) : Option Decimal :=
  let (a, b) := inTens d.numerator d.denominator e
  let below : Decimal := ⟨a / b, e⟩
  let above : Decimal := ⟨a / b + 1, e⟩
  match f.readsBack d below, f.readsBack d above with
  | true, true => some (if roundHalfEven a b = a / b then below else above)
  | true, false => some below
  | false, true => some above
  | false, false => none

/-- The shortest decimal that reads back to a positive member of the format, among those
of equal length the nearest.  Grids are tried from one digit to seventeen. -/
def shortest (f : BinaryFormat) (d : Dyadic) : Decimal :=
  let k := floorLog10 d.numerator d.denominator
  match (List.range 17).findSome? fun (i : Nat) => f.neighbour? d (k - (i : Int)) with
  | some c => c.trimZeros
  | none => (Decimal.significant 17 d.numerator d.denominator).trimZeros

end BinaryFormat

end ComHeaders
