/-!
# Binary floating-point grids

A binary floating-point format is a finite set of dyadic numbers `m * 2 ^ e`.  The
format fixes how many bits `m` may have and between which bounds `e` lies; nothing
else about it matters here.  Rounding a positive quotient of naturals to a format
is therefore exact integer arithmetic: choose the exponent of the grid the quotient
falls into, divide, and send a half to the even neighbour.

The sign is kept outside.  Both formats below round a number and its negative to
values that are again negatives of each other, so only magnitudes are rounded.
-/

namespace ComHeaders

/-- The magnitude `mantissa * 2 ^ exponent`. -/
structure Dyadic where
  mantissa : Nat
  exponent : Int
  deriving DecidableEq, Repr

namespace Dyadic

/-- The numerator of the magnitude written as a quotient of naturals. -/
def numerator (d : Dyadic) : Nat := d.mantissa * Nat.pow 2 d.exponent.toNat

/-- The denominator of the magnitude written as a quotient of naturals. -/
def denominator (d : Dyadic) : Nat := Nat.pow 2 (-d.exponent).toNat

/-- Two pairs can denote one magnitude, so magnitudes are compared as quotients. -/
def sameMagnitude (a b : Dyadic) : Bool :=
  a.numerator * b.denominator == b.numerator * a.denominator

end Dyadic

/-- The quotient `num / den` rounded to a natural number, a half to the even side. -/
def roundHalfEven (num den : Nat) : Nat :=
  let q := num / den
  let twice := 2 * (num % den)
  if twice < den then q
  else if den < twice then q + 1
  else if q % 2 = 0 then q else q + 1

/-- The quotient `num / den` in units of `2 ^ e`, as a quotient of naturals. -/
def inUnits (num den : Nat) (e : Int) : Nat × Nat :=
  (num * Nat.pow 2 (-e).toNat, den * Nat.pow 2 e.toNat)

/-- The exponent `e` with `2 ^ e ≤ num / den < 2 ^ (e + 1)`, for a positive quotient.
The difference of the bit lengths is that exponent or one more. -/
def floorLog2 (num den : Nat) : Int :=
  let e : Int := (num.log2 : Int) - (den.log2 : Int)
  let (n, d) := inUnits num den e
  if d ≤ n then e else e - 1

/-- What a format fixes: the number of mantissa bits and the bounds of the exponent
of the last bit. -/
structure BinaryFormat where
  precision : Nat
  minExponent : Int
  maxExponent : Int
  deriving DecidableEq, Repr

namespace BinaryFormat

/-- Single precision. -/
def single : BinaryFormat := ⟨24, -149, 104⟩

/-- Double precision. -/
def double : BinaryFormat := ⟨53, -1074, 971⟩

/-- The exponent of the grid on which a positive quotient is rounded: its leading bit
becomes the leading bit of the mantissa, but never below the least exponent. -/
def gridExponent (f : BinaryFormat) (num den : Nat) : Int :=
  max f.minExponent (floorLog2 num den - (f.precision - 1 : Int))

/-- The member of the format nearest to `num / den`, a tie going to the even mantissa,
or nothing when that would lie beyond the largest member. -/
def round (f : BinaryFormat) (num den : Nat) : Option Dyadic :=
  if num = 0 then some ⟨0, f.minExponent⟩
  else
    let e := f.gridExponent num den
    let (n, d) := inUnits num den e
    let m := roundHalfEven n d
    let r : Dyadic := if m < Nat.pow 2 f.precision then ⟨m, e⟩ else ⟨Nat.pow 2 (f.precision - 1), e + 1⟩
    if r.exponent ≤ f.maxExponent then some r else none

/-- A magnitude of one format rounded to another. -/
def roundDyadic (f : BinaryFormat) (d : Dyadic) : Option Dyadic :=
  f.round d.numerator d.denominator

end BinaryFormat

end ComHeaders
