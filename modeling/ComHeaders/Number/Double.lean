import ComHeaders.Number.Binary

/-!
# Double-precision values

A double is kept as its 64 bits: a sign, eleven bits of biased exponent and
fifty-two bits of fraction.  Keeping the bits, and not a machine float, makes
equality decidable and every reading of the value a computation on naturals.

The three shapes are told apart by the exponent field: all ones is an infinity or a
not-a-number, anything else is the magnitude `significand * 2 ^ e`.
-/

namespace ComHeaders

/-- A double-precision value, as its bits. -/
structure Double where
  bits : UInt64
  deriving DecidableEq, Repr

namespace Double

/-- What the highest bit counts. -/
def signBit : Nat := 0x8000000000000000

/-- What the bit above the fraction counts, which the mantissa of most values has and their
bits leave out. -/
def hiddenBit : Nat := 0x10000000000000

/-- Whether the sign bit is set. -/
def negative (x : Double) : Bool := signBit ≤ x.bits.toNat

/-- The eleven exponent bits. -/
def exponentField (x : Double) : Nat := x.bits.toNat / hiddenBit % 0x800

/-- The fifty-two fraction bits. -/
def fraction (x : Double) : Nat := x.bits.toNat % hiddenBit

/-- Finite values are those whose exponent field is not all ones. -/
def isFinite (x : Double) : Bool := x.exponentField != 2047

def isNaN (x : Double) : Bool := x.exponentField == 2047 && x.fraction != 0

def isInfinite (x : Double) : Bool := x.exponentField == 2047 && x.fraction == 0

/-- Both zeros. -/
def isZero (x : Double) : Bool := x.exponentField == 0 && x.fraction == 0

/-- The magnitude of a finite value.  Without exponent bits the leading bit is absent
and the exponent is the least one. -/
def magnitude (x : Double) : Dyadic :=
  if x.exponentField = 0 then ⟨x.fraction, -1074⟩
  else ⟨x.fraction + hiddenBit, (x.exponentField : Int) - 1075⟩

/-- The double with a sign, an exponent field and a fraction. -/
def ofFields (negative : Bool) (exponentField fraction : Nat) : Double :=
  ⟨UInt64.ofNat ((if negative then signBit else 0) + exponentField * hiddenBit + fraction)⟩

/-- The double with a sign and a magnitude of double precision, as `BinaryFormat.round`
returns it. -/
def ofMagnitude (negative : Bool) (d : Dyadic) : Double :=
  if d.mantissa < hiddenBit then ofFields negative 0 d.mantissa
  else ofFields negative (d.exponent + 1075).toNat (d.mantissa - hiddenBit)

/-- Infinity of either sign. -/
def infinity (negative : Bool) : Double := ofFields negative 2047 0

/-- The quiet not-a-number of either sign. -/
def nan (negative : Bool) : Double := ofFields negative 2047 (hiddenBit / 2)

def zero : Double := ofFields false 0 0

/-- The double nearest to a signed quotient; beyond the largest one, an infinity. -/
def ofQuotient (negative : Bool) (num den : Nat) : Double :=
  match BinaryFormat.double.round num den with
  | some d => ofMagnitude negative d
  | none => infinity negative

/-- The double nearest to an integer, if the integer is not beyond all of them. -/
def ofInt? (i : Int) : Option Double :=
  (BinaryFormat.double.round i.natAbs 1).map (ofMagnitude (i < 0))

/-- The integer part of a finite value, toward zero. -/
def truncate (x : Double) : Int :=
  let d := x.magnitude
  let n : Int := (d.numerator / d.denominator : Nat)
  if x.negative then -n else n

/-- Whether a finite value is the given integer. -/
def eqInt (x : Double) (i : Int) : Bool :=
  let d := x.magnitude
  x.isFinite && d.numerator % d.denominator == 0 && x.truncate == i

/-- Equality of values: the two zeros are equal and a not-a-number equals nothing. -/
def valueEq (x y : Double) : Bool :=
  !x.isNaN && (x == y || (x.isZero && y.isZero))

/-- Order of values: false as soon as a not-a-number takes part. -/
def valueLt (x y : Double) : Bool :=
  if x.isNaN || y.isNaN then false
  else if x.isZero && y.isZero then false
  else match x.negative, y.negative with
    | true, false => true
    | false, true => false
    | false, false => x.bits < y.bits
    | true, true => y.bits < x.bits

end Double

end ComHeaders
