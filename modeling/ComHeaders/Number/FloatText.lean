import ComHeaders.Number.Decimal

/-!
# The text of a double

The digits are the shortest that read back.  How they are laid out is a matter of
taste, and the taste is collected in one record: which exponents are written
positionally, and how wide an exponent is otherwise.
-/

namespace ComHeaders

/-- How the digits of a number become text. -/
structure FloatLayout where
  /-- The least exponent of the leading digit that is written positionally. -/
  leastPositional : Int
  /-- The first exponent of the leading digit that is written with an exponent again. -/
  firstScientific : Int
  /-- The least number of digits of a written exponent. -/
  exponentDigits : Nat

namespace FloatLayout

/-- The exponent part: sign, then at least `exponentDigits` digits. -/
def exponentText (l : FloatLayout) (e : Int) : List Char :=
  let ds := decimalDigits e.natAbs
  'e' :: (if e < 0 then '-' else '+') ::
    (List.replicate (l.exponentDigits - ds.length) '0' ++ ds)

/-- A point, then the digits behind it; a number without any keeps one zero there. -/
def pointText (fraction : List Char) : List Char :=
  '.' :: (if fraction.isEmpty then ['0'] else fraction)

/-- Digits with the leading one at `10 ^ e`. -/
def magnitudeText (l : FloatLayout) (ds : List Char) (e : Int) : List Char :=
  if l.leastPositional ≤ e && e < l.firstScientific then
    if e < 0 then
      '0' :: pointText (List.replicate (-e - 1).toNat '0' ++ ds)
    else
      let whole := (e + 1).toNat
      ds.take whole ++ List.replicate (whole - ds.length) '0' ++ pointText (ds.drop whole)
  else
    match ds with
    | [] => l.exponentText e
    | [d] => d :: l.exponentText e
    | d :: rest => d :: '.' :: rest ++ l.exponentText e

end FloatLayout

namespace Double

/-- Numbers from `0.0001` up to `10 ^ 16` are written positionally, all others with an
exponent of at least two digits. -/
def layout : FloatLayout := ⟨-4, 16, 2⟩

/-- The text of a double: the shortest digits that read back, laid out. -/
def text (x : Double) : String :=
  if x.isNaN then "nan"
  else
    let sign := if x.negative then ['-'] else []
    let body :=
      if x.isInfinite then ['i', 'n', 'f']
      else if x.isZero then layout.magnitudeText ['0'] 0
      else
        let d := BinaryFormat.double.shortest x.magnitude
        layout.magnitudeText (decimalDigits d.coefficient) d.leadingExponent
    String.ofList (sign ++ body)

end Double

end ComHeaders
