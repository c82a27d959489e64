import EffectMachine.Binary64.Basic

/-!
# The shortest decimal text of a binary number

The text of a finite number has the fewest significant digits that read back as that number, of
those the nearest to it, and never an exponent.  All arithmetic is exact, on natural numbers: the number
and the two ends of the interval that rounds to it are counted in quarters of its last place.
-/

namespace EffectMachine
namespace Binary64

/-- The significand of a finite number's magnitude. -/
def significand (x : Binary64) : Nat :=
  if x.exponentBits = 0 then x.fractionBits else binaryUnit 52 + x.fractionBits

/-- The exponent that belongs to `significand`: the magnitude is `significand * 2 ^ scale`. -/
def scale (x : Binary64) : Int :=
  if x.exponentBits = 0 then -1074 else (x.exponentBits : Int) - 1075

/-- A power of ten. -/
def decimalUnit (n : Nat) : Nat :=
  Nat.pow 10 n

/-- A magnitude and the interval of real numbers that round to it, as numerators over one common
denominator. -/
structure Neighbourhood where
  lower : Nat
  value : Nat
  upper : Nat
  denominator : Nat
  closed : Bool

/-- The neighbourhood of a finite, non-zero number.  The gap below a power of two is half as wide as the
gap above it, and the ends belong to the interval when the significand is even. -/
def neighbourhood (x : Binary64) : Neighbourhood :=
  let m := x.significand
  let quarter := x.scale - 2
  let up := if 0 ≤ quarter then binaryUnit quarter.toNat else 1
  let narrow := x.fractionBits = 0 && 1 < x.exponentBits
  { lower := (if narrow then 4 * m - 1 else 4 * m - 2) * up
    value := 4 * m * up
    upper := (4 * m + 2) * up
    denominator := if 0 ≤ quarter then 1 else binaryUnit (-quarter).toNat
    closed := m % 2 = 0 }

/-- A decimal number `digits * 10 ^ exponent`. -/
structure Decimal where
  digits : Nat
  exponent : Int

namespace Neighbourhood

/-- The position of the leading decimal digit: the value is at least `10 ^ (magnitude - 1)` and below
`10 ^ magnitude`. -/
def magnitude (n : Neighbourhood) : Int :=
  let whole := n.value / n.denominator
  if whole ≠ 0 then (Nat.toDigits 10 whole).length
  else
    match (List.range 400).find? fun j => n.denominator ≤ n.value * decimalUnit (j + 1) with
    | some j => -(j : Int)
    | none => 0

/-- The grid of the multiples of `10 ^ exponent`, seen from the value: the interval and the value as
numerators over a denominator that makes one grid step equal to one. -/
def onGrid (n : Neighbourhood) (exponent : Int) : Neighbourhood :=
  let up := if exponent < 0 then decimalUnit (-exponent).toNat else 1
  let down := if 0 ≤ exponent then decimalUnit exponent.toNat else 1
  { n with
    lower := n.lower * up
    value := n.value * up
    upper := n.upper * up
    denominator := n.denominator * down }

/-- Whether a grid point reads back as the value. -/
def holds (n : Neighbourhood) (point : Nat) : Bool :=
  let place := point * n.denominator
  if n.closed then n.lower ≤ place && place ≤ n.upper
  else n.lower < place && place < n.upper

/-- The nearest of the value's two neighbours on the grid that reads back as the value; of two equally
near ones the larger. -/
def nearest? (n : Neighbourhood) : Option Nat :=
  let below := n.value / n.denominator
  let above := below + 1
  match n.holds below, n.holds above with
  | true, true =>
    if n.value - below * n.denominator < above * n.denominator - n.value then some below
    else some above
  | true, false => some below
  | false, true => some above
  | false, false => none

/-- The first count of digits, from the fewest on, whose grid has a point that reads back. -/
def shortest (n : Neighbourhood) : Decimal :=
  let found := (List.range 17).findSome? fun count =>
    let exponent := n.magnitude - (count + 1 : Nat)
    ((n.onGrid exponent).nearest?).map fun digits => ({ digits, exponent } : Decimal)
  found.getD { digits := 0, exponent := 0 }

end Neighbourhood

/-- A decimal number in positional notation, without trailing zeros after the point. -/
def Decimal.positional (d : Decimal) : String :=
  let digits := Nat.toDigits 10 d.digits
  if 0 ≤ d.exponent then
    String.ofList (digits ++ List.replicate d.exponent.toNat '0')
  else
    let places := (-d.exponent).toNat
    let padded := List.replicate (places + 1 - digits.length) '0' ++ digits
    let whole := padded.take (padded.length - places)
    let rest := (padded.drop (padded.length - places)).reverse.dropWhile (· = '0')
    if rest.isEmpty then String.ofList whole
    else String.ofList (whole ++ '.' :: rest.reverse)

/-- The text of a number. -/
def text (x : Binary64) : String :=
  if x.isNaN then "NaN"
  else
    let magnitude :=
      if x.isInfinite then "inf"
      else if x.isZero then "0"
      else x.neighbourhood.shortest.positional
    if x.negative then "-" ++ magnitude else magnitude

end Binary64
end EffectMachine
