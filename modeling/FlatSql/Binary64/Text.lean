import FlatSql.Binary64.Conversion

/-!
# Writing numbers

Two forms are written. The shortest form has the fewest significant digits that read back to the
same word, and of those the nearest to the exact value; it is positional at every size. The fixed
form has a given number of places, the last one rounded half to even.

The shortest form is searched on decimal grids. The numbers that round to a word form an interval,
whose ends belong to it when the significand is even. For one digit, two digits and so on up to
seventeen, the two grid points next to the exact value are tested against that interval.

## Main definitions

* `Decimal`: a natural times a power of ten
* `Binary64.shortest`: the shortest decimal that reads back
* `Binary64.toText`, `Binary64.toFixedText`: the two written forms
-/

namespace FlatSql

/-- The number `digits * 10 ^ power`. The digits may end in zeros, so one number has several forms.
-/
structure Decimal where
  digits : Nat
  power : Int
  deriving DecidableEq, Repr

namespace Decimal

/-- The decimal digits of a natural, with zeros in front up to `width`. A longer numeral stays as it
is. -/
def paddedDigits (width n : Nat) : List Char :=
  let ds := Nat.toDigits 10 n
  List.replicate (width - ds.length) '0' ++ ds

/-- Drops the zeros at the end, which stand behind a point and mean nothing there. -/
def dropTrailingZeros (cs : List Char) : List Char :=
  (cs.reverse.dropWhile (· = '0')).reverse

/-- Whole part and, after a point, the places that are not zero to the end. Without such a place
there is no point either. -/
def toText (d : Decimal) : List Char :=
  if 0 ≤ d.power then Nat.toDigits 10 (d.digits * Nat.pow 10 d.power.toNat)
  else
    let places := (-d.power).toNat
    let whole := Nat.toDigits 10 (d.digits / Nat.pow 10 places)
    let fraction := dropTrailingZeros (paddedDigits places (d.digits % Nat.pow 10 places))
    if fraction.isEmpty then whole else whole ++ '.' :: fraction

end Decimal

namespace Binary64

/-! ### Shortest decimal -/

/-- The exact value of a word and the ends of the interval that rounds to it, as numerators over
one denominator. -/
structure Interval where
  low : Nat
  value : Nat
  high : Nat
  den : Nat
  /-- Whether the ends round to the word too. -/
  closed : Bool

/-- The interval of a finite word other than zero. The step below a power of two is half the step
above it, except at the least exponent. -/
def interval (x : Binary64) : Interval :=
  let m := x.significand
  let below := if x.fractionField = 0 && 1 < x.exponentField then 1 else 2
  let e := x.exponent - 2
  let up := if 0 ≤ e then Nat.pow 2 e.toNat else 1
  { low := (4 * m - below) * up
    value := 4 * m * up
    high := (4 * m + 2) * up
    den := if 0 ≤ e then 1 else Nat.pow 2 (-e).toNat
    closed := m % 2 = 0 }

/-- How many decimal digits a natural has; zero has none, unlike in its numeral. -/
def digitCount (n : Nat) : Nat := if n = 0 then 0 else (Nat.toDigits 10 n).length

/-- The power `k` with `10 ^ (k - 1) ≤ num / den < 10 ^ k`, for a quotient other than zero. It is
where the first digit stands. -/
def decimalPower (num den : Nat) : Int :=
  if den ≤ num then digitCount (num / den)
  else 1 - (digitCount ((den - 1) / num) : Int)

/-- The grid point of step `10 ^ power` that reads back, if one of the value's two neighbours does:
the nearer of the two, the upper one when they are equally near. -/
def Interval.gridPoint? (i : Interval) (power : Int) : Option Decimal :=
  let scale := if 0 ≤ power then 1 else Nat.pow 10 (-power).toNat
  let step := if 0 ≤ power then i.den * Nat.pow 10 power.toNat else i.den
  let value := i.value * scale
  let d := value / step
  let lowerFits :=
    if i.closed then i.low * scale ≤ d * step else i.low * scale < d * step
  let upperFits :=
    if i.closed then (d + 1) * step ≤ i.high * scale else (d + 1) * step < i.high * scale
  let lowerNearer := 2 * (value - d * step) < step
  if lowerFits && (lowerNearer || !upperFits) then some ⟨d, power⟩
  else if upperFits then some ⟨d + 1, power⟩
  else none

/-- The shortest decimal that reads back to a finite word, without its sign. Seventeen digits always
suffice, so the search ends. -/
def shortest (x : Binary64) : Decimal :=
  if x.significand = 0 then ⟨0, 0⟩
  else
    let i := x.interval
    let k := decimalPower i.value i.den
    let hit := (List.range 17).findSome? fun (n : Nat) => i.gridPoint? (k - 1 - n)
    hit.getD ⟨i.value / i.den, 0⟩

/-! ### Written forms -/

/-- What all written forms share: a minus for a set sign bit, and words for what is not finite. A
NaN is written without a sign. -/
def signedText (x : Binary64) (finite : List Char) : String :=
  if x.isNaN then "NaN"
  else
    let body := if x.isInfinite then "inf".toList else finite
    String.ofList (if x.isNegative then '-' :: body else body)

/-- The shortest text that reads back, positional at every size: there is never a power of ten in
it. -/
def toText (x : Binary64) : String := x.signedText x.shortest.toText

/-- The text with exactly `places` digits after the point, the last of them rounded from the exact
value. -/
def toFixedText (places : Nat) (x : Binary64) : String :=
  let (num, den) := x.ratio
  let q := roundHalfEven (num * Nat.pow 10 places) den
  let whole := Nat.toDigits 10 (q / Nat.pow 10 places)
  x.signedText (whole ++ '.' :: Decimal.paddedDigits places (q % Nat.pow 10 places))

end Binary64

end FlatSql
