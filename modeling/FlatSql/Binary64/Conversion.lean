import FlatSql.Binary64.Basic
import FlatSql.Text.Basic

/-!
# Numbers from quotients and from text

A quotient of naturals is scaled by a power of two until its whole part has 53 bits, or as far as
the smallest exponent allows, and the whole part is then rounded to nearest with halves going to
the even neighbour. Packing adds the rounded significand to the exponent's place, so a carry out of
the significand moves to the next exponent by itself, and out of the last exponent to infinity.

A decimal numeral has an optional sign, digits with at most one point, at least one digit on either
side of it, and an optional power of ten. It stands for the word nearest to its exact value, and so
is read as a quotient.

The other way, a number is cut toward zero and kept within the 64-bit signed integers.

## Main definitions

* `roundHalfEven`: a quotient rounded to the nearest natural
* `Binary64.ofRatio`: a quotient rounded to the nearest word
* `Binary64.ofText?`: the word of a decimal numeral
* `Binary64.toWhole`: the whole part of a number
-/

namespace FlatSql

/-! ### Rounding -/

/-- The natural nearest to `num / den`; halves go to the even neighbour. -/
def roundHalfEven (num den : Nat) : Nat :=
  let q := num / den
  let r := num % den
  if den < 2 * r || (2 * r = den && q % 2 = 1) then q + 1 else q

namespace Binary64

/-- `num / den` scaled by `2 ^ (-e)`, again as a quotient. -/
def scaleRatio (num den : Nat) (e : Int) : Nat × Nat :=
  if 0 ≤ e then (num, den * Nat.pow 2 e.toNat) else (num * Nat.pow 2 (-e).toNat, den)

/-- The least exponent of a finite word. -/
def leastExponent : Int := -1074

/-- The exponent at which the significand of `num / den` has 53 bits, or the least one. The numbers
of bits determine it up to one, so one guess is tested. -/
def exponentFor (num den : Nat) : Int :=
  let guess : Int := (num.log2 : Int) - den.log2 - 52
  let (n, d) := scaleRatio num den guess
  max leastExponent (if n < d * Nat.pow 2 52 then guess - 1 else guess)

/-- The word nearest to `num / den` with the given sign; a quotient past the largest finite word by
half a step or more is infinite. -/
def ofRatio (negative : Bool) (num den : Nat) : Binary64 :=
  if num = 0 then ofMagnitude negative 0
  else
    let e := exponentFor num den
    let (n, d) := scaleRatio num den e
    let packed := (e - leastExponent).toNat * Nat.pow 2 52 + roundHalfEven n d
    ofMagnitude negative (min packed infiniteMagnitude)

/-! ### Reading decimal text -/

/-- The word nearest to `digits * 10 ^ power`. Every power outside the range of finite words leads
to zero or infinity, and is not computed. -/
def ofDecimal (negative : Bool) (digits : Nat) (power : Int) : Binary64 :=
  let size : Int := (Nat.toDigits 10 digits).length
  if digits = 0 || size + power < -330 then ofMagnitude negative 0
  else if 310 < size + power then ofMagnitude negative infiniteMagnitude
  else if 0 ≤ power then ofRatio negative (digits * Nat.pow 10 power.toNat) 1
  else ofRatio negative digits (Nat.pow 10 (-power).toNat)

/-- The power of ten written after the digits; nothing written is power 0. -/
def powerOfText? : List Char → Option Int
  | [] => some 0
  | c :: cs =>
    if c = 'e' || c = 'E' then
      let (negative, ds) := takeSign cs
      if ds.isEmpty || !ds.all Char.isDigit then none
      else some (if negative then -(digitsValue ds : Int) else digitsValue ds)
    else none

/-- Reads a decimal numeral such as `-12.5e3`, `.5` or `7.`. -/
def ofText? (cs : List Char) : Option Binary64 :=
  let (negative, body) := takeSign cs
  let whole := body.takeWhile Char.isDigit
  let rest := body.dropWhile Char.isDigit
  let (fraction, tail) :=
    match rest with
    | '.' :: more => (more.takeWhile Char.isDigit, more.dropWhile Char.isDigit)
    | _ => ([], rest)
  if whole.isEmpty && fraction.isEmpty then none
  else (powerOfText? tail).map fun power =>
    ofDecimal negative (digitsValue (whole ++ fraction)) (power - fraction.length)

/-! ### Whole parts -/

/-- The whole part, cut toward zero and limited to the 64-bit signed integers. A NaN has none and
becomes zero. -/
def toWhole (x : Binary64) : Int :=
  if x.isNaN then 0
  else
    let (num, den) := x.ratio
    let size : Nat := if x.isInfinite then Nat.pow 2 63 else num / den
    if x.isNegative then -(min size (Nat.pow 2 63) : Nat) else (min size (Nat.pow 2 63 - 1) : Nat)

end Binary64

end FlatSql
