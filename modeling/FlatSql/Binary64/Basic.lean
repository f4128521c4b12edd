/-!
# Binary64 numbers

A floating-point cell is kept as its 64-bit word, so that storing and loading it can be stated about
bits and every NaN payload survives. The numeric reading of the word is given by division and
remainder on natural numbers: a finite word stands for `significand * 2 ^ exponent` with a sign.

Two words are compared through their place on the number line. The places of positive words grow
with the word itself, negative words reflect them, and the two zeros share place 0; a NaN has no
place.

## Main definitions

* `Binary64`: a 64-bit word read as a floating-point number
* `Binary64.significand`, `Binary64.exponent`: the exact value of a finite word
* `Binary64.equals`, `Binary64.compare?`: equality and the partial order of numbers
-/

namespace FlatSql

/-- A floating-point number, kept as its word. Equality of the type is equality of bits, so that
what is loaded can be said to be what was stored. -/
structure Binary64 where
  bits : UInt64
  deriving DecidableEq, Repr, Inhabited

namespace Binary64

/-! ### The fields of a word -/

/-- The word without its sign. Among words that are no NaN it grows with the absolute value. -/
def magnitude (x : Binary64) : Nat := x.bits.toNat % Nat.pow 2 63

/-- Whether the sign bit is set, as it is for one of the zeros and may be for a NaN. -/
def isNegative (x : Binary64) : Bool := Nat.pow 2 63 ≤ x.bits.toNat

/-- The magnitude of both infinities; every larger magnitude is a NaN, and every smaller one a
finite word. -/
def infiniteMagnitude : Nat := 2047 * Nat.pow 2 52

/-- Whether a word is no number. There are many such words, and all of them behave alike. -/
def isNaN (x : Binary64) : Bool := infiniteMagnitude < x.magnitude

/-- Whether a word is one of the two infinities. -/
def isInfinite (x : Binary64) : Bool := x.magnitude = infiniteMagnitude

/-- The eleven bits after the sign bit, as a natural. -/
def exponentField (x : Binary64) : Nat := x.magnitude / Nat.pow 2 52

/-- The fifty-two bits at the end of the word, as a natural. -/
def fractionField (x : Binary64) : Nat := x.magnitude % Nat.pow 2 52

/-- The integer that a finite word scales by a power of two. Normal words have a leading bit that
is not written; subnormal ones have none. -/
def significand (x : Binary64) : Nat :=
  if x.exponentField = 0 then x.fractionField else Nat.pow 2 52 + x.fractionField

/-- The power of two by which a finite word scales its significand. The two least exponent fields
stand for the same power. -/
def exponent (x : Binary64) : Int := (max x.exponentField 1 : Nat) - 1075

/-- The word with the given sign and magnitude. -/
def ofMagnitude (negative : Bool) (magnitude : Nat) : Binary64 :=
  ⟨UInt64.ofNat (if negative then Nat.pow 2 63 + magnitude else magnitude)⟩

/-- The absolute value of a finite word as a quotient of naturals, with which it can be reckoned
exactly. -/
def ratio (x : Binary64) : Nat × Nat :=
  if 0 ≤ x.exponent then (x.significand * Nat.pow 2 x.exponent.toNat, 1)
  else (x.significand, Nat.pow 2 (-x.exponent).toNat)

/-! ### Order

Equality and order of numbers differ from those of words: the two zeros are equal and a NaN is
neither equal to nor ordered with anything, itself included. -/

/-- Place on the number line. It is no measure of distance, only of order. -/
def place (x : Binary64) : Int :=
  if x.isNegative then -(x.magnitude : Int) else x.magnitude

/-- Equality of numbers. It is not reflexive, since a NaN equals nothing, and it holds between
different words for the two zeros. -/
def equals (x y : Binary64) : Bool := !x.isNaN && !y.isNaN && x.place == y.place

/-- The order of numbers, which a NaN has no part in. -/
def compare? (x y : Binary64) : Option Ordering :=
  if x.isNaN || y.isNaN then none else some (compare x.place y.place)

end Binary64

end FlatSql
