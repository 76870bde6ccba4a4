/-!
# Binary floating point

A double-precision number is held as its 64-bit pattern. This module takes the
pattern apart into sign, significand and exponent, and puts it together again
from an exact quotient by rounding to the nearest pattern, ties to the even
one. All arithmetic on the way is in natural numbers.

* `Binary.isNegative`, `Binary.significand`, `Binary.exponent`: the parts of a
  pattern, whose magnitude is `significand · 2 ^ exponent`;
* `Binary.ofQuotient`: the pattern nearest to a quotient of natural numbers;
* `Binary.rem`: the exact remainder of truncating division.
-/

namespace StoryMachine

/-- A power of ten. -/
def Decimal.pow10 (n : Nat) : Nat := Nat.pow 10 n

namespace Binary

/-- A power of two. -/
def pow2 (n : Nat) : Nat := Nat.pow 2 n

/-- The weight of the leading bit of a significand. -/
def leadingBit : Nat := 0x10000000000000

/-- The sign bit. -/
def signBit : UInt64 := 0x8000000000000000

/-- Positive infinity. -/
def infinity : UInt64 := 0x7FF0000000000000

/-- The pattern of "not a number" that operations produce. -/
def nan : UInt64 := 0x7FF8000000000000

/-- Whether the sign bit is set. -/
def isNegative (bits : UInt64) : Bool := bits &&& signBit != 0

/-- The pattern without its sign. -/
def magnitude (bits : UInt64) : UInt64 := bits &&& ~~~signBit

/-- The pattern with the sign turned round. -/
def negate (bits : UInt64) : UInt64 := bits ^^^ signBit

/-- Whether the pattern is one of "not a number". -/
def isNaN (bits : UInt64) : Bool := magnitude bits > infinity

/-- Whether the pattern is an infinity. -/
def isInfinite (bits : UInt64) : Bool := magnitude bits == infinity

/-- Whether the pattern stands for a real number. -/
def isFinite (bits : UInt64) : Bool := magnitude bits < infinity

/-- The biased exponent field. -/
def exponentField (bits : UInt64) : Nat := ((magnitude bits) >>> 52).toNat

/-- The fraction field. -/
def fractionField (bits : UInt64) : Nat := (bits &&& 0x000FFFFFFFFFFFFF).toNat

/-- The significand of a finite pattern, with its leading bit. -/
def significand (bits : UInt64) : Nat :=
  if exponentField bits = 0 then fractionField bits else fractionField bits + leadingBit

/-- The exponent of a finite pattern, whose magnitude is
    `significand · 2 ^ exponent`. -/
def exponent (bits : UInt64) : Int :=
  if exponentField bits = 0 then -1074 else (exponentField bits : Int) - 1075

/-- Puts a sign on a magnitude. -/
def withSign (negative : Bool) (bits : UInt64) : UInt64 :=
  if negative then bits ||| signBit else bits

/-- The positive pattern of `m · 2 ^ e`, where `m < 2 ^ 53` and `-1074 ≤ e`, and
    `2 ^ 52 ≤ m` unless `e = -1074`; infinity when the exponent is too large. -/
def ofParts (m : Nat) (e : Int) : UInt64 :=
  if m = 0 then 0
  else
    let field := if m < leadingBit then 0 else (e + 1075).toNat
    if 2047 ≤ field then infinity
    else UInt64.ofNat (field * leadingBit + m % leadingBit)

/-- `num / den` rounded to the nearest integer, a half to the even one. -/
def roundDiv (num den : Nat) : Nat :=
  let q := num / den
  let r := num % den
  if 2 * r > den || (2 * r == den && q % 2 == 1) then q + 1 else q

/-- The positive pattern nearest to `num / den`, ties to the even one. -/
def ofQuotient (num den : Nat) : UInt64 :=
  if num = 0 then 0
  else
    -- The quotient lies between `2 ^ (guess + 52)` and `2 ^ (guess + 54)`.
    let guess : Int := (num.log2 : Int) - den.log2 - 53
    let scaled (e : Int) : Nat × Nat := (num * pow2 (-e).toNat, den * pow2 e.toNat)
    let reaches (e : Int) : Bool :=
      let (a, b) := scaled e
      2 * leadingBit * b ≤ a
    let e := max (if reaches guess then guess + 1 else guess) (-1074)
    let (a, b) := scaled e
    let m := roundDiv a b
    if m = 2 * leadingBit then ofParts leadingBit (e + 1) else ofParts m e

/-- The pattern of an integer. -/
def ofInt (n : Int) : UInt64 := withSign (n < 0) (ofQuotient n.natAbs 1)

/-- The integer part of a finite pattern, cut toward zero. -/
def truncate (bits : UInt64) : Int :=
  let m := significand bits
  let e := exponent bits
  let magnitude := m * pow2 e.toNat / pow2 (-e).toNat
  if isNegative bits then -(magnitude : Int) else magnitude

/-- Whether two patterns stand for the same number. Both zeros do, and "not a
    number" stands for none. -/
def eq (a b : UInt64) : Bool :=
  !isNaN a && !isNaN b && (a == b || (magnitude a == 0 && magnitude b == 0))

/-- A whole number that is ordered as the numbers that the patterns stand for. -/
def orderKey (bits : UInt64) : Int :=
  let m : Int := (magnitude bits).toNat
  if isNegative bits then -m else m

/-- The order of the numbers that two patterns stand for. -/
def compare? (a b : UInt64) : Option Ordering :=
  if isNaN a || isNaN b then none else some (compare (orderKey a) (orderKey b))

/-- The exact remainder of dividing `a` by `b` with the quotient cut toward
    zero; it has the sign of `a`. There is none when `a` is infinite, `b` is
    zero, or either is no number. -/
def rem (a b : UInt64) : UInt64 :=
  if isNaN a then a
  else if isNaN b then b
  else if isInfinite a || magnitude b == 0 then nan
  else if isInfinite b then a
  else
    let e := min (exponent a) (exponent b)
    let m := significand a * pow2 (exponent a - e).toNat
    let n := significand b * pow2 (exponent b - e).toNat
    let r := m % n
    withSign (isNegative a) (ofQuotient (r * pow2 e.toNat) (pow2 (-e).toNat))

end Binary

end StoryMachine
