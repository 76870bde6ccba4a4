import StoryMachine.Decimal.Binary

/-!
# Floating-point arithmetic

Sum, difference, product and quotient of patterns. The exact result is worked out
as a fraction of whole numbers and rounded once.

* `Binary.fraction`: the number that a finite pattern stands for;
* `Binary.add`, `Binary.sub`, `Binary.mul`, `Binary.div`: the operations.
-/

namespace StoryMachine.Binary

/-- The magnitude of a finite pattern as a fraction of natural numbers. -/
def fraction (bits : UInt64) : Nat × Nat :=
  let e := exponent bits
  (significand bits * pow2 e.toNat, pow2 (-e).toNat)

/-- A natural number with the sign of a pattern. -/
def signed (bits : UInt64) (n : Nat) : Int := if isNegative bits then -(n : Int) else n

/-- The sum of two finite patterns. A sum of nothing is positive unless both are
    negative. -/
def addFinite (a b : UInt64) : UInt64 :=
  let (m, k) := fraction a
  let (n, l) := fraction b
  let sum := signed a (m * l) + signed b (n * k)
  if sum = 0 then withSign (isNegative a && isNegative b) 0
  else withSign (sum < 0) (ofQuotient sum.natAbs (k * l))

/-- The sum of two patterns. -/
def add (a b : UInt64) : UInt64 :=
  if isNaN a || isNaN b then nan
  else if isInfinite a then if isInfinite b && a != b then nan else a
  else if isInfinite b then b
  else addFinite a b

/-- The difference of two patterns. -/
def sub (a b : UInt64) : UInt64 := add a (negate b)

/-- Whether the product or quotient of two patterns is negative. -/
def differInSign (a b : UInt64) : Bool := isNegative a != isNegative b

/-- The product of two patterns. -/
def mul (a b : UInt64) : UInt64 :=
  if isNaN a || isNaN b then nan
  else if isInfinite a || isInfinite b then
    if magnitude a == 0 || magnitude b == 0 then nan else withSign (differInSign a b) infinity
  else
    let (m, k) := fraction a
    let (n, l) := fraction b
    withSign (differInSign a b) (ofQuotient (m * n) (k * l))

/-- The quotient of two patterns. -/
def div (a b : UInt64) : UInt64 :=
  if isNaN a || isNaN b then nan
  else if isInfinite a then
    if isInfinite b then nan else withSign (differInSign a b) infinity
  else if isInfinite b then withSign (differInSign a b) 0
  else if magnitude b == 0 then
    if magnitude a == 0 then nan else withSign (differInSign a b) infinity
  else
    let (m, k) := fraction a
    let (n, l) := fraction b
    withSign (differInSign a b) (ofQuotient (m * l) (k * n))

end StoryMachine.Binary
