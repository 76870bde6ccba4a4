import StoryMachine.Decimal.Binary

/-!
# Shortest decimal text

The decimal text of a floating-point number has the fewest digits that read
back as the same number, and of those the digits nearest to it. It is always
positional: there is no exponent, and a whole number has no point.

* `Decimal.digits`: the digits and the place of the point;
* `Decimal.ofBinary`: the text.
-/

namespace StoryMachine.Decimal

open Binary

/-- A decimal number `0.d₁d₂… · 10 ^ point`, where `d₁d₂…` are the digits of
    `digits`. -/
structure Digits where
  /-- The digits, read as one number. -/
  digits : Nat
  /-- The number of digits before the point. -/
  point : Int
deriving DecidableEq

/-- The number of decimal digits of `n`, at least one. -/
def width (n : Nat) : Nat := (Nat.toDigits 10 n).length

/-- The real numbers that round to a pattern, as multiples of one unit: the
    pattern stands for `mid / den`, and the numbers between `low / den` and
    `high / den` round to it, the ends included if `closed`. -/
structure Span where
  low : Nat
  mid : Nat
  high : Nat
  den : Nat
  closed : Bool

/-- The span of a finite pattern that is not zero. The lower half is narrower
    where the exponent changes. -/
def Span.ofBinary (bits : UInt64) : Span :=
  let m := significand bits
  let e := exponent bits
  let scale := pow2 e.toNat
  let narrow := fractionField bits == 0 && exponentField bits > 1
  { low := (4 * m - if narrow then 1 else 2) * scale
    mid := 4 * m * scale
    high := (4 * m + 2) * scale
    den := 4 * pow2 (-e).toNat
    closed := m % 2 == 0 }

namespace Span

/-- Whether `a / b` rounds to the pattern. -/
def contains (s : Span) (a b : Nat) : Bool :=
  let x := a * s.den
  if s.closed then s.low * b ≤ x && x ≤ s.high * b else s.low * b < x && x < s.high * b

/-- The number of digits before the point of `mid / den`; it is negative when
    zeros follow the point. -/
def point (s : Span) : Int := (width (s.mid * pow10 345 / s.den) : Int) - 345

/-- The multiple of `10 ^ (point - n)` in the span that is nearest to its
    middle, if there is one; of two equally near the larger. -/
def onGrid? (s : Span) (n : Nat) : Option Nat :=
  let step := s.point - n
  -- The grid point `d` is `d * up / down`.
  let up := pow10 step.toNat
  let down := pow10 (-step).toNat
  let below := s.mid * down / (s.den * up)
  let above := below + 1
  let hitBelow := s.contains (below * up) down
  let hitAbove := s.contains (above * up) down
  if hitBelow && hitAbove then
    let fromBelow := s.mid * down - below * up * s.den
    let fromAbove := above * up * s.den - s.mid * down
    some (if fromBelow < fromAbove then below else above)
  else if hitBelow then some below
  else if hitAbove then some above
  else none

/-- The fewest digits in the span, tried from `n` digits on. Seventeen always
    suffice. -/
def shortest (s : Span) (n : Nat) : (tries : Nat) → Digits
  | 0 => ⟨s.mid * pow10 (-(s.point - n)).toNat / (s.den * pow10 (s.point - n).toNat), s.point⟩
  | tries + 1 =>
    match s.onGrid? n with
    | some d => if width d > n then ⟨d, s.point + 1⟩ else ⟨d, s.point⟩
    | none => s.shortest (n + 1) tries

end Span

/-- The fewest digits that read back as the pattern, which is finite and not
    zero. -/
def digits (bits : UInt64) : Digits := (Span.ofBinary bits).shortest 1 17

/-- The positional text of a decimal number: no zeros at the end of the
    fraction, no point without a fraction. -/
def Digits.positional (d : Digits) : String :=
  let all := Nat.toDigits 10 d.digits
  let cs := (all.reverse.dropWhile (· == '0')).reverse
  if d.point ≤ 0 then
    "0." ++ String.ofList (List.replicate (-d.point).toNat '0' ++ cs)
  else
    let n := d.point.toNat
    if cs.length ≤ n then String.ofList (cs ++ List.replicate (n - cs.length) '0')
    else String.ofList (cs.take n ++ '.' :: cs.drop n)

/-- The text of a floating-point number. -/
def ofBinary (bits : UInt64) : String :=
  if isNaN bits then "NaN"
  else
    let sign := if isNegative bits then "-" else ""
    let magnitude :=
      if isInfinite bits then "inf"
      else if magnitude bits == 0 then "0"
      else (digits bits).positional
    sign ++ magnitude

end StoryMachine.Decimal
