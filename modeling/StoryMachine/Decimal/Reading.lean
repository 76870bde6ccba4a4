import StoryMachine.Decimal.Binary

/-!
# Reading numbers

The numbers that a text can spell: whole numbers in a range, and floating-point
numbers, which are rounded to the nearest pattern. The whole text has to be the
number; blanks around it are for the caller to remove.

* `Decimal.parseNat?`, `Decimal.parseInt?`: a whole number with an optional
  sign;
* `Decimal.parseBinary?`: digits with an optional sign, point and exponent, or
  a name of an infinity or of no number.
-/

namespace StoryMachine.Decimal

/-- A number with one more decimal digit at its end. -/
def withDigit (n : Nat) (c : Char) : Nat := 10 * n + (c.toNat - '0'.toNat)

/-- The number that decimal digits spell. They are halved so many times first, since
    of a long number the products are then few. -/
def spelled : (halvings : Nat) → List Char → Nat
  | 0, cs => cs.foldl withDigit 0
  | k + 1, cs =>
    let (front, back) := cs.splitAt (cs.length / 2)
    spelled k front * pow10 back.length + spelled k back

/-- Digits that follow a number move it up by as many places. -/
theorem foldl_withDigit (cs : List Char) (n : Nat) :
    cs.foldl withDigit n = n * pow10 cs.length + cs.foldl withDigit 0 := by
  induction cs generalizing n with
  | nil => simp [pow10]
  | cons c cs ih =>
    rw [List.foldl_cons, ih, List.foldl_cons, ih (withDigit 0 c)]
    simp only [withDigit, pow10, List.length_cons, Nat.pow_eq, Nat.pow_succ]
    grind

/-- How often digits are halved does not matter. -/
theorem spelled_eq (k : Nat) (cs : List Char) : spelled k cs = cs.foldl withDigit 0 := by
  induction k generalizing cs with
  | zero => rfl
  | succ k ih =>
    simp only [spelled, List.splitAt_eq, ih]
    rw [← foldl_withDigit, ← List.foldl_append, List.take_append_drop]

/-- The number that decimal digits spell. -/
def digitsValue (cs : List Char) : Nat := spelled (cs.length.log2 - 5) cs

/-- The number that a nonempty string of decimal digits spells. -/
def digitsValue? (cs : List Char) : Option Nat :=
  if cs ≠ [] ∧ cs.all Char.isDigit then some (digitsValue cs) else none

/-- A whole number from 0 to `max`; a plus sign may stand before it. -/
def parseNat? (max : Nat) (s : String) : Option Nat :=
  let body := match s.toList with
    | '+' :: cs => cs
    | cs => cs
  (digitsValue? body).filter (· ≤ max)

/-- A 32-bit integer with an optional sign. -/
def parseInt? (s : String) : Option Int32 :=
  let value : Option Int := match s.toList with
    | '-' :: cs => (digitsValue? cs).map fun n => -(n : Int)
    | '+' :: cs => (digitsValue? cs).map Int.ofNat
    | cs => (digitsValue? cs).map Int.ofNat
  (value.filter fun n => -2147483648 ≤ n ∧ n ≤ 2147483647).map Int32.ofInt

/-- What digits spell, the first of which is no zero, times `10 ^ e`, as a pattern.
    Numbers far outside the range of patterns are known by how many digits they have,
    and are not computed. -/
def scale (digits : List Char) (e : Int) : UInt64 :=
  let size := digits.length + e
  if digits.isEmpty || size < -400 then 0
  else if 400 < size then Binary.infinity
  else Binary.ofQuotient (digitsValue digits * pow10 e.toNat) (pow10 (-e).toNat)

/-- The exponent from which on no more digits of it are taken. -/
def exponentCap : Nat := 65536

/-- The size of the exponent that a nonempty string of decimal digits spells. The
    digits that follow once it has come to the cap are passed over. -/
def exponentDigits? (cs : List Char) : Option Nat :=
  if cs ≠ [] ∧ cs.all Char.isDigit then
    some (cs.foldl (fun n c => if n < exponentCap then withDigit n c else n) 0)
  else none

/-- The exponent that the text after the digits spells: none is zero, otherwise
    the letter, an optional sign, and digits. -/
def exponentPart? : List Char → Option Int
  | [] => some 0
  | c :: cs =>
    if c == 'e' || c == 'E' then
      match cs with
      | '-' :: ds => (exponentDigits? ds).map fun n => -(n : Int)
      | '+' :: ds => (exponentDigits? ds).map Int.ofNat
      | ds => (exponentDigits? ds).map Int.ofNat
    else none

/-- The magnitude of an unsigned number: digits before and after a point, of
    which there has to be at least one, and an optional exponent. -/
def unsigned? (cs : List Char) : Option UInt64 := do
  let (whole, rest) := cs.span Char.isDigit
  let (fraction, rest) := match rest with
    | '.' :: ds => ds.span Char.isDigit
    | _ => ([], rest)
  let digits := whole ++ fraction
  if digits.isEmpty then none
  let e ← exponentPart? rest
  return scale (digits.dropWhile (· == '0')) (e - fraction.length)

/-- A floating-point number. -/
def parseBinary? (s : String) : Option UInt64 :=
  let (negative, cs) := match s.toList with
    | '-' :: cs => (true, cs)
    | '+' :: cs => (false, cs)
    | cs => (false, cs)
  let magnitude? :=
    match String.ofList (cs.map Char.toLower) with
    | "inf" => some Binary.infinity
    | "infinity" => some Binary.infinity
    | "nan" => some Binary.nan
    | _ => unsigned? cs
  magnitude?.map (Binary.withSign negative)

end StoryMachine.Decimal
