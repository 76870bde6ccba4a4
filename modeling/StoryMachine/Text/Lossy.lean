import StoryMachine.Bytes

/-!
# Text from any bytes

Bytes that are meant as text but need not be valid UTF-8 are shown with a
replacement character for each longest part that is the start of no character.

* `Text.lossy`: the text of any bytes.
-/

namespace StoryMachine.Text

/-- The bytes that can follow the first byte of a character: for each place the
    least and the greatest. A byte that starts no character has no such list. -/
def continuation? (first : UInt8) : Option (List (UInt8 × UInt8)) :=
  let any : UInt8 × UInt8 := (0x80, 0xBF)
  if first < 0x80 then some []
  else if first < 0xC2 then none
  else if first < 0xE0 then some [any]
  else if first = 0xE0 then some [(0xA0, 0xBF), any]
  else if first = 0xED then some [(0x80, 0x9F), any]
  else if first < 0xF0 then some [any, any]
  else if first = 0xF0 then some [(0x90, 0xBF), any, any]
  else if first < 0xF4 then some [any, any, any]
  else if first = 0xF4 then some [(0x80, 0x8F), any, any]
  else none

/-- How many bytes fit the ranges, one after the other. -/
def fitting : List (UInt8 × UInt8) → Bytes → Nat
  | (low, high) :: ranges, b :: bs => if low ≤ b && b ≤ high then fitting ranges bs + 1 else 0
  | _, _ => 0

/-- The code point of a whole character. -/
def codePoint (first : UInt8) (rest : Bytes) : Nat :=
  let lead := match rest.length with
    | 0 => first.toNat
    | 1 => first.toNat - 0xC0
    | 2 => first.toNat - 0xE0
    | _ => first.toNat - 0xF0
  rest.foldl (fun n b => 64 * n + (b.toNat - 0x80)) lead

/-- The characters of the bytes, at most `n` of them. -/
def lossyChars : (n : Nat) → Bytes → List Char
  | 0, _ => []
  | _ + 1, [] => []
  | n + 1, b :: bs =>
    match continuation? b with
    | none => '\uFFFD' :: lossyChars n bs
    | some ranges =>
      let k := fitting ranges bs
      let c := if k = ranges.length then Char.ofNat (codePoint b (bs.take k)) else '\uFFFD'
      c :: lossyChars n (bs.drop k)

/-- The text of the bytes, with a replacement character for what is not valid. -/
def lossy (bs : Bytes) : String := String.ofList (lossyChars bs.length bs)

end StoryMachine.Text
