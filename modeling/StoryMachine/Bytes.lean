/-!
# Byte strings

Images, saved states and code are *byte strings*. This module writes numbers
and text to them and reads them back: numbers are little-endian, and a reader
takes its value off the front and keeps the bytes that follow.

* `Bytes.ofNat`, `Bytes.toNat`: a number as a fixed count of bytes;
* `Reader`: a value off the front of a byte string, or nothing when it is
  too short or does not hold one.
-/

namespace StoryMachine

/-- A string of bytes. -/
abbrev Bytes := List UInt8

namespace Bytes

/-- The `w` low bytes of `n`, least significant first. -/
def ofNat : (w : Nat) → Nat → Bytes
  | 0, _ => []
  | w + 1, n => UInt8.ofNat n :: ofNat w (n / 256)

/-- The number that the bytes denote, least significant first. -/
def toNat : Bytes → Nat
  | [] => 0
  | b :: bs => b.toNat + 256 * toNat bs

/-- A 16-bit number as two bytes. -/
def u16 (n : UInt16) : Bytes := ofNat 2 n.toNat

/-- A 32-bit number as four bytes. -/
def u32 (n : UInt32) : Bytes := ofNat 4 n.toNat

/-- A 64-bit number as eight bytes. -/
def u64 (n : UInt64) : Bytes := ofNat 8 n.toNat

/-- The UTF-8 encoding of a text. -/
def ofText (s : String) : Bytes := s.toUTF8.data.toList

/-- The text that the bytes encode, if they are valid UTF-8. -/
def toText? (bs : Bytes) : Option String := String.fromUTF8? ⟨bs.toArray⟩

/-- Whether the byte starts a character in UTF-8, rather than continuing one. -/
def isBoundary (b : UInt8) : Bool := b &&& 0xC0 != 0x80

/-- The longest beginning of a UTF-8 string that has at most `limit` bytes and
    ends between two characters. -/
def cutText (limit : Nat) (bs : Bytes) : Bytes :=
  match (bs.drop limit).head? with
  | none => bs
  | some _ => bs.take (back limit)
where
  /-- The last position, at or before `n`, at which a character starts. -/
  back : Nat → Nat
    | 0 => 0
    | n + 1 => if (bs[n + 1]?.map isBoundary).getD true then n + 1 else back n

/-- A short name: its length in one byte and then its bytes, of which at most
    255 are kept. -/
def name (s : String) : Bytes :=
  let kept := (ofText s).take 255
  UInt8.ofNat kept.length :: kept

end Bytes

/-- Reads a value off the front of a byte string. The state is what has not been
    read yet; there is no result when the bytes are too few or hold no such
    value. -/
abbrev Reader (α : Type) := StateT Bytes Option α

namespace Reader

/-- The next `n` bytes. -/
def bytes (n : Nat) : Reader Bytes := fun bs =>
  let front := bs.take n
  if front.length = n then some (front, bs.drop n) else none

/-- A little-endian number of `w` bytes. -/
def nat (w : Nat) : Reader Nat := do
  return Bytes.toNat (← bytes w)

/-- One byte. -/
def u8 : Reader UInt8 := do
  return UInt8.ofNat (← nat 1)

/-- A 16-bit number. -/
def u16 : Reader UInt16 := do
  return UInt16.ofNat (← nat 2)

/-- A 32-bit number. -/
def u32 : Reader UInt32 := do
  return UInt32.ofNat (← nat 4)

/-- A 64-bit number. -/
def u64 : Reader UInt64 := do
  return UInt64.ofNat (← nat 8)

/-- A text of `n` bytes, which have to be valid UTF-8. -/
def text (n : Nat) : Reader String := do
  Bytes.toText? (← bytes n)

/-- A name: a length byte and as many bytes of text. -/
def name : Reader String := do
  text (← u8).toNat

/-- `n` more values after those of `read`, of which the latest comes first. -/
def replicateAfter {α : Type} (item : Reader α) : (n : Nat) → (read : List α) → Reader (List α)
  | 0, read => pure read.reverse
  | n + 1, read => do
    let a ← item
    replicateAfter item n (a :: read)

/-- `n` values, one after the other. -/
def replicate {α : Type} (n : Nat) (item : Reader α) : Reader (List α) :=
  replicateAfter item n []

/-- The value that the whole byte string holds: nothing may follow it. -/
def whole {α : Type} (r : Reader α) (bs : Bytes) : Option α :=
  match r bs with
  | some (a, []) => some a
  | _ => none

end Reader

end StoryMachine
