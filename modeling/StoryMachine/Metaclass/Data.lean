import StoryMachine.Metaclass.Method
import StoryMachine.Value.Portable

/-!
# Object data

The bytes in which an image holds the content of an object, for each kind. What is
read has to take up all bytes.

* `ObjectData.load`: a body from its bytes;
* `ObjectData.program`, `ObjectData.items`, `ObjectData.text`,
  `ObjectData.entries`: the bytes of a body.
-/

namespace StoryMachine

/-- Reads a value off the front of a byte string or fails for a reason. -/
abbrev Parser (α : Type) := StateT Bytes (Except Failure) α

/-- Reads with `r`, and fails with `f` where it reads nothing. -/
def Parser.of {α : Type} (f : Failure) (r : Reader α) : Parser α := fun bs =>
  match r bs with
  | none => .error f
  | some result => .ok result

namespace ObjectData

/-- The bytes are not the data of an object. -/
def bad (reason : String) : Failure := ⟨.badObjectData, [reason]⟩

/-- Reads a part of an object's data. -/
def part {α : Type} (r : Reader α) : Parser α := .of (bad "truncated or malformed") r

/-- Checks that nothing is left. -/
def finish (reason : String) : Parser Unit := do
  if (← get) ≠ [] then throw (bad reason)

/-! ## Reading -/

/-- `n` more properties, none of them zero and none a second time. -/
def props : (n : Nat) → PropTable → Parser PropTable
  | 0, table => pure table
  | n + 1, table => do
    let p ← part Reader.u16
    let v ← part Reader.value
    if !PropId.isValid p then throw (bad "property id 0")
    if table.contains p then throw (bad "property defined twice")
    props n (table.set p v)

/-- A program object: the numbers of superclasses and of properties, a flag word,
    and then both. -/
def programBody : Parser Body := do
  let supers ← part Reader.u16
  let count ← part Reader.u16
  let _ ← part Reader.u16
  let supers ← part (Reader.replicate supers.toNat Reader.u32)
  let table ← props count.toNat .empty
  finish "trailing bytes after properties"
  return .program (supers.map .ofImage) table

/-- The elements of a list or vector: their number and then each. -/
def elements : Parser (List Value) := do
  let n ← part Reader.u16
  let items ← part (Reader.replicate n.toNat Reader.value)
  finish "trailing bytes after list elements"
  return items

/-- A string: its number of bytes and then its text. -/
def stringBody : Parser Body := do
  let n ← part Reader.u16
  let text ← part (Reader.text n.toNat)
  finish "trailing bytes after string"
  return .string text

/-- `n` more entries after those of `read`, of which the latest comes first. No
    key may come a second time. -/
def tableEntries : (n : Nat) → (read : List (Value × Value)) → Parser (List (Value × Value))
  | 0, read => pure read.reverse
  | n + 1, read => do
    let k ← part Reader.value
    let v ← part Reader.value
    if read.any (·.1 == k) then throw (bad "duplicate lookup table key")
    tableEntries n ((k, v) :: read)

/-- A lookup table: its number of entries and then the key and value of each. -/
def tableBody : Parser Body := do
  let n ← part Reader.u16
  let entries ← tableEntries n.toNat []
  finish "trailing bytes after table entries"
  return .table entries

/-- Reads the body of an object of a kind. -/
def body : Kind → Parser Body
  | .program => programBody
  | .list => return .list (← elements)
  | .vector => return .vector (← elements)
  | .string => stringBody
  | .table => tableBody

/-- The body of an object of a kind that the bytes hold. -/
def load (kind : Kind) (bs : Bytes) : Except Failure Body := (body kind bs).map Prod.fst

/-! ## Writing -/

/-- A count in two bytes. -/
def count (n : Nat) : Bytes := Bytes.u16 (UInt16.ofNat n)

/-- The bytes of a program object. -/
def program (supers : List UInt32) (props : List (PropId × Value)) : Bytes :=
  count supers.length ++ count props.length ++ Bytes.u16 0 ++ supers.flatMap Bytes.u32 ++
    props.flatMap fun (p, v) => Bytes.u16 p ++ v.portable

/-- The bytes of a list or vector. -/
def items (vs : List Value) : Bytes := count vs.length ++ vs.flatMap Value.portable

/-- The bytes of a string, of which only so much is kept as its count can say. -/
def text (s : String) : Bytes :=
  let kept := Bytes.cutText 65535 (Bytes.ofText s)
  count kept.length ++ kept

/-- The bytes of a lookup table. -/
def entries (es : List (Value × Value)) : Bytes :=
  count es.length ++ es.flatMap fun (k, v) => k.portable ++ v.portable

end ObjectData

end StoryMachine
