import StoryMachine.Bytes
import StoryMachine.Value

/-!
# Portable values

In an image a value takes five bytes: its type code and a 32-bit datum. Only
what an image can mean has such a form: a floating-point number has none, and
neither has an object made while the program runs.

* `Value.portable?` and `Value.ofPortable?`: to the five bytes and back;
* `Value.portable`: the same with nil for what has no such form;
* `Reader.value`: a portable value off the front of a byte string.
-/

namespace StoryMachine

namespace Value

/-- The length of a portable value. -/
def portableSize : Nat := 5

/-- The datum of a value in its portable form. -/
def datum? : Value → Option UInt32
  | empty | nil | truth => some 0
  | int n => some n.toUInt32
  | obj id => if id.generation = 0 then some id.index else none
  | float _ => none
  | prop p => some p.toUInt32
  | function ofs | method ofs | stringConst ofs | listConst ofs => some ofs

/-- The five bytes of a value that has a portable form. -/
def portable? (v : Value) : Option Bytes :=
  v.datum?.map fun data => v.dataType.code :: Bytes.u32 data

/-- The five bytes of a value, or those of nil if it has no portable form. -/
def portable (v : Value) : Bytes := v.portable?.getD (DataType.nil.code :: Bytes.u32 0)

/-- The value of a type and a datum. -/
def ofDatum? (data : UInt32) : DataType → Option Value
  | .nil => some nil
  | .truth => some truth
  | .empty => some empty
  | .int => some (int data.toInt32)
  | .object => some (obj (.ofImage data))
  | .property => some (prop data.toUInt16)
  | .stringConst => some (stringConst data)
  | .listConst => some (listConst data)
  | .method => some (method data)
  | .function => some (function data)
  | .float => none

end Value

/-- A portable value. -/
def Reader.value : Reader Value := do
  let bs ← bytes Value.portableSize
  match bs with
  | [] => none
  | tag :: data => do
    let type ← DataType.ofCode? tag
    Value.ofDatum? (UInt32.ofNat (Bytes.toNat data)) type

/-- The portable value that a byte string starts with. -/
def Value.ofPortable? (bs : Bytes) : Option Value := (Reader.value bs).map Prod.fst

end StoryMachine
