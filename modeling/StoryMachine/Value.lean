import StoryMachine.Decimal.Shortest

/-!
# Values

The values a program works on. A value is copied freely; one that names an
object is a handle, and whoever keeps it in a counted place (the operand stack,
a property, an element, an undo record) owns one count of that object.

* `ObjectId`: the name of an object, a slot and the generation of its occupant;
* `Value`: a value, compared by identity (floating-point numbers by pattern);
* `DataType`: the type codes that images and programs see.
-/

namespace StoryMachine

/-- The name of an object: the slot it lives in, and how many times that slot
    has been given up before, so that the name of an object that is gone never
    means a later one. -/
structure ObjectId where
  /-- The slot in the object table. -/
  index : UInt32
  /-- The generation of the slot's occupant. -/
  generation : UInt32
deriving DecidableEq, Inhabited, Repr

namespace ObjectId

/-- The name of an object that an image defines: its number there is its slot,
    and it is the slot's first occupant. -/
def ofImage (n : UInt32) : ObjectId := ⟨n, 0⟩

/-- The text of an object's name; the first generation is left out. -/
def text (id : ObjectId) : String :=
  let slot := "obj#" ++ toString id.index.toNat
  if id.generation = 0 then slot else slot ++ "@" ++ toString id.generation.toNat

end ObjectId

/-- A property number. Zero is never one that an object has. -/
abbrev PropId := UInt16

/-- Whether the number can be that of a property. -/
def PropId.isValid (p : PropId) : Bool := p != 0

/-- The type codes of values. -/
inductive DataType where
  | nil | truth | object | property | int | stringConst | listConst | method | function | empty
  | float
deriving DecidableEq, Repr

namespace DataType

/-- Every data type, by ascending code. -/
def all : List DataType :=
  [nil, truth, object, property, int, stringConst, listConst, method, function, empty, float]

/-- The code of a data type in images and as a program sees it. -/
def code : DataType → UInt8
  | nil => 1
  | truth => 2
  | object => 5
  | property => 6
  | int => 7
  | stringConst => 8
  | listConst => 10
  | method => 11
  | function => 12
  | empty => 13
  | float => 14

/-- The data type with the given code. -/
def ofCode? (code : UInt8) : Option DataType := all.find? (·.code == code)

end DataType

/-- A value. -/
inductive Value where
  /-- No value at all: a slot never set, a result that is missing. -/
  | empty
  /-- The value that counts as false. -/
  | nil
  /-- The value that truth tests produce. -/
  | truth
  /-- A whole number. -/
  | int (n : Int32)
  /-- A floating-point number, by its pattern. -/
  | float (bits : UInt64)
  /-- An object. -/
  | obj (id : ObjectId)
  /-- A property. -/
  | prop (p : PropId)
  /-- A function: where its method header lies in the code pool. -/
  | function (ofs : UInt32)
  /-- A method bound to a property: where its header lies in the code pool. -/
  | method (ofs : UInt32)
  /-- A string in the constant pool. -/
  | stringConst (ofs : UInt32)
  /-- A list in the constant pool. -/
  | listConst (ofs : UInt32)
deriving DecidableEq, Inhabited, Repr

namespace Value

/-- The value of a truth test. -/
def ofBool (b : Bool) : Value := if b then truth else nil

/-- Whether the value counts as true: all but the absent value, nil and the
    integer zero do. -/
def isTrue : Value → Bool
  | empty | nil => false
  | int n => n != 0
  | _ => true

/-- The object that the value names. -/
def obj? : Value → Option ObjectId
  | obj id => some id
  | _ => none

/-- The whole number that the value is. -/
def int? : Value → Option Int32
  | int n => some n
  | _ => none

/-- The property that the value is. -/
def prop? : Value → Option PropId
  | prop p => some p
  | _ => none

/-- The type of the value. -/
def dataType : Value → DataType
  | empty => .empty
  | nil => .nil
  | truth => .truth
  | int _ => .int
  | float _ => .float
  | obj _ => .object
  | prop _ => .property
  | function _ => .function
  | method _ => .method
  | stringConst _ => .stringConst
  | listConst _ => .listConst

/-- The name of the value's type, as messages give it. -/
def typeName : Value → String
  | empty => "empty"
  | nil => "nil"
  | truth => "true"
  | int _ => "integer"
  | float _ => "float"
  | obj _ => "object"
  | prop _ => "property"
  | function _ => "function pointer"
  | method _ => "method"
  | stringConst _ => "string"
  | listConst _ => "list"

end Value

/-- A number in hexadecimal. -/
def hexText (n : Nat) : String := String.ofList (Nat.toDigits 16 n)

/-- The inspection text of a value: its type and its raw content. -/
def Value.inspect : Value → String
  | empty => "Empty"
  | nil => "nil"
  | truth => "true"
  | int n => "Int(" ++ toString n.toInt ++ ")"
  | float bits => "Float(" ++ Decimal.ofBinary bits ++ ")"
  | obj id => id.text
  | prop p => "&prop#" ++ toString p.toNat
  | function ofs => "FuncPtr(0x" ++ hexText ofs.toNat ++ ")"
  | method ofs => "CodeOfs(0x" ++ hexText ofs.toNat ++ ")"
  | stringConst ofs => "SString(0x" ++ hexText ofs.toNat ++ ")"
  | listConst ofs => "List(0x" ++ hexText ofs.toNat ++ ")"

end StoryMachine
