import StoryMachine.Decimal.Shortest
import StoryMachine.Machine.Basic

/-!
# Values as programs see them

Constants and objects that hold the same text or the same elements are the same to
a program. This module reads through both, and has equality, order and the text of
values.

* `stringValue`, `listItems`: the text or the elements of a value;
* `valuesEqual`: numbers by value, strings and lists by content, all else by
  identity;
* `compareValues`: the order of numbers and of strings;
* `displayText`: the text of a value.
-/

namespace StoryMachine

/-! ## Content -/

/-- The kind of an object; constants count as what they behave like. -/
def Machine.kindOf? (m : Machine) : Value → Option Kind
  | .stringConst _ => some .string
  | .listConst _ => some .list
  | .obj id => (m.heap.get? id).map (·.body.kind)
  | _ => none

/-- The text of a constant string or a string object. -/
def stringValue (v : Value) : MachineM (Option String) := do
  match v with
  | .stringConst ofs => return some (← onPools (·.readString ofs))
  | .obj id =>
    match (← deref id).body with
    | .string text => return some text
    | _ => return none
  | _ => return none

/-- The elements of a constant list, a list object or a vector. -/
def listItems (v : Value) : MachineM (Option (List Value)) := do
  match v with
  | .listConst ofs => return some (← onPools (·.readList ofs))
  | .obj id =>
    match (← deref id).body with
    | .list items => return some items
    | .vector items => return some items
    | _ => return none
  | _ => return none

/-- The elements of a list that cannot be changed. -/
def immutableItems (v : Value) : MachineM (Option (List Value)) := do
  match v with
  | .obj id =>
    match (← deref id).body with
    | .list items => return some items
    | _ => return none
  | _ => listItems v

/-- The text of a value that has to be a string. -/
def expectString (v : Value) : MachineM String := do
  match ← stringValue v with
  | some text => return text
  | none => fail (.badType "string")

/-- The elements of a value that has to be a list. -/
def expectList (v : Value) : MachineM (List Value) := do
  match ← listItems v with
  | some items => return items
  | none => fail (.badType "list")

/-- The number that a value has to be. -/
def expectInt (v : Value) : MachineM Int32 := do
  match v with
  | .int n => return n
  | _ => fail (.badType "integer")

/-- The object that a value has to be. -/
def expectObject (v : Value) : MachineM ObjectId := do
  match v with
  | .obj id => return id
  | _ => fail (.badType "object")

/-- The place from zero of a position that counts from one. -/
def zeroBased (position : Int32) (length : Nat) : MachineM Nat := do
  let n := position.toInt
  if n < 1 ∨ (length : Int) < n then fail (.indexOutOfRange n)
  return n.toNat - 1

/-! ## Numbers -/

/-- The floating-point pattern of a number. -/
def Value.number? : Value → Option UInt64
  | int n => some (Binary.ofInt n.toInt)
  | float bits => some bits
  | _ => none

/-- Two whole numbers, or two numbers of which at least one has a fraction. -/
inductive Numbers where
  /-- Both are whole. -/
  | whole (x y : Int32)
  /-- At least one is a floating-point number. -/
  | real (x y : UInt64)
deriving DecidableEq, Repr

/-- The numbers that two values are, if both are. -/
def Numbers.of? (a b : Value) : Option Numbers :=
  match a, b with
  | .int x, .int y => some (whole x y)
  | a, b => do return real (← a.number?) (← b.number?)

/-! ## Equality and order -/

/-- No fewer than the pairs of lists there are, and so than the depth of any
    comparison of two lists that comes to an end. -/
def Machine.comparisonDepth (m : Machine) : Nat :=
  let g := m.pools.constant.geometry
  let lists := m.heap.slots.size + g.pageCount.toNat * g.pageSize.toNat
  (lists + 1) * (lists + 1) + 1

/-- Whether two values are equal to a program, with lists compared to a given
    depth. -/
def valuesEqualTo : (depth : Nat) → Value → Value → MachineM Bool
  | 0, _, _ => throw .endless
  | depth + 1, a, b =>
    match Numbers.of? a b with
    | some (.whole x y) => return x == y
    | some (.real x y) => return Binary.eq x y
    | none => do
      if a = b then return true
      let s ← stringValue a
      let t ← stringValue b
      if let (some s, some t) := (s, t) then return s == t
      let xs ← immutableItems a
      let ys ← immutableItems b
      match xs, ys with
      | some xs, some ys =>
        if xs.length = ys.length then
          (xs.zip ys).allM fun (x, y) => valuesEqualTo depth x y
        else return false
      | _, _ => return false

/-- Whether two values are equal to a program. -/
def valuesEqual (a b : Value) : MachineM Bool := do
  valuesEqualTo (← get).comparisonDepth a b

/-- The order of two numbers or two strings. -/
def compareValues (a b : Value) : MachineM Ordering := do
  match Numbers.of? a b with
  | some (.whole x y) => return compare x.toInt y.toInt
  | some (.real x y) =>
    match Binary.compare? x y with
    | some o => return o
    | none => failWith .invalidComparison
  | none =>
    let s ← stringValue a
    let t ← stringValue b
    match s, t with
    | some s, some t => return compare s t
    | _, _ => failWith .invalidComparison

/-! ## Text -/

/-- The text of a value that is neither a string nor a list. -/
def Value.plainText : Value → String
  | empty => ""
  | nil => "nil"
  | truth => "true"
  | int n => toString n.toInt
  | float bits => Decimal.ofBinary bits
  | v => v.inspect

/-- The text of a value, where `nested` gives the texts of elements; without it a
    list is not opened. -/
def displayWith (nested : Option (Value → MachineM String)) (v : Value) : MachineM String := do
  if let some s ← stringValue v then return s
  match ← listItems v with
  | none => return v.plainText
  | some items =>
    match nested with
    | none => return "[...]"
    | some f =>
      let parts ← items.mapM f
      return "[" ++ ", ".intercalate parts ++ "]"

/-- The text of a value, with lists opened to a given depth. -/
def displayTo : (depth : Nat) → Value → MachineM String
  | 0 => displayWith none
  | depth + 1 => displayWith (some (displayTo depth))

/-- The text of a value. Lists are opened sixteen deep, as a vector can contain
    itself. -/
def displayText (v : Value) : MachineM String := displayTo 16 v

end StoryMachine
