import StoryMachine.Code.Instr
import StoryMachine.Decimal.Arithmetic
import StoryMachine.Machine.Values

/-!
# Operators

What the operators of programs mean. Operands are borrowed, and a result has a
count of its own.

* `Arith.ofWhole`, `Arith.ofReal`: arithmetic on numbers;
* `arithmetic`: arithmetic on values, of which strings and lists can be added to
  and lists can be subtracted from;
* `compareBy`: comparisons;
* `elementAt`, `withElement`: elements of lists, vectors and lookup tables.
-/

namespace StoryMachine

/-! ## Numbers -/

/-- A result that has to be a whole number of the machine. -/
def wholeResult (n : Int) : Except Failure Int32 :=
  if Int32.minValue.toInt ≤ n ∧ n ≤ Int32.maxValue.toInt then .ok (Int32.ofInt n)
  else .error ⟨.numericOverflow, []⟩

/-- A result that has to be finite. -/
def realResult (bits : UInt64) : Except Failure UInt64 :=
  if Binary.isFinite bits then .ok bits else .error ⟨.numericOverflow, []⟩

/-- There is no quotient. -/
def divisionByZero : Failure := ⟨.divideByZero, []⟩

namespace Arith

/-- The operation on whole numbers. Division cuts toward zero, and there is a
    remainder only where there is a quotient. -/
def ofWhole (op : Arith) (x y : Int32) : Except Failure Int32 :=
  match op with
  | add => wholeResult (x.toInt + y.toInt)
  | sub => wholeResult (x.toInt - y.toInt)
  | mul => wholeResult (x.toInt * y.toInt)
  | div => if y = 0 then .error divisionByZero else wholeResult (x.toInt.tdiv y.toInt)
  | mod =>
    if y = 0 then .error divisionByZero
    else do
      let _ ← wholeResult (x.toInt.tdiv y.toInt)
      wholeResult (x.toInt.tmod y.toInt)

/-- The operation on floating-point numbers. -/
def ofReal (op : Arith) (x y : UInt64) : Except Failure UInt64 :=
  match op with
  | add => realResult (Binary.add x y)
  | sub => realResult (Binary.sub x y)
  | mul => realResult (Binary.mul x y)
  | div => if Binary.eq y 0 then .error divisionByZero else realResult (Binary.div x y)
  | mod => if Binary.eq y 0 then .error divisionByZero else realResult (Binary.rem x y)

end Arith

/-- A number with the other sign. -/
def negated : Value → Except Failure Value
  | .int n => do return .int (← wholeResult (-n.toInt))
  | .float bits => .ok (.float (Binary.negate bits))
  | _ => .error (.badType "number")

/-! ## Strings and lists -/

/-- The text or list `a` with `b` after it; of a list all elements come after
    it. -/
def addValues (a b : Value) : MachineM Value := do
  if let some left ← stringValue a then
    let right ← displayText b
    return ← newString (left ++ right)
  match ← listItems a with
  | none => fail (.badType "number")
  | some items =>
    match ← listItems b with
    | some more => newList (items ++ more)
    | none => newList (items ++ [b])

/-- The list `a` without what equals `b`, or an element of `b` if that is a
    list. -/
def subtractValues (a b : Value) : MachineM Value := do
  match ← listItems a with
  | none => fail (.badType "number")
  | some items =>
    let unwanted := (← listItems b).getD [b]
    newList (← items.filterM fun v => return !(← unwanted.anyM (valuesEqual v)))

/-- The result of an arithmetic operation. -/
def arithmetic (op : Arith) (a b : Value) : MachineM Value := do
  match Numbers.of? a b with
  | some (.whole x y) => return .int (← liftExcept (op.ofWhole x y))
  | some (.real x y) => return .float (← liftExcept (op.ofReal x y))
  | none =>
    match op with
    | .add => addValues a b
    | .sub => subtractValues a b
    | _ => fail (.badType "number")

/-! ## Comparisons -/

/-- The result of a comparison. -/
def compareBy (rel : Relation) (a b : Value) : MachineM Value := do
  match rel with
  | .eq => return .ofBool (← valuesEqual a b)
  | .ne => return .ofBool !(← valuesEqual a b)
  | .lt => return .ofBool (← compareValues a b).isLT
  | .le => return .ofBool (← compareValues a b).isLE
  | .gt => return .ofBool (← compareValues a b).isGT
  | .ge => return .ofBool (← compareValues a b).isGE

/-! ## Elements -/

/-- The body of the object that a value names, if it names one. -/
def bodyOf? (v : Value) : MachineM (Option Body) := do
  match v with
  | .obj id => return ((← get).heap.get? id).map (·.body)
  | _ => return none

/-- What a container has at a position, or under a key. A lookup table has nil
    under a key that is not there. -/
def elementAt (container position : Value) : MachineM Value := do
  if let some (.table entries) ← bodyOf? container then
    return ← owned ((entries.lookup position).getD .nil)
  match ← listItems container with
  | none => fail (.badType "list")
  | some items =>
    let i ← zeroBased (← expectInt position) items.length
    owned (items.getD i .nil)

/-- A new list that is as `container` but has `v` at a position. -/
def copyWithElement (container position v : Value) : MachineM Value := do
  match ← listItems container with
  | none => fail (.badType "list")
  | some items =>
    let i ← zeroBased (← expectInt position) items.length
    newList (items.set i v)

/-- Changes an object by giving it values, whose counts are released if that is
    not possible. -/
def giveTo {α : Type} (values : List Value) (change : HeapM α) : MachineM α := do
  modifyHeap (·.retainValues values)
  onFault (onHeap change) (releaseValues values)

/-- The container with `v` at a position or under a key. Vectors and lookup
    tables are changed, of lists there is a copy. -/
def withElement (container position v : Value) : MachineM Value := do
  match container with
  | .obj id =>
    match (← deref id).body with
    | .vector items =>
      let i ← zeroBased (← expectInt position) items.length
      giveTo [v] (Heap.setElement id i v)
      owned container
    | .table _ =>
      giveTo [position, v] (Heap.putEntry id position v)
      owned container
    | _ => copyWithElement container position v
  | _ => copyWithElement container position v

end StoryMachine
