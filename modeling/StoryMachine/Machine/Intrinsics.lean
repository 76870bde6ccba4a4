import StoryMachine.Decimal.Reading
import StoryMachine.Machine.Native
import StoryMachine.Machine.Operators
import StoryMachine.SavedState
import StoryMachine.Text.Blank

/-!
# What intrinsic functions do

The intrinsic functions on a machine. Arguments are borrowed, and a result has a
count of its own.

* `scanObjects`: the program objects one after the other;
* `sumOf`, `extremeOf`: functions of several numbers;
* `Intrinsic.call`: the result of a function.
-/

namespace StoryMachine

/-! ## Objects -/

/-- Whether an object is a program object and, if a class is given, inherits from
    the class and is not the class itself. -/
def Heap.isInstance (h : Heap) (class? : Option ObjectId) (id : ObjectId) : Bool :=
  (h.get? id).any (·.body.kind == .program) &&
    match class? with
    | none => true
    | some c => c != id && Inheritance.isInstanceOf h.source id c

/-- The first program object after one, or of all, that is an instance of the
    class if there is one given; nil if there is none. -/
def scanObjects (after? : Option ObjectId) (class? : Option Value) : MachineM Value := do
  let class? ← match class? with
    | none => pure none
    | some v => pure (some (← expectObject v))
  let h := (← get).heap
  match h.find? (h.isInstance class?) after? with
  | some id => owned (.obj id)
  | none => return .nil

/-! ## Numbers -/

/-- The numbers that a function of several is about: the elements of a single
    list, or the arguments. -/
def operandsOf (args : List Value) : MachineM (List Value) := do
  match args with
  | [v] => return (← listItems v).getD args
  | _ => return args

/-- The sum of the values after a sum so far. -/
def sumOf (total : Value) : List Value → MachineM Value
  | [] => return total
  | v :: vs => do
    match Numbers.of? total v with
    | some (.whole x y) => sumOf (.int (← liftExcept (Arith.add.ofWhole x y))) vs
    | some (.real x y) => sumOf (.float (← liftExcept (Arith.add.ofReal x y))) vs
    | none => fail (.badType "number")

/-- The first of the values, the best so far among them, that no later one stands
    to in the given order. -/
def extremeOf (order : Ordering) (best : Value) : List Value → MachineM Value
  | [] => return best
  | v :: vs => do
    let better := (← compareValues v best) == order
    extremeOf order (if better then v else best) vs

/-- The greatest or the least of the values. -/
def extreme (order : Ordering) (args : List Value) : MachineM Value := do
  match ← operandsOf args with
  | [] => fail (.badArgument "empty list")
  | v :: vs => owned (← extremeOf order v vs)

/-- A text in quotation marks that is not what it should be. -/
def notA (text what : String) : Failure := .badArgument ("\"" ++ text ++ "\" is not " ++ what)

/-- The whole number that a value stands for. -/
def integerOf (v : Value) : MachineM Int32 := do
  match v with
  | .int n => return n
  | .truth => return 1
  | .nil => return 0
  | .float bits =>
    if Binary.isFinite bits then liftExcept (wholeResult (Binary.truncate bits))
    else failWith .numericOverflow
  | _ =>
    let text ← expectString v
    match Decimal.parseInt? (Text.trim text) with
    | some n => return n
    | none => fail (notA text "an integer")

/-- The floating-point number that a value stands for. -/
def realOf (v : Value) : MachineM UInt64 := do
  match v with
  | .int n => return Binary.ofInt n.toInt
  | .float bits => return bits
  | _ =>
    let text ← expectString v
    match Decimal.parseBinary? (Text.trim text) with
    | some bits => return bits
    | none => fail (notA text "a number")

/-! ## The host -/

/-- Changes the host. -/
def modifyHost (f : Host → Host) : MachineM Unit := modify fun m => { m with host := f m.host }

/-- Does an operation on the files of the host. -/
def onFiles {α : Type} (f : Host → Except String α × Host) : MachineM α := fun m =>
  match f m.host with
  | (.ok a, host) => .ok a { m with host }
  | (.error why, host) => .error (.failed ⟨.saveFileIo, [why]⟩) { m with host }

/-- Saves the state of the machine in a file of the host. -/
def saveToFile (name : String) : MachineM Unit := do
  onFiles (·.create name)
  let bs ← modifyGet Machine.saveState
  modify (·.storeFile name bs)

/-- Restores the state of the machine from a file of the host. -/
def restoreFromFile (name : String) : MachineM Unit := do
  let bs ← onFiles (·.fetch name)
  fun m => match Machine.restore bs m with
    | .ok () m => .ok () m
    | .error f m => .error (.failed f) m

/-! ## Functions -/

/-- The version of the machine, each part of it in a byte. -/
def Machine.version : Int32 := 0x00010000

/-- The name of the machine. -/
def Machine.identifier : String := "t3vm-rs"

/-- An argument of the innermost call, counted from one. -/
def argumentOfCall (n : Int32) : MachineM Value := do
  let s := (← get).stack
  match if n.toInt < 1 then none else s.arg? (n.toInt - 1).toNat with
  | some v => owned v
  | none => fail (.indexOutOfRange n.toInt)

/-- The result of a function for its arguments. -/
def Intrinsic.call (f : Intrinsic) (args : List Value) : MachineM Value := do
  match f with
  | runGC =>
    let _ ← modifyGet Machine.collectGarbage
    return .nil
  | vmVersion => return .int Machine.version
  | vmId => newString Machine.identifier
  | debugTrace =>
    if (← argument args 0) != .int 1 then
      let _ ← args.mapM displayText
    return .nil
  | stackDepth => return .ofCount (← get).stack.depth
  | globalSymbol =>
    let name ← expectString (← argument args 0)
    owned (((← get).export? name).getD .nil)
  | dataType => return .ofCount (← argument args 0).dataType.code.toNat
  | getArg => argumentOfCall (← expectInt (← argument args 0))
  | firstObj => scanObjects none args.head?
  | nextObj =>
    let after ← expectObject (← argument args 0)
    scanObjects (some after) args[1]?
  | toString => newString (← displayText (← argument args 0))
  | toInteger => return .int (← integerOf (← argument args 0))
  | getTime => return .ofCount ((← get).host.time % 0x80000000)
  | savepoint => return .int (← withHeap Heap.beginSavepoint).toInt32
  | undo => return .ofBool (← withHeap Heap.undoLast)
  | sum => sumOf (.int 0) (← operandsOf args)
  | max => extreme .gt args
  | min => extreme .lt args
  | toFloat => return .float (← realOf (← argument args 0))
  | restartGame =>
    modify (·.signal .restart)
    return .nil
  | quit =>
    modify (·.signal .quit)
    return .nil
  | saveState =>
    saveToFile (← expectString (← argument args 0))
    return .truth
  | restoreState =>
    restoreFromFile (← expectString (← argument args 0))
    return .truth
  | say =>
    let texts ← args.mapM displayText
    modifyHost (·.write (String.join texts))
    return .nil

end StoryMachine
