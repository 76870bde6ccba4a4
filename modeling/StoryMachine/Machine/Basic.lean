import StoryMachine.Heap.Collect
import StoryMachine.Heap.Mutation
import StoryMachine.Heap.Restore
import StoryMachine.Heap.Savepoint
import StoryMachine.Host
import StoryMachine.Image.Loader
import StoryMachine.Stack

/-!
# The machine

A machine runs the program of an image: it has the image's pools and object table,
an operand stack, global variables and a host. This module has its state, the two
ways in which an instruction can fail, and the operations on the state that the
rest is made of.

* `Machine.load`: a machine for an image;
* `Fault`: a failure, or an exception on its way to a handler;
* `onFault`, `andAfter`: what is done after a fault;
* `Machine.roots`: what the machine holds outside of the object table;
* `newString`, `newList`, `newProgram`: new objects.
-/

namespace StoryMachine

/-- The limits and arguments of a machine. -/
structure MachineSettings where
  /-- The limits of the object table. -/
  heap : HeapSettings := {}
  /-- The limits of the stack. -/
  stack : StackSettings := {}
  /-- How pools are kept. -/
  mode : PoolMode := .inMemory
  /-- The number of global variables. -/
  globals : Nat := 256
  /-- The arguments of the program. -/
  args : List String := []
  /-- The templates of messages. -/
  messages : Messages := {}
deriving Inhabited

/-- Why settings cannot be used, if they cannot. -/
def MachineSettings.problem? (s : MachineSettings) : Option String :=
  s.heap.problem? <|> s.stack.problem? <|> s.mode.problem? <|>
    if 65535 < s.globals then some "globals must fit in a u16 index" else none

/-- A machine. -/
structure Machine where
  /-- The image of the program. -/
  image : Image
  /-- The object table. -/
  heap : Heap
  /-- The pools of code and constants. -/
  pools : Pools
  /-- The operand stack. -/
  stack : Stack
  /-- The global variables. -/
  globals : Array Value
  /-- What surrounds the machine. -/
  host : Host
  /-- The file of the host that pages are read from on demand, if it is one. -/
  imageFile? : Option String := none
  /-- The signal that waits. -/
  interrupt : Interrupt := none
  /-- The templates of messages. -/
  messages : Messages
  /-- The arguments of the program. -/
  args : List String
  /-- The result of the last run or call, of which the machine owns a count. -/
  result : Value := .nil
  /-- The exceptions that the machine has made, with the failures they stand
      for. -/
  raised : List (ObjectId × Failure) := []
deriving Inhabited

/-- Why an instruction did not complete. -/
inductive Fault where
  /-- Something went wrong. -/
  | failed (f : Failure)
  /-- An exception is on its way to a handler, with a count of it. -/
  | thrown (v : Value)
  /-- Two lists that contain themselves were compared, which has no end. -/
  | endless
deriving DecidableEq, Repr

/-- A part of an instruction. One that faults keeps what it has done so far. -/
abbrev MachineM := EStateM Fault Machine

/-- Fails. -/
def fail {α : Type} (f : Failure) : MachineM α := throw (.failed f)

/-- Fails with an error that has no arguments. -/
def failWith {α : Type} (code : ErrorCode) : MachineM α := fail ⟨code, []⟩

/-- Goes on with a result that may be a failure. -/
def liftExcept {α : Type} : Except Failure α → MachineM α
  | .ok a => pure a
  | .error f => fail f

/-! ## What is done after a fault -/

/-- Does `x`, and gives how it ended. -/
@[inline] def attempt {α : Type} (x : MachineM α) : MachineM (Except Fault α) := fun m =>
  match x m with
  | .ok a m => .ok (.ok a) m
  | .error e m => .ok (.error e) m

/-- Ends as `r` says. -/
@[inline] def conclude {α : Type} : Except Fault α → MachineM α
  | .ok a => pure a
  | .error e => throw e

/-- Does `x`, and then `cleanup` if `x` faults. -/
@[inline] def onFault {α : Type} (x : MachineM α) (cleanup : MachineM Unit) : MachineM α := do
  match ← attempt x with
  | .ok a => return a
  | .error e =>
    cleanup
    throw e

/-- Does `x` and then `cleanup`, and ends as `x` did. -/
@[inline] def andAfter {α : Type} (x : MachineM α) (cleanup : MachineM Unit) : MachineM α := do
  let r ← attempt x
  cleanup
  conclude r

/-! ## Parts of the state -/

/-- Does an operation on the object table. The table is taken out of the machine
    while that happens, so that it is changed in place. -/
@[inline] def onHeap {α : Type} (f : HeapM α) : MachineM α := fun m =>
  let heap := m.heap
  let m := { m with heap := default }
  match f heap with
  | .ok a heap => .ok a { m with heap }
  | .error e heap => .error (.failed e.failure) { m with heap }

/-- Changes the object table. -/
@[inline] def modifyHeap (f : Heap → Heap) : MachineM Unit :=
  modify fun m => { m with heap := f m.heap }

/-- Does an operation on the object table that cannot fail. -/
@[inline] def withHeap {α : Type} (f : Heap → α × Heap) : MachineM α := fun m =>
  let heap := m.heap
  let m := { m with heap := default }
  let (a, heap) := f heap
  .ok a { m with heap }

/-- Does an operation on the pools. -/
@[inline] def onPools {α : Type} (f : Pools → Except Failure α × Pools) : MachineM α := fun m =>
  let pools := m.pools
  let m := { m with pools := default }
  match f pools with
  | (.ok a, pools) => .ok a { m with pools }
  | (.error e, pools) => .error (.failed e) { m with pools }

/-- Changes the stack. -/
@[inline] def modifyStack (f : Stack → Stack) : MachineM Unit :=
  modify fun m => { m with stack := f m.stack }

/-- The object that a name means, which has to be one. -/
def deref (id : ObjectId) : MachineM Object := do
  match (← get).heap.deref id with
  | .ok o => return o
  | .error e => fail e.failure

/-- Takes a count of the object that a value names. -/
def retainValue (v : Value) : MachineM Unit := modifyHeap (·.retainValue v)

/-- Releases a count of the object that a value names. -/
def releaseValue (v : Value) : MachineM Unit := modifyHeap (·.releaseValue v)

/-- Releases a count for each value. -/
def releaseValues (vs : List Value) : MachineM Unit := modifyHeap (·.releaseValues vs)

/-- A value with a count of its own. -/
def owned (v : Value) : MachineM Value := do
  retainValue v
  return v

/-! ## New objects -/

/-- A new object of a metaclass. The counts of the values in it go over to it, and
    the caller owns a count of the object. -/
def allocate (metaclass : MetaclassId) (body : Body) : MachineM Value := do
  return .obj (← onHeap (Heap.alloc ⟨metaclass, body⟩))

/-- The metaclass for new objects of a kind. -/
def metaclassOf (kind : Kind) : MachineM MetaclassId := do
  liftExcept ((← get).image.metaclasses.idOf kind)

/-- A new string. -/
def newString (text : String) : MachineM Value := do
  allocate (← metaclassOf .string) (.string text)

/-- A new list of values, which takes counts of its own. -/
def newList (items : List Value) : MachineM Value := do
  let metaclass ← metaclassOf .list
  modifyHeap (·.retainValues items)
  allocate metaclass (.list items)

/-- A new program object without properties, which takes counts of its
    superclasses. -/
def newProgram (supers : List ObjectId) : MachineM Value := do
  let metaclass ← metaclassOf .program
  modifyHeap (·.retainValues (supers.map .obj))
  allocate metaclass (.program supers .empty)

namespace Machine

/-- A machine for the image that the bytes hold. -/
def load (bs : Bytes) (settings : MachineSettings) (host : Host) : Except Failure Machine := do
  if let some why := settings.problem? then throw (.badArgument why)
  let (image, pools, heap) ← Image.load bs settings.mode settings.heap
  let (entry, pools) := Image.checkEntry pools image.entry
  entry
  return {
    image, heap, pools, host
    stack := { settings := settings.stack }
    globals := Array.replicate settings.globals .nil
    messages := settings.messages
    args := settings.args }

/-- Everything that the machine holds outside of the object table. -/
def roots (m : Machine) : List Value :=
  m.stack.held ++ m.globals.toList ++ m.image.exports.map Prod.snd ++ [m.result]

/-- Frees what cannot be reached. -/
def collectGarbage (m : Machine) : CollectStats × Machine :=
  let roots := m.roots
  let heap := m.heap
  let m := { m with heap := default }
  let (stats, heap) := heap.collect roots
  (stats, { m with heap, raised := m.raised.filter fun (id, _) => heap.contains id })

/-- Puts the objects back as the image defines them, and sets all variables to
    nil. -/
def restart (m : Machine) : Except Failure Machine :=
  let define (h : Heap) (entry : UInt32 × Object) : Except Failure Heap :=
    match Heap.define entry.1 entry.2 h with
    | .ok _ h => .ok h
    | .error e _ => .error e.failure
  do
    let heap ← m.image.objects.foldlM define m.heap.clear
    return { m with heap := heap.openHoles, globals := m.globals.map fun _ => .nil, result := .nil }

/-- The value exported under a name. -/
def export? (m : Machine) (name : String) : Option Value := m.image.exports.lookup name

/-- Gives a file of the host its bytes. If the image is in it, then pages that are not
    kept are read from these bytes from now on. -/
def storeFile (m : Machine) (name : String) (bs : Bytes) : Machine :=
  let key := m.host.names.key
  let m := { m with host := m.host.storeFile name bs }
  if m.imageFile?.any (key · == key name) then { m with pools := m.pools.withSource bs.toArray }
  else m

/-- Raises a signal. -/
def signal (m : Machine) (s : Signal) : Machine := { m with interrupt := m.interrupt.raise s }

end Machine

end StoryMachine
