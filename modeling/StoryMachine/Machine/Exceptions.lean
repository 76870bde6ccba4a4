import StoryMachine.Machine.Step

/-!
# Exceptions

A failure that does not end the run becomes an exception, which is an object.
An exception ends calls from the innermost one out until a call has a handler for
it at its current instruction.

* `Halt`: why a run stops without a result;
* `raise`: the exception for a failure;
* `findHandler`: the handler of the innermost call for an exception;
* `unwind`: on to the nearest handler.
-/

namespace StoryMachine

/-- Why a run stops without a result. -/
inductive Halt where
  /-- Something went wrong. -/
  | failed (f : Failure)
  /-- A signal was raised. -/
  | interrupted (s : Signal)
  /-- The run goes on for longer than it was given. -/
  | endless
deriving DecidableEq, Repr

/-- A part of a run. One that stops keeps what it has done so far. -/
abbrev RunM := EStateM Halt Machine

/-- What a fault means outside of every call. -/
def Fault.halt : Fault → Halt
  | failed f => .failed f
  | thrown v => .failed (.internal ("exception " ++ v.inspect ++ " outside a frame"))
  | endless => .endless

/-- Does a part of an instruction outside of every call. -/
@[inline] def plainly {α : Type} (x : MachineM α) : RunM α := fun m =>
  match x m with
  | .ok a m => .ok a m
  | .error e m => .error e.halt m

/-- Does a part of an instruction, and gives how it ended. -/
@[inline] def tried {α : Type} (x : MachineM α) : RunM (Except Fault α) := plainly (attempt x)

/-! ## Raising -/

/-- Gives an exception the message and the number of its failure, as far as the
    image has properties for them. -/
def describe (id : ObjectId) (f : Failure) : MachineM Unit := do
  let special := (← get).image.special
  if let some p := special.exceptionMessage? then
    let text ← newString ((← get).messages.message f)
    onHeap (Heap.setProp id p text)
  if let some p := special.errno? then
    onHeap (Heap.setProp id p (.ofCount f.code.number.toNat))

/-- The exception for a failure, with a count of its own. Its class is the one
    that the image has for failures. -/
def raise (f : Failure) : MachineM Value := do
  let m ← get
  let supers := (m.image.special.runtimeError?.filter m.heap.contains).toList
  let v ← newProgram supers
  if let .obj id := v then
    onFault (describe id f) (releaseValue v)
    modify fun m => { m with raised := (id, f) :: m.raised }
  return v

/-! ## Handlers -/

/-- Whether an entry has an exception's handler for the current instruction of a
    call. An entry catches the instances of its class, or all. -/
def ExceptionEntry.catches (e : ExceptionEntry) (h : Heap) (f : Frame) (exception : Value) : Bool :=
  f.methodOffset.toNat < 65536 && e.covers f.methodOffset.toUInt16 &&
    (e.catchesAll ||
      exception.obj?.any (Inheritance.isInstanceOf h.source · (.ofImage e.class_)))

/-- The place of the handler for an exception in the innermost call, from the start
    of its method. -/
def findHandler (exception : Value) : MachineM (Option UInt16) := do
  let f ← currentFrame
  if f.header.excTable = 0 then return none
  let slice ← onPools (·.codeSlice (f.method + f.header.excTable.toUInt32))
  let m ← get
  let entries ← liftDecoded (ExceptionTable.parse slice.toBytes m.image.entry.excEntrySize.toNat)
  return (entries.find? (·.catches m.heap f exception)).map (·.handler)

/-- Goes on at a handler of the innermost call, with the exception as its only
    operand. -/
def handleAt (handler : UInt16) (exception : Value) : MachineM Unit := do
  let f ← currentFrame
  dropAbove f.stackBase
  modifyFrame fun f => { f with next := f.method + handler.toUInt32 }
  push exception

/-- The text of an exception that the program made: the property for messages, if
    it has that. -/
def thrownText (exception : Value) : MachineM String := do
  let m ← get
  let message? := do
    let id ← exception.obj?
    let p ← m.image.special.exceptionMessage?
    Inheritance.lookup m.heap.source id p
  match message? with
  | none => return exception.inspect
  | some found =>
    match ← attempt (displayText found.value) with
    | .ok text => return text
    | .error _ => return found.value.inspect

/-- What is wrong when nothing handles an exception. -/
def unhandled (exception : Value) : MachineM Failure := do
  let m ← get
  let text ← match exception.obj?.bind (m.raised.lookup ·) with
    | some f => pure (m.messages.text f)
    | none => thrownText exception
  return ⟨.unhandledException, [text]⟩

/-- Ends up to `n` calls until one has a handler for the exception. The count of
    the exception goes to the stack or is released. -/
def unwind (exception : Value) : (n : Nat) → RunM Unit
  | 0 => do
    let f ← plainly (unhandled exception)
    plainly (releaseValue exception)
    throw (.failed f)
  | n + 1 => do
    match ← plainly (onFault (findHandler exception) (releaseValue exception)) with
    | some handler => plainly (handleAt handler exception)
    | none =>
      plainly leave
      unwind exception n

/-- Goes on after a fault in a call above the lowest `floor`. -/
def handleFault (fault : Fault) (floor : Nat) : RunM Unit := do
  let exception ← match fault with
    | .thrown v => pure v
    | .failed f => if f.isFatal then throw (.failed f) else plainly (raise f)
    | .endless => throw .endless
  unwind exception ((← get).stack.depth - floor)

end StoryMachine
