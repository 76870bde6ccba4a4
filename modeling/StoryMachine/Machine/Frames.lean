import StoryMachine.Machine.Values

/-!
# Operands and calls

What instructions do to the stack of a machine. Whoever takes a value off the stack
owns its count, and a value that is put on gives its count to the stack.

* `push`, `pop`, `popValues`: operands;
* `enter`, `leave`: the start and the end of a call;
* `onOperands`, `callWithArgs`: an operation that takes operands and leaves a
  result.
-/

namespace StoryMachine

/-! ## Operands -/

/-- Puts a value on the stack; if there is no room its count is released. -/
def push (v : Value) : MachineM Unit := do
  if (← get).stack.hasRoom then modifyStack (·.put v)
  else
    releaseValue v
    fail Stack.overflow

/-- Takes the top value off the stack. -/
def pop : MachineM Value := do
  let v ← liftExcept ((← get).stack.peek 0)
  modifyStack fun s => s.truncate (s.size - 1)
  return v

/-- Takes the top `n` values off the stack, and gives them with the lowest
    first. -/
def popValues (n : Nat) : MachineM (List Value) := do
  let vs ← liftExcept ((← get).stack.top n)
  modifyStack fun s => s.truncate (s.size - n)
  return vs

/-- Takes the top two values off the stack, and gives them with the lower
    first. -/
def popTwo : MachineM (Value × Value) := do
  match ← popValues 2 with
  | [a, b] => return (a, b)
  | _ => fail Stack.underflow

/-- Puts the result of `f` for the top two values in their place. -/
def onOperands (f : Value → Value → MachineM Value) : MachineM Unit := do
  let (a, b) ← popTwo
  let v ← andAfter (f a b) (releaseValues [a, b])
  push v

/-- Puts the result of `f` for the top values in their place. They stay on the
    stack for as long as `f` takes. -/
def callWithArgs (argc : Nat) (f : List Value → MachineM Value) : MachineM Unit := do
  let args ← liftExcept ((← get).stack.top argc)
  let v ← andAfter (f args) do releaseValues (← popValues argc)
  push v

/-! ## Calls -/

/-- The innermost call. -/
def currentFrame : MachineM Frame := do
  match (← get).stack.frame? with
  | some f => return f
  | none => fail (.internal "no active frame")

/-- Changes the innermost call. -/
def modifyFrame (f : Frame → Frame) : MachineM Unit := modifyStack (·.modifyFrame f)

/-- What a decoding error means to a program. -/
def DecodeError.failure (e : DecodeError) : Failure := ⟨.badBytecode, [e.message]⟩

/-- Goes on with what has been decoded. -/
def liftDecoded {α : Type} : Except DecodeError α → MachineM α
  | .ok a => pure a
  | .error e => fail e.failure

/-- The header of the method at an offset of the code pool. -/
def readHeader (method : UInt32) : MachineM MethodHeader := do
  let bs ← onPools (·.readCode method MethodHeader.size)
  liftDecoded (MethodHeader.parse bs)

/-- Changes the code pool. -/
def modifyCode (f : Pool → Pool) : MachineM Unit :=
  modify fun m => { m with pools := { m.pools with code := f m.pools.code } }

/-- The operands of a stack are enough for so many arguments. -/
def Stack.hasArgs (s : Stack) (argc : Nat) : Bool := argc ≤ s.size - s.floor

/-- Starts the method at an offset of the code pool, whose arguments are the top
    `argc` operands. The counts of the receiver and the definer go over to the
    new frame, or are released if there is none. -/
def enter (method : UInt32) (argc : Nat) (self : Value) (definer? : Option ObjectId)
    (target? : Option PropId) : MachineM Unit :=
  let start : MachineM Unit := do
    let header ← readHeader method
    if !header.accepts argc || !(← get).stack.hasArgs argc then fail Arity.mismatch
    let locals := header.locals.toNat
    let localBase := (← get).stack.size
    if (← get).stack.settings.stackSize < localBase + locals then fail Stack.overflow
    if (← get).stack.settings.maxFrames ≤ (← get).stack.depth then fail Stack.overflow
    let headerSize := (← get).image.entry.headerSize
    let frame : Frame :=
      { method, header, self, definer?, target?, argc, localBase
        current := method
        next := method + headerSize.toUInt32
        argBase := localBase - argc
        stackBase := localBase + locals }
    modifyStack fun s => { s.putLocals locals with frames := frame :: s.frames }
    modifyCode (·.pin method)
  onFault start (releaseValues (self :: definer?.toList.map .obj))

/-- Ends the innermost call, if there is one. Its arguments, locals and operands
    are taken off the stack. -/
def leave : MachineM Unit := do
  match (← get).stack.frame? with
  | none => return
  | some f =>
    let spent := (← get).stack.above f.argBase
    modifyStack fun s => s.popFrame.truncate f.argBase
    modifyHeap fun h => (h.releaseValues spent).releaseValues f.held
    modifyCode (·.unpin f.method)

/-- Ends the innermost `n` calls. -/
def leaveMany : (n : Nat) → MachineM Unit
  | 0 => return
  | n + 1 => do
    leave
    leaveMany n

/-- Ends calls until only `floor` are left. -/
def leaveTo (floor : Nat) : MachineM Unit := do
  leaveMany ((← get).stack.depth - floor)

/-- Takes off the values from place `n` up. -/
def dropAbove (n : Nat) : MachineM Unit := do
  let spent := (← get).stack.above n
  modifyStack (·.truncate n)
  releaseValues spent

/-- The receiver of the innermost call, with a count of its own. -/
def ownedSelf : MachineM Value := do owned (← currentFrame).self

end StoryMachine
