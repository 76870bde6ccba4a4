import StoryMachine.Machine.Exceptions

/-!
# Runs

A machine runs the first function of its image, or calls one that the image
exports. Signals are seen between instructions, and garbage is collected there.

* `fetch`: the next instruction;
* `turn`, `execute`: one instruction, and one after the other until a call ends;
* `Machine.run`: a run of the program;
* `Machine.call`: a call of an exported function.
-/

namespace StoryMachine

/-! ## Execution -/

/-- Takes the next instruction of the innermost call. -/
def fetch : MachineM Instr := do
  let start := (← currentFrame).next
  let slice ← onPools (·.codeSlice start)
  let (i, length) ← liftDecoded (Instr.decode (slice.front Instr.maxLength))
  modifyFrame fun f => { f with current := start, next := start + UInt32.ofNat length }
  return i

/-- Stops if a signal waits, which then has been seen. -/
def checkSignal : RunM Unit := do
  if let some s := (← get).interrupt then
    modify fun m => { m with interrupt := none }
    throw (.interrupted s)

/-- Frees what cannot be reached if enough objects have been made. -/
def collectIfDue : RunM Unit := do
  if (← get).heap.shouldCollect then
    let _ ← modifyGet Machine.collectGarbage

/-- Does the next instruction. If it ends the last call above the lowest `floor`,
    there is a result. -/
def instruction (floor : Nat) : MachineM (Option Value) := do
  match ← step (← fetch) with
  | .next => return none
  | .returned v =>
    leave
    if (← get).stack.depth ≤ floor then return some v
    push v
    return none

/-- Does the next instruction and what goes with it. -/
def turn (floor : Nat) : RunM (Option Value) := do
  checkSignal
  collectIfDue
  match ← tried (instruction floor) with
  | .ok result => return result
  | .error fault =>
    handleFault fault floor
    return none

/-- Takes turns until there is a result. There may be no more of them than
    `fuel`. -/
def turns (floor : Nat) : (fuel : Nat) → RunM Value
  | 0 => throw .endless
  | fuel + 1 => do
    match ← turn floor with
    | some v => return v
    | none => turns floor fuel

/-- Does instructions until the last call above the lowest `floor` ends, and gives
    its result. -/
def execute (floor fuel : Nat) : RunM Value := do
  if (← get).stack.depth ≤ floor then throw (.failed (.internal "nothing to execute"))
  turns floor fuel

/-! ## Runs and calls -/

/-- How a run or a call ended. -/
inductive Ending where
  /-- With a result, which stays valid until the next run or call. -/
  | completed (v : Value)
  /-- By the program or a signal. -/
  | quit
  /-- By a signal. -/
  | aborted
  /-- Something went wrong. -/
  | failed (f : Failure)
  /-- It would have gone on for longer than it was given. -/
  | endless
deriving DecidableEq, Repr

/-- Puts the list of the machine's arguments on the stack. -/
def pushArguments : MachineM Unit := do
  let items ← (← get).args.mapM newString
  push (← andAfter (newList items) (releaseValues items))

/-- Takes everything off the stack and starts the first function of the image,
    which gets the arguments if it takes one. -/
def prepare : MachineM Unit := do
  let entry := (← get).image.entry.codeOfs
  leaveTo 0
  dropAbove 0
  let header ← readHeader entry
  let takesArguments := header.accepts 1
  if takesArguments then pushArguments
  enter entry (if takesArguments then 1 else 0) .nil none none

/-- Runs the first function of the image. -/
def start (fuel : Nat) : RunM Value := do
  plainly prepare
  execute 0 fuel

/-- Keeps a result, whose count goes over to the machine. -/
def keepResult (v : Value) : MachineM Unit := do
  let old := (← get).result
  modify fun m => { m with result := v }
  releaseValue old

/-- The machine after an operation that cannot fault. -/
def after (x : MachineM Unit) (m : Machine) : Machine :=
  match x m with
  | .ok _ m => m
  | .error _ m => m

namespace Machine

/-- The machine after a run, in which no call is active. -/
def settle (m : Machine) : Machine := { after (leaveTo 0) m with raised := [] }

/-- Runs the program, anew after each restart, of which there may be as many as
    `restarts`. Each run may take `fuel` instructions. -/
def runs (fuel : Nat) : (restarts : Nat) → Machine → Ending × Machine
  | 0, m => (.endless, m)
  | restarts + 1, m =>
    let (outcome, m) : Except Halt Value × Machine := match start fuel m with
      | .ok v m => (.ok v, m)
      | .error h m => (.error h, m)
    let m := m.settle
    match outcome with
    | .ok v => (.completed v, after (keepResult v) m)
    | .error (.interrupted .restart) =>
      match m.restart with
      | .ok m => runs fuel restarts m
      | .error f => (.failed f, m)
    | .error (.interrupted .quit) => (.quit, m)
    | .error (.interrupted .abort) => (.aborted, m)
    | .error (.failed f) => (.failed f, { m with host := m.host.report (m.messages.text f) })
    | .error .endless => (.endless, m)

/-- Runs the program. -/
def run (m : Machine) (fuel : Nat) : Ending × Machine := m.runs fuel fuel

end Machine

/-- Puts a value on the stack in addition to its other places. -/
def pushOwned (v : Value) : MachineM Unit := do push (← owned v)

/-- Puts arguments on the stack and starts a function with them, or leaves the
    stack as it was if that is not possible. -/
def prepareCall (ofs : UInt32) (args : List Value) : MachineM Unit := do
  let base := (← get).stack.size
  let begin : MachineM Unit := do
    args.forM pushOwned
    enter ofs args.length .nil none none
  onFault begin (dropAbove base)

/-- Calls a function with arguments. -/
def callWith (ofs : UInt32) (args : List Value) (fuel : Nat) : RunM Value := do
  let floor := (← get).stack.depth
  plainly (prepareCall ofs args)
  execute floor fuel

namespace Machine

/-- Calls a function that the image exports. -/
def call (m : Machine) (name : String) (args : List Value) (fuel : Nat) : Ending × Machine :=
  match m.export? name with
  | some (.function ofs) =>
    let floor := m.stack.depth
    match callWith ofs args fuel m with
    | .ok v m => (.completed v, after (keepResult v) m)
    | .error h m =>
      let m := after (leaveTo floor) m
      match h with
      | .failed f => (.failed f, m)
      | .interrupted s => (.failed ⟨.interrupted, [s.name]⟩, m)
      | .endless => (.endless, m)
  | _ => (.failed ⟨.noSuchFunction, [name]⟩, m)

end Machine

end StoryMachine
