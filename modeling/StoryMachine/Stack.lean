import StoryMachine.Code.Method
import StoryMachine.Failure.Message

/-!
# The operand stack

One stack holds the values of all calls. Each call has a frame, which says where
on the stack its arguments, its local variables and its operands start:

    | arguments | locals | operands …
    ^ argBase   ^ localBase
                         ^ stackBase

Every value on the stack owns a count, and so do the receiver of a frame and the
object in which its method was found. A call can take off only its own operands.

* `Stack.push`, `Stack.pop`, `Stack.peek`: operands;
* `Stack.pushFrame`, `Stack.popFrame`: calls;
* `Stack.held`: everything the stack owns a count of.
-/

namespace StoryMachine

/-- The limits of a stack. -/
structure StackSettings where
  /-- The number of values there can be. -/
  stackSize : Nat := 4096
  /-- The number of calls there can be. -/
  maxFrames : Nat := 1024
deriving DecidableEq, Inhabited, Repr

/-- Why settings cannot be used, if they cannot. -/
def StackSettings.problem? (s : StackSettings) : Option String :=
  if s.stackSize < 16 then some "stack_size must be >= 16"
  else if s.maxFrames = 0 then some "max_frames must be > 0"
  else none

/-- An active call. -/
structure Frame where
  /-- Where the header of the method is in the code pool. -/
  method : UInt32 := 0
  /-- The header of the method. -/
  header : MethodHeader := {}
  /-- Where the instruction being executed starts. -/
  current : UInt32 := 0
  /-- Where the next instruction starts. -/
  next : UInt32 := 0
  /-- The receiver. -/
  self : Value := .nil
  /-- The object in which the method was found. -/
  definer? : Option ObjectId := none
  /-- The property that was called. -/
  target? : Option PropId := none
  /-- The number of arguments. -/
  argc : Nat := 0
  /-- Where the arguments start on the stack. -/
  argBase : Nat := 0
  /-- Where the local variables start on the stack. -/
  localBase : Nat := 0
  /-- Where the operands start on the stack. -/
  stackBase : Nat := 0
deriving DecidableEq, Inhabited, Repr

namespace Frame

/-- The place of the instruction being executed, from the start of the method. -/
def methodOffset (f : Frame) : UInt32 := f.current - f.method

/-- The values that the frame owns a count of. -/
def held (f : Frame) : List Value := f.self :: f.definer?.toList.map .obj

end Frame

/-- The stack of a machine. -/
structure Stack where
  /-- The limits. -/
  settings : StackSettings
  /-- The values, the lowest first. -/
  values : Array Value := #[]
  /-- The calls, the innermost first. -/
  frames : List Frame := []
deriving Inhabited

namespace Stack

/-- The number of active calls. -/
def depth (s : Stack) : Nat := s.frames.length

/-- The number of values. -/
def size (s : Stack) : Nat := s.values.size

/-- The innermost call. -/
def frame? (s : Stack) : Option Frame := s.frames.head?

/-- The number of values that the innermost call cannot take off. -/
def floor (s : Stack) : Nat := (s.frame?.map Frame.stackBase).getD 0

/-- The stack has too few operands. -/
def underflow : Failure := ⟨.stackUnderflow, []⟩

/-- The stack has no room. -/
def overflow : Failure := ⟨.stackOverflow, []⟩

/-- Whether there is room for a value. -/
def hasRoom (s : Stack) : Bool := s.values.size < s.settings.stackSize

/-- Puts a value on top. -/
def push (s : Stack) (v : Value) : Except Failure Stack :=
  if s.hasRoom then .ok { s with values := s.values.push v } else .error overflow

/-- Takes off the top value, and gives it with the rest. -/
def pop (s : Stack) : Except Failure (Value × Stack) :=
  if s.values.size ≤ s.floor then .error underflow
  else match s.values.back? with
    | none => .error underflow
    | some v => .ok (v, { s with values := s.values.pop })

/-- The operand that has `n` above it. -/
def peek (s : Stack) (n : Nat) : Except Failure Value :=
  if s.values.size - s.floor ≤ n then .error underflow
  else match s.values[s.values.size - 1 - n]? with
    | none => .error underflow
    | some v => .ok v

/-- The top `n` operands, the lowest first. -/
def top (s : Stack) (n : Nat) : Except Failure (List Value) :=
  if s.values.size - s.floor < n then .error underflow
  else .ok (s.values.extract (s.values.size - n) s.values.size).toList

/-- The value at a place counted from the bottom. -/
def get (s : Stack) (i : Nat) : Except Failure Value :=
  match s.values[i]? with
  | none => .error underflow
  | some v => .ok v

/-- Puts a value at a place counted from the bottom. -/
def set (s : Stack) (i : Nat) (v : Value) : Stack :=
  { s with values := s.values.setIfInBounds i v }

/-- The values from place `n` up. -/
def above (s : Stack) (n : Nat) : List Value := (s.values.extract n s.values.size).toList

/-- Takes off the values from place `n` up. -/
def truncate (s : Stack) (n : Nat) : Stack := { s with values := s.values.shrink n }

/-- Puts a value on top, for which there has to be room. -/
def put (s : Stack) (v : Value) : Stack := { s with values := s.values.push v }

/-- Puts `n` local variables on top, which are nil. -/
def putLocals (s : Stack) (n : Nat) : Stack :=
  { s with values := s.values ++ Array.replicate n .nil }

/-- Starts a call. -/
def pushFrame (s : Stack) (f : Frame) : Except Failure Stack :=
  if s.frames.length < s.settings.maxFrames then .ok { s with frames := f :: s.frames }
  else .error overflow

/-- Ends the innermost call. -/
def popFrame (s : Stack) : Stack := { s with frames := s.frames.tail }

/-- Changes the innermost call. -/
def modifyFrame (s : Stack) (f : Frame → Frame) : Stack :=
  match s.frames with
  | [] => s
  | frame :: rest => { s with frames := f frame :: rest }

/-- An argument of the innermost call, counted from zero. -/
def arg? (s : Stack) (i : Nat) : Option Value := do
  let f ← s.frame?
  if f.argc ≤ i then none else s.values[f.argBase + i]?

/-- Everything the stack owns a count of: the values, and then what the frames
    hold, the outermost first. -/
def held (s : Stack) : List Value := s.values.toList ++ s.frames.reverse.flatMap Frame.held

/-- The stack without values and calls. -/
def clear (s : Stack) : Stack := { s with values := #[], frames := [] }

end Stack

end StoryMachine
