import StoryMachine.Bytes
import StoryMachine.Code.Instr

/-!
# Decoding instructions

Code comes from an image that need not be well formed, so decoding checks every
byte: it gives an instruction and its length, or says why there is none.

* `Instr.decode`: the instruction that a byte string starts with;
* `Listing.ofBytes`: the instructions of a whole byte string, up to the first
  that cannot be decoded.
-/

namespace StoryMachine

/-- Why bytes are not an instruction, and where. -/
inductive DecodeError where
  /-- No operation has this code. -/
  | invalidOpcode (opcode : UInt8) (offset : Nat)
  /-- The bytes end before the instruction does. -/
  | truncated (offset : Nat)
deriving DecidableEq, Repr

namespace DecodeError

/-- What the error says. -/
def message : DecodeError → String
  | invalidOpcode opcode offset =>
    let digits := hexText opcode.toNat
    let padded := if digits.length < 2 then "0" ++ digits else digits
    "invalid opcode 0x" ++ padded ++ " at offset " ++ toString offset
  | truncated offset => "instruction at offset " ++ toString offset ++ " is truncated"

/-- The error of a part that starts at `base`. -/
def shift (base : Nat) : DecodeError → DecodeError
  | invalidOpcode opcode offset => invalidOpcode opcode (base + offset)
  | truncated offset => truncated (base + offset)

end DecodeError

/-- A signed 16-bit number. -/
def Reader.i16 : Reader Int16 := do
  return (← u16).toInt16

namespace Instr

/-- Reads the operands of an operation. -/
def operands : Op → Reader Instr
  | .nop => pure nop
  | .pushNil => pure pushNil
  | .pushTrue => pure pushTrue
  | .pushInt8 => return pushInt (← Reader.u8).toInt8.toInt32
  | .pushInt => return pushInt (← Reader.u32).toInt32
  | .pushStr => return pushStr (← Reader.u32)
  | .pushList => return pushList (← Reader.u32)
  | .pushObj => return pushObj (← Reader.u32)
  | .pushProp => return pushProp (← Reader.u16)
  | .pushFnPtr => return pushFnPtr (← Reader.u32)
  | .pushSelf => pure pushSelf
  | .getArg => return getArg (← Reader.u8)
  | .getLocal => return getLocal (← Reader.u16)
  | .setLocal => return setLocal (← Reader.u16)
  | .getGlobal => return getGlobal (← Reader.u16)
  | .setGlobal => return setGlobal (← Reader.u16)
  | .dup => pure dup
  | .discard => pure discard
  | .swap => pure swap
  | .add => pure (arith .add)
  | .sub => pure (arith .sub)
  | .mul => pure (arith .mul)
  | .div => pure (arith .div)
  | .mod => pure (arith .mod)
  | .neg => pure neg
  | .not => pure not
  | .eq => pure (compare .eq)
  | .ne => pure (compare .ne)
  | .lt => pure (compare .lt)
  | .le => pure (compare .le)
  | .gt => pure (compare .gt)
  | .ge => pure (compare .ge)
  | .jmp => return jump .always (← Reader.i16)
  | .jt => return jump .ifTrue (← Reader.i16)
  | .jf => return jump .ifFalse (← Reader.i16)
  | .getProp => return getProp (← Reader.u16)
  | .getPropSelf => return getPropSelf (← Reader.u16)
  | .setProp => return setProp (← Reader.u16)
  | .setPropSelf => return setPropSelf (← Reader.u16)
  | .callProp => return callProp (← Reader.u8) (← Reader.u16)
  | .callPropSelf => return callPropSelf (← Reader.u8) (← Reader.u16)
  | .inherited => return inherited (← Reader.u8) (← Reader.u16)
  | .call => return call (← Reader.u8) (← Reader.u32)
  | .ptrCall => return ptrCall (← Reader.u8)
  | .builtin => return builtin (← Reader.u8) (← Reader.u16) (← Reader.u8)
  | .new => return new (← Reader.u8) (← Reader.u16)
  | .index => pure index
  | .setIndex => pure setIndex
  | .ret => pure ret
  | .retNil => pure retNil
  | .retTrue => pure retTrue
  | .throw => pure throw

/-- The most bytes an instruction has. -/
def maxLength : Nat := 6

/-- The instruction that a byte string starts with, and its length. -/
def decode : Bytes → Except DecodeError (Instr × Nat)
  | [] => .error (.truncated 0)
  | b :: rest =>
    match Op.ofByte? b with
    | none => .error (.invalidOpcode b 0)
    | some op =>
      match operands op rest with
      | none => .error (.truncated 0)
      | some (i, _) => .ok (i, 1 + op.operandLength)

end Instr

/-- The instructions of a byte string with their offsets, and the error that
    ended the list before the bytes did. -/
structure Listing where
  /-- The instructions, each with the offset at which it starts. -/
  lines : List (Nat × Instr)
  /-- Why the list ends early. -/
  error? : Option DecodeError
deriving DecidableEq, Repr

namespace Listing

/-- The listing of the bytes from offset `base` on. -/
def ofBytesAt (base : Nat) (bs : Bytes) : Listing :=
  if bs = [] then ⟨[], none⟩
  else match Instr.decode bs with
    | .error e => ⟨[], some (e.shift base)⟩
    | .ok (i, n) =>
      if n = 0 then ⟨[], none⟩
      else
        let rest := ofBytesAt (base + n) (bs.drop n)
        ⟨(base, i) :: rest.lines, rest.error?⟩
termination_by bs.length
decreasing_by
  have : bs.length ≠ 0 := by simpa using ‹¬ bs = []›
  simp only [List.length_drop]
  omega

/-- The listing of a byte string. -/
def ofBytes (bs : Bytes) : Listing := ofBytesAt 0 bs

end Listing

end StoryMachine
