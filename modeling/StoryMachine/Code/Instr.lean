import StoryMachine.Code.Op
import StoryMachine.Value

/-!
# Instructions

A decoded instruction: an operation with its operands. Jumps are relative to the
end of the jump; offsets into the code and constant pools are absolute.

* `Instr.op`: the operation of an instruction;
* `Instr.text`: its line in a listing.
-/

namespace StoryMachine

/-- The operations on two numbers, some of which also work on strings and
    lists. -/
inductive Arith where
  | add | sub | mul | div | mod
deriving DecidableEq, Repr

/-- The comparisons of two values. -/
inductive Relation where
  | eq | ne | lt | le | gt | ge
deriving DecidableEq, Repr

/-- When a jump is taken. -/
inductive Condition where
  /-- Whatever the stack holds. -/
  | always
  /-- If the popped value counts as true. -/
  | ifTrue
  /-- If the popped value does not count as true. -/
  | ifFalse
deriving DecidableEq, Repr

/-- An instruction. -/
inductive Instr where
  | nop
  | pushNil
  | pushTrue
  | pushInt (n : Int32)
  | pushStr (ofs : UInt32)
  | pushList (ofs : UInt32)
  | pushObj (n : UInt32)
  | pushProp (p : PropId)
  | pushFnPtr (ofs : UInt32)
  | pushSelf
  | getArg (i : UInt8)
  | getLocal (i : UInt16)
  | setLocal (i : UInt16)
  | getGlobal (i : UInt16)
  | setGlobal (i : UInt16)
  | dup
  | discard
  | swap
  | arith (op : Arith)
  | neg
  | not
  | compare (rel : Relation)
  | jump (cond : Condition) (offset : Int16)
  | getProp (p : PropId)
  | getPropSelf (p : PropId)
  | setProp (p : PropId)
  | setPropSelf (p : PropId)
  | callProp (argc : UInt8) (p : PropId)
  | callPropSelf (argc : UInt8) (p : PropId)
  | inherited (argc : UInt8) (p : PropId)
  | call (argc : UInt8) (ofs : UInt32)
  | ptrCall (argc : UInt8)
  | builtin (argc : UInt8) (func : UInt16) (set : UInt8)
  | new (argc : UInt8) (metaclass : UInt16)
  | index
  | setIndex
  | ret
  | retNil
  | retTrue
  | throw
deriving DecidableEq, Repr

namespace Arith

/-- The operation code of an arithmetic operation. -/
def op : Arith → Op
  | add => .add
  | sub => .sub
  | mul => .mul
  | div => .div
  | mod => .mod

end Arith

namespace Relation

/-- The operation code of a comparison. -/
def op : Relation → Op
  | eq => .eq
  | ne => .ne
  | lt => .lt
  | le => .le
  | gt => .gt
  | ge => .ge

end Relation

namespace Condition

/-- The operation code of a jump. -/
def op : Condition → Op
  | always => .jmp
  | ifTrue => .jt
  | ifFalse => .jf

end Condition

namespace Instr

/-- The operation of an instruction. A pushed integer counts as the long form,
    whichever form it was read from. -/
def op : Instr → Op
  | nop => .nop
  | pushNil => .pushNil
  | pushTrue => .pushTrue
  | pushInt _ => .pushInt
  | pushStr _ => .pushStr
  | pushList _ => .pushList
  | pushObj _ => .pushObj
  | pushProp _ => .pushProp
  | pushFnPtr _ => .pushFnPtr
  | pushSelf => .pushSelf
  | getArg _ => .getArg
  | getLocal _ => .getLocal
  | setLocal _ => .setLocal
  | getGlobal _ => .getGlobal
  | setGlobal _ => .setGlobal
  | dup => .dup
  | discard => .discard
  | swap => .swap
  | arith a => a.op
  | neg => .neg
  | not => .not
  | compare r => r.op
  | jump c _ => c.op
  | getProp _ => .getProp
  | getPropSelf _ => .getPropSelf
  | setProp _ => .setProp
  | setPropSelf _ => .setPropSelf
  | callProp _ _ => .callProp
  | callPropSelf _ _ => .callPropSelf
  | inherited _ _ => .inherited
  | call _ _ => .call
  | ptrCall _ => .ptrCall
  | builtin _ _ _ => .builtin
  | new _ _ => .new
  | index => .index
  | setIndex => .setIndex
  | ret => .ret
  | retNil => .retNil
  | retTrue => .retTrue
  | throw => .throw

/-- An integer with its sign, also when it is not negative. -/
def signedText (n : Int) : String := if n < 0 then toString n else "+" ++ toString n

/-- The operands of an instruction in a listing. -/
def operandText? : Instr → Option String
  | pushInt n => some (toString n.toInt)
  | pushStr ofs | pushList ofs | pushFnPtr ofs => some (at_ ofs)
  | pushObj n => some ("obj#" ++ toString n.toNat)
  | pushProp p | getProp p | getPropSelf p | setProp p | setPropSelf p => some (property p)
  | getArg i => some ("a" ++ toString i.toNat)
  | getLocal i | setLocal i => some ("l" ++ toString i.toNat)
  | getGlobal i | setGlobal i => some ("g" ++ toString i.toNat)
  | jump _ offset => some (signedText offset.toInt)
  | callProp argc p | callPropSelf argc p | inherited argc p =>
    some (property p ++ " " ++ count argc)
  | call argc ofs => some (at_ ofs ++ " " ++ count argc)
  | ptrCall argc => some (count argc)
  | builtin argc func set =>
    some (toString set.toNat ++ "." ++ toString func.toNat ++ " " ++ count argc)
  | new argc metaclass => some ("m" ++ toString metaclass.toNat ++ " " ++ count argc)
  | _ => none
where
  /-- A pool offset. -/
  at_ (ofs : UInt32) : String := "@0x" ++ hexText ofs.toNat
  /-- A property. -/
  property (p : PropId) : String := "&" ++ toString p.toNat
  /-- An argument count. -/
  count (argc : UInt8) : String := "(" ++ toString argc.toNat ++ ")"

/-- The line of an instruction in a listing. -/
def text (i : Instr) : String :=
  match i.operandText? with
  | none => i.op.name
  | some operands => i.op.name ++ " " ++ operands

end Instr

end StoryMachine
