/-!
# Operation codes

The operations of the stack machine. An instruction is one byte that says which
operation it is, and a fixed number of operand bytes after it.

* `Op.all`: the operations by ascending code;
* `Op.ofByte?`, `Op.byte`: between operations and their codes;
* `Op.operandLength`: the number of operand bytes.
-/

namespace StoryMachine

/-- An operation of the machine. -/
inductive Op where
  | nop | pushNil | pushTrue | pushInt8 | pushInt | pushStr | pushList | pushObj | pushProp
  | pushFnPtr | pushSelf | getArg | getLocal | setLocal | getGlobal | setGlobal | dup | discard
  | swap | add | sub | mul | div | mod | neg | not | eq | ne | lt | le | gt | ge | jmp | jt | jf
  | getProp | getPropSelf | setProp | setPropSelf | callProp | callPropSelf | inherited | call
  | ptrCall | builtin | new | index | setIndex | ret | retNil | retTrue | throw
deriving DecidableEq, Inhabited, Repr

namespace Op

/-- Every operation, in the order of their codes. -/
def all : Array Op :=
  #[nop, pushNil, pushTrue, pushInt8, pushInt, pushStr, pushList, pushObj, pushProp, pushFnPtr,
    pushSelf, getArg, getLocal, setLocal, getGlobal, setGlobal, dup, discard, swap, add, sub, mul,
    div, mod, neg, not, eq, ne, lt, le, gt, ge, jmp, jt, jf, getProp, getPropSelf, setProp,
    setPropSelf, callProp, callPropSelf, inherited, call, ptrCall, builtin, new, index, setIndex,
    ret, retNil, retTrue, throw]

/-- The operation with the given code. -/
def ofByte? (b : UInt8) : Option Op := all[b.toNat]?

/-- The code of an operation. -/
def byte (op : Op) : UInt8 := UInt8.ofNat op.ctorIdx

/-- The name of an operation. -/
def name : Op → String
  | nop => "Nop"
  | pushNil => "PushNil"
  | pushTrue => "PushTrue"
  | pushInt8 => "PushInt8"
  | pushInt => "PushInt"
  | pushStr => "PushStr"
  | pushList => "PushList"
  | pushObj => "PushObj"
  | pushProp => "PushProp"
  | pushFnPtr => "PushFnPtr"
  | pushSelf => "PushSelf"
  | getArg => "GetArg"
  | getLocal => "GetLocal"
  | setLocal => "SetLocal"
  | getGlobal => "GetGlobal"
  | setGlobal => "SetGlobal"
  | dup => "Dup"
  | discard => "Discard"
  | swap => "Swap"
  | add => "Add"
  | sub => "Sub"
  | mul => "Mul"
  | div => "Div"
  | mod => "Mod"
  | neg => "Neg"
  | not => "Not"
  | eq => "Eq"
  | ne => "Ne"
  | lt => "Lt"
  | le => "Le"
  | gt => "Gt"
  | ge => "Ge"
  | jmp => "Jmp"
  | jt => "Jt"
  | jf => "Jf"
  | getProp => "GetProp"
  | getPropSelf => "GetPropSelf"
  | setProp => "SetProp"
  | setPropSelf => "SetPropSelf"
  | callProp => "CallProp"
  | callPropSelf => "CallPropSelf"
  | inherited => "Inherited"
  | call => "Call"
  | ptrCall => "PtrCall"
  | builtin => "Builtin"
  | new => "New"
  | index => "Index"
  | setIndex => "SetIndex"
  | ret => "Return"
  | retNil => "RetNil"
  | retTrue => "RetTrue"
  | throw => "Throw"

/-- The operation with the given name. -/
def ofName? (s : String) : Option Op := all.find? (·.name == s)

/-- The number of operand bytes after the code. -/
def operandLength : Op → Nat
  | pushInt8 | getArg | ptrCall => 1
  | pushProp | getLocal | setLocal | getGlobal | setGlobal | jmp | jt | jf | getProp
  | getPropSelf | setProp | setPropSelf => 2
  | callProp | callPropSelf | inherited | new => 3
  | pushInt | pushStr | pushList | pushObj | pushFnPtr | builtin => 4
  | call => 5
  | _ => 0

/-- Whether control never reaches the instruction after this operation. -/
def isTerminator : Op → Bool
  | jmp | ret | retNil | retTrue | throw => true
  | _ => false

end Op

end StoryMachine
