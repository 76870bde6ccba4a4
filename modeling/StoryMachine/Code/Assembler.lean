import StoryMachine.Code.Method

/-!
# Assembling code

An assembler collects the bytes of instructions, either of a bare stream or of a
method with a header before and an exception table after them. A forward jump is
written with an open offset, which is filled in when its label is bound.

* `Assembler.emit`: one more instruction;
* `Assembler.jump`, `Assembler.bind`: a forward jump and its target;
* `Assembler.finish`: the bytes.
-/

namespace StoryMachine

/-- Code under construction. -/
structure Assembler where
  /-- The bytes so far, the method header among them. -/
  code : Array UInt8 := #[]
  /-- The header, if the code is a method. -/
  header? : Option MethodHeader := none
  /-- The protected ranges, in the order they were added. -/
  handlers : List ExceptionEntry := []
deriving Inhabited

namespace Assembler

/-- A forward jump whose target is not known yet. -/
structure Label where
  /-- Where the two bytes of its offset are. -/
  operandAt : Nat
  /-- Where the jump ends, from which its offset counts. -/
  base : Nat
deriving DecidableEq, Inhabited, Repr

/-- An empty stream of instructions. -/
def bare : Assembler := {}

/-- A method without instructions. -/
def method (h : MethodHeader) : Assembler := { code := h.encode.toArray, header? := some h }

/-- The number of bytes so far, which is where the next instruction starts. -/
def offset (a : Assembler) : Nat := a.code.size

/-- Adds bytes at the end. -/
def append (a : Assembler) (bs : Bytes) : Assembler := { a with code := a.code.appendList bs }

/-- Adds an operation that has no operands. -/
def operation (a : Assembler) (op : Op) : Assembler := a.append [op.byte]

/-- The bytes of an integer push, short if the number has eight bits. -/
def pushIntBytes (n : Int32) : Bytes :=
  if -128 ≤ n.toInt ∧ n.toInt ≤ 127 then [Op.pushInt8.byte, n.toInt8.toUInt8]
  else Op.pushInt.byte :: Bytes.u32 n.toUInt32

/-- The bytes of an instruction. -/
def encode : Instr → Bytes
  | .pushInt n => pushIntBytes n
  | i => i.op.byte :: operandBytes i
where
  /-- The operand bytes of an instruction other than an integer push. -/
  operandBytes : Instr → Bytes
    | .pushStr ofs | .pushList ofs | .pushFnPtr ofs => Bytes.u32 ofs
    | .pushObj n => Bytes.u32 n
    | .pushProp p | .getProp p | .getPropSelf p | .setProp p | .setPropSelf p => Bytes.u16 p
    | .getArg i => [i]
    | .getLocal i | .setLocal i | .getGlobal i | .setGlobal i => Bytes.u16 i
    | .jump _ offset => Bytes.u16 offset.toUInt16
    | .callProp argc p | .callPropSelf argc p | .inherited argc p => argc :: Bytes.u16 p
    | .call argc ofs => argc :: Bytes.u32 ofs
    | .ptrCall argc => [argc]
    | .builtin argc func set => argc :: (Bytes.u16 func ++ [set])
    | .new argc metaclass => argc :: Bytes.u16 metaclass
    | _ => []

/-- Adds an instruction. -/
def emit (a : Assembler) (i : Instr) : Assembler := a.append (encode i)

/-- The offset of a jump that ends at `base` and goes to `target`, reduced to
    sixteen bits. -/
def distance (base target : Nat) : Int16 := Int16.ofInt ((target : Int) - base)

/-- Adds a forward jump, which goes nowhere until its label is bound. -/
def jump (a : Assembler) (cond : Condition) : Label × Assembler :=
  let done := a.emit (.jump cond 0)
  ({ operandAt := a.offset + 1, base := done.offset }, done)

/-- Makes a forward jump go to the end of the code so far. -/
def bind (a : Assembler) (l : Label) : Assembler :=
  let bs := Bytes.u16 (distance l.base a.offset).toUInt16
  let code := a.code.setIfInBounds l.operandAt (bs.getD 0 0)
  { a with code := code.setIfInBounds (l.operandAt + 1) (bs.getD 1 0) }

/-- Adds a jump to an offset that is known. -/
def jumpTo (a : Assembler) (cond : Condition) (target : Nat) : Assembler :=
  a.emit (.jump cond (distance (a.offset + 3) target))

/-- Protects the code from `start` up to `stop` by a handler; positions are cut to
    sixteen bits. -/
def addHandler (a : Assembler) (start stop : Nat) (class_ : UInt32) (handler : Nat) :
    Assembler :=
  { a with handlers := a.handlers ++ [{ start := .ofNat start, stop := .ofNat stop, class_
                                        handler := .ofNat handler }] }

/-- The finished bytes. A method with handlers gets its exception table at the
    end and the place of the table in its header. -/
def finish (a : Assembler) : Bytes :=
  match a.header?, a.handlers with
  | some h, _ :: _ =>
    { h with excTable := .ofNat a.offset }.encode ++ a.code.toList.drop MethodHeader.size ++
      ExceptionTable.encode a.handlers
  | _, _ => a.code.toList

end Assembler

end StoryMachine
