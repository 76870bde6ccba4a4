import StoryMachine.Machine.Frames
import StoryMachine.Machine.Intrinsics

/-!
# Steps

What each instruction does. An instruction that faults has released what it took
off the stack, other than arguments of a call that did not start.

* `resolve`: what evaluating a property of a value means;
* `invoke`, `invokeInherited`: evaluating a property;
* `step`: one instruction.
-/

namespace StoryMachine

/-- What happens after an instruction. -/
inductive Flow where
  /-- The next instruction. -/
  | next
  /-- The innermost call ends with a result, whose count goes with it. -/
  | returned (v : Value)
deriving DecidableEq, Repr

/-! ## Variables and jumps -/

/-- An argument of the innermost call, counted from zero. One that the method
    declares and the call did not give is empty. -/
def argumentAt (i : Nat) : MachineM Value := do
  let f ← currentFrame
  if i < f.argc then liftExcept ((← get).stack.get (f.argBase + i))
  else if i < f.header.argc.toNat + f.header.optArgc.toNat then return .empty
  else fail (.indexOutOfRange (i + 1))

/-- The place of a local variable on the stack. -/
def localPlace (i : UInt16) : MachineM Nat := do
  let f ← currentFrame
  if f.header.locals ≤ i then
    fail ⟨.badBytecode,
      ["local " ++ toString i.toNat ++ " beyond the " ++ toString f.header.locals.toNat ++
        " declared"]⟩
  return f.localBase + i.toNat

/-- There is no such global variable. -/
def noGlobal (i : UInt16) : Failure := ⟨.indexOutOfRange, ["global " ++ toString i.toNat]⟩

/-- Moves the place of the next instruction, which may not come before the
    method. -/
def jump (offset : Int16) : MachineM Unit := do
  let f ← currentFrame
  let target := (f.next.toNat : Int) + offset.toInt
  if target < f.method.toNat ∨ 4294967295 < target then
    fail ⟨.badBytecode, ["jump outside the method"]⟩
  modifyFrame fun f => { f with next := UInt32.ofNat target.toNat }

/-! ## Properties -/

/-- What evaluating a property means. -/
inductive Resolved where
  /-- Calling the method at a code offset, which was found in an object. -/
  | method (ofs : UInt32) (holder : ObjectId)
  /-- A value. -/
  | data (v : Value)
  /-- Calling a native method. -/
  | native (method : NativeMethod)
deriving DecidableEq, Repr

/-- What a property means that was found in an object. -/
def Resolved.ofFound (found : Found) : Resolved :=
  match found.value with
  | .method ofs => method ofs found.holder
  | v => data v

/-- What a property means if its native method is as given. -/
def resolvedNative (p : PropId) (method? : Option NativeMethod) : MachineM Resolved := do
  match method? with
  | some method => return .native method
  | none => fail ⟨.undefinedProperty, [toString p.toNat]⟩

/-- What evaluating a property of a value means: what the object has or inherits,
    and otherwise a native method. -/
def resolve (target : Value) (p : PropId) : MachineM Resolved := do
  match target with
  | .obj id =>
    match Inheritance.lookup (← get).heap.source id p with
    | some found => return .ofFound found
    | none =>
      let metaclass := (← deref id).metaclass
      resolvedNative p ((← get).image.metaclasses.native? metaclass p)
  | .stringConst _ => resolvedNative p ((← get).image.metaclasses.nativeForKind? .string p)
  | .listConst _ => resolvedNative p ((← get).image.metaclasses.nativeForKind? .list p)
  | _ => fail (.badType "object")

/-- Calls a native method with the top operands as arguments. The count of the
    receiver is released. -/
def callNative (method : NativeMethod) (this : Value) (argc : Nat) : MachineM Unit :=
  let call : MachineM Unit := do
    liftExcept (method.arity.check argc)
    callWithArgs argc (method.call this)
  andAfter call (releaseValue this)

/-- Starts a method found in an object. The count of the receiver goes over to the
    call. -/
def enterMethod (ofs : UInt32) (holder : ObjectId) (this : Value) (p : PropId) (argc : Nat) :
    MachineM Unit := do
  retainValue (.obj holder)
  enter ofs argc this (some holder) (some p)

/-- Evaluates a property with the top operands as arguments. The count of the
    receiver goes over to the call or is released. -/
def invoke (target : Value) (p : PropId) (argc : Nat) : MachineM Unit := do
  match ← onFault (resolve target p) (releaseValue target) with
  | .method ofs holder => enterMethod ofs holder target p argc
  | .data v =>
    let v ← owned v
    releaseValue target
    if 0 < argc then
      releaseValue v
      fail Arity.mismatch
    push v
  | .native method => callNative method target argc

/-- Evaluates a property as it is inherited past the object in which the running
    method was found. -/
def invokeInherited (p : PropId) (argc : Nat) : MachineM Unit := do
  let f ← currentFrame
  match f.self, f.definer? with
  | .obj self, some definer =>
    match Inheritance.lookupInherited (← get).heap.source self definer p with
    | some found =>
      match Resolved.ofFound found with
      | .method ofs holder => enterMethod ofs holder (← owned f.self) p argc
      | _ =>
        if 0 < argc then fail Arity.mismatch
        push (← owned found.value)
    | none =>
      let metaclass := (← deref self).metaclass
      match (← get).image.metaclasses.native? metaclass p with
      | some method => callNative method (← owned f.self) argc
      | none => fail ⟨.undefinedProperty, [toString p.toNat]⟩
  | _, _ => fail ⟨.undefinedProperty, [toString p.toNat]⟩

/-- Gives an object a property. The count of the value goes over to the object or
    is released, and that of the object is released. -/
def assign (target : Value) (p : PropId) (v : Value) : MachineM Unit :=
  let store : MachineM Unit := do
    match target with
    | .obj id => onHeap (Heap.setProp id p v)
    | _ => fail (.badType "object")
  andAfter (onFault store (releaseValue v)) (releaseValue target)

/-! ## Instructions -/

/-- Puts the negation of the top operand in its place. -/
def negateTop : MachineM Unit := do
  let v ← pop
  releaseValue v
  push (← liftExcept (negated v))

/-- Gives an element of a container a value; the container, the position and the
    value are the top operands. -/
def storeElement : MachineM Unit := do
  let vs ← popValues 3
  let store : MachineM Value := match vs with
    | [container, position, v] => withElement container position v
    | _ => fail Stack.underflow
  push (← andAfter store (releaseValues vs))

/-- Puts a value into a global variable. -/
def setGlobal (i : UInt16) : MachineM Unit := do
  let v ← pop
  match (← get).globals[i.toNat]? with
  | none =>
    releaseValue v
    fail (noGlobal i)
  | some old =>
    modify fun m => { m with globals := m.globals.setIfInBounds i.toNat v }
    releaseValue old

/-- Puts a value into a local variable. -/
def setLocal (i : UInt16) : MachineM Unit := do
  let place ← localPlace i
  let v ← pop
  let old ← liftExcept ((← get).stack.get place)
  modifyStack (·.set place v)
  releaseValue old

/-- Calls what the top operand is: a function, or a property of the receiver. -/
def callPointer (argc : Nat) : MachineM Unit := do
  match ← pop with
  | .function ofs => enter ofs argc .nil none none
  | .prop p => invoke (← ownedSelf) p argc
  | v =>
    releaseValue v
    fail (.badType "function pointer")

/-- Makes an object with the top operands as arguments. -/
def makeObject (metaclass : MetaclassId) (argc : Nat) : MachineM Unit := do
  match (← get).image.metaclasses.get? metaclass with
  | none => fail ⟨.badMetaclassIndex, [toString metaclass.toNat]⟩
  | some entry => callWithArgs argc (construct metaclass entry.kind)

/-- Calls an intrinsic function with the top operands as arguments. -/
def callIntrinsic (set : UInt8) (func : UInt16) (argc : Nat) : MachineM Unit := do
  let f ← liftExcept ((← get).image.functionSets.resolve set func)
  liftExcept (f.arity.checkOpen argc)
  callWithArgs argc f.call

/-- Does a jump if the popped operand is as its condition says. -/
def jumpIf (cond : Condition) (offset : Int16) : MachineM Unit := do
  match cond with
  | .always => jump offset
  | .ifTrue | .ifFalse =>
    let v ← pop
    releaseValue v
    if v.isTrue = (cond = .ifTrue : Bool) then jump offset

/-- Does an instruction that is neither a return nor a throw. -/
def act (i : Instr) : MachineM Unit := do
  match i with
  | .nop | .ret | .retNil | .retTrue | .throw => return
  | .pushNil => push .nil
  | .pushTrue => push .truth
  | .pushInt n => push (.int n)
  | .pushStr ofs => push (.stringConst ofs)
  | .pushList ofs => push (.listConst ofs)
  | .pushObj n => push (← owned (.obj (.ofImage n)))
  | .pushProp p => push (.prop p)
  | .pushFnPtr ofs => push (.function ofs)
  | .pushSelf => push (← ownedSelf)
  | .getArg i => push (← owned (← argumentAt i.toNat))
  | .getLocal i =>
    let place ← localPlace i
    push (← owned (← liftExcept ((← get).stack.get place)))
  | .setLocal i => setLocal i
  | .getGlobal i =>
    match (← get).globals[i.toNat]? with
    | some v => push (← owned v)
    | none => fail (noGlobal i)
  | .setGlobal i => setGlobal i
  | .dup => push (← owned (← liftExcept ((← get).stack.peek 0)))
  | .discard => releaseValue (← pop)
  | .swap =>
    let (a, b) ← popTwo
    push b
    push a
  | .arith op => onOperands (arithmetic op)
  | .neg => negateTop
  | .not =>
    let v ← pop
    releaseValue v
    push (.ofBool !v.isTrue)
  | .compare rel => onOperands (compareBy rel)
  | .jump cond offset => jumpIf cond offset
  | .getProp p => invoke (← pop) p 0
  | .getPropSelf p => invoke (← ownedSelf) p 0
  | .setProp p =>
    let (v, target) ← popTwo
    assign target p v
  | .setPropSelf p =>
    let v ← pop
    let target ← onFault ownedSelf (releaseValue v)
    assign target p v
  | .callProp argc p => invoke (← pop) p argc.toNat
  | .callPropSelf argc p => invoke (← ownedSelf) p argc.toNat
  | .inherited argc p => invokeInherited p argc.toNat
  | .call argc ofs => enter ofs argc.toNat .nil none none
  | .ptrCall argc => callPointer argc.toNat
  | .builtin argc func set => callIntrinsic set func argc.toNat
  | .new argc metaclass => makeObject metaclass argc.toNat
  | .index => onOperands elementAt
  | .setIndex => storeElement

/-- Throws the top operand, which has to be an object. -/
def throwTop : MachineM Flow := do
  match ← pop with
  | .obj id => throw (.thrown (.obj id))
  | v =>
    releaseValue v
    fail (.badType "object")

/-- Does an instruction. -/
def step (i : Instr) : MachineM Flow := do
  match i with
  | .ret => return .returned (← pop)
  | .retNil => return .returned .nil
  | .retTrue => return .returned .truth
  | .throw => throwTop
  | i =>
    act i
    return .next

end StoryMachine
