import StoryMachine.Machine.Values
import StoryMachine.Text.Case
import StoryMachine.Text.Search

/-!
# Native methods

What the native methods of each kind of object do, and what `new` makes of its
arguments. Receivers and arguments are borrowed, and a result has a count of its
own. Positions in strings and lists count from one.

* `construct`: a new object of a metaclass;
* `NativeMethod.call`: the result of a method.
-/

namespace StoryMachine

/-! ## Arguments -/

/-- An argument, counted from zero. -/
def argument (args : List Value) (i : Nat) : MachineM Value := do
  match args[i]? with
  | some v => return v
  | none => fail Arity.mismatch

/-- A count as a value. -/
def Value.ofCount (n : Nat) : Value := .int (Int32.ofNat n)

/-- The part of `xs` from a position on, which is the first argument and may be
    the one after the last. The second argument limits the length. -/
def excerpt {α : Type} (xs : List α) (args : List Value) : MachineM (List α) := do
  let start ← expectInt (← argument args 0)
  let skipped ←
    if start.toInt = xs.length + 1 then pure xs.length else zeroBased start xs.length
  let rest := xs.drop skipped
  match args[1]? with
  | none => return rest
  | some limit => return rest.take (← expectInt limit).toInt.toNat

/-- The position of the first of the items that equals `v`, or nil; `skipped`
    items stand before them. -/
def positionAfter (skipped : Nat) (v : Value) : List Value → MachineM Value
  | [] => return .nil
  | item :: items => do
    if ← valuesEqual item v then return .ofCount (skipped + 1)
    positionAfter (skipped + 1) v items

/-- The position of the first of the items that equals `v`, or nil. -/
def positionOf (items : List Value) (v : Value) : MachineM Value := positionAfter 0 v items

/-- The elements of a vector. -/
def vectorItems (v : Value) : MachineM (List Value) := do
  match (← deref (← expectObject v)).body with
  | .vector items => return items
  | _ => fail (.badType "vector")

/-- The entries of a lookup table. -/
def tableEntries (v : Value) : MachineM (List (Value × Value)) := do
  match (← deref (← expectObject v)).body with
  | .table entries => return entries
  | _ => fail (.badType "lookup table")

/-! ## New objects -/

/-- The entries that keys and values in turn make, if their number is even. A key
    that comes again gets the later value. -/
def entriesOf? (entries : List (Value × Value)) : List Value → Option (List (Value × Value))
  | [] => some entries
  | [_] => none
  | k :: v :: rest =>
    match entries.findIdx? (·.1 == k) with
    | none => entriesOf? (entries ++ [(k, v)]) rest
    | some i => entriesOf? (entries.set i (k, v)) rest

/-- A new object of a metaclass that is of a kind. A program object gets its
    superclasses, a list or vector its elements, a lookup table its keys and
    values in turn, and a string the texts of the arguments. -/
def construct (metaclass : MetaclassId) (kind : Kind) (args : List Value) : MachineM Value := do
  match kind with
  | .program =>
    let supers ← args.mapM fun v => do
      let id ← expectObject v
      let _ ← deref id
      return id
    modifyHeap (·.retainValues args)
    allocate metaclass (.program supers .empty)
  | .list =>
    modifyHeap (·.retainValues args)
    allocate metaclass (.list args)
  | .vector =>
    modifyHeap (·.retainValues args)
    allocate metaclass (.vector args)
  | .string =>
    let texts ← args.mapM displayText
    allocate metaclass (.string (String.join texts))
  | .table =>
    match entriesOf? [] args with
    | none => fail Arity.mismatch
    | some entries =>
      let body := Body.table entries
      modifyHeap (·.retainValues body.edges)
      allocate metaclass body

/-! ## Methods -/

/-- The result of a method for its receiver and arguments. -/
def NativeMethod.call (method : NativeMethod) (this : Value) (args : List Value) :
    MachineM Value := do
  match method with
  | createInstance =>
    let id ← expectObject this
    let _ ← deref id
    newProgram [id]
  | ofKind =>
    let id ← expectObject this
    match ← argument args 0 with
    | .obj ancestor => return .ofBool (Inheritance.isInstanceOf (← get).heap.source id ancestor)
    | _ => return .nil
  | superclassList => newList ((← deref (← expectObject this)).body.supers.map .obj)
  | propDefined =>
    let id ← expectObject this
    match ← argument args 0 with
    | .prop p =>
      let metaclass := (← deref id).metaclass
      let m ← get
      return .ofBool ((Inheritance.lookup m.heap.source id p).isSome ||
        (m.image.metaclasses.native? metaclass p).isSome)
    | _ => fail (.badType "property")
  | listLength => return .ofCount (← expectList this).length
  | car =>
    match ← expectList this with
    | [] => return .nil
    | v :: _ => owned v
  | cdr =>
    match ← expectList this with
    | [] => return .nil
    | _ :: rest => newList rest
  | listIndexOf => positionOf (← expectList this) (← argument args 0)
  | listAppend => newList ((← expectList this) ++ [← argument args 0])
  | sublist => newList (← excerpt (← expectList this) args)
  | vectorLength => return .ofCount (← vectorItems this).length
  | vectorAppend =>
    let length := (← vectorItems this).length
    let id ← expectObject this
    let v ← owned (← argument args 0)
    onFault (onHeap (Heap.insertElement id length v)) (releaseValue v)
    owned this
  | removeElementAt =>
    let length := (← vectorItems this).length
    let i ← zeroBased (← expectInt (← argument args 0)) length
    onHeap (Heap.removeElement (← expectObject this) i)
  | toList => newList (← vectorItems this)
  | vectorIndexOf => positionOf (← vectorItems this) (← argument args 0)
  | stringLength => return .ofCount (← expectString this).length
  | toUpper => newString (Text.toUpper (← expectString this))
  | toLower => newString (Text.toLower (← expectString this))
  | substr => newString (String.ofList (← excerpt (← expectString this).toList args))
  | find =>
    let text ← expectString this
    let needle ← expectString (← argument args 0)
    match Text.position? needle text with
    | some i => return .ofCount (i + 1)
    | none => return .nil
  | isKeyPresent =>
    let key ← argument args 0
    return .ofBool ((← tableEntries this).any (·.1 == key))
  | removeElement =>
    let key ← argument args 0
    match (← tableEntries this).lookup key with
    | none => return .nil
    | some v =>
      let v ← owned v
      let _ ← onHeap (Heap.removeEntry (← expectObject this) key)
      return v
  | keysToList => newList ((← tableEntries this).map Prod.fst)
  | valsToList => newList ((← tableEntries this).map Prod.snd)
  | entryCount => return .ofCount (← tableEntries this).length

end StoryMachine
