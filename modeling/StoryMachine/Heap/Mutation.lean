import StoryMachine.Heap.Counts

/-!
# Changing objects

The only operations that change what an object holds. Each takes over the counts
of the values it stores, and records what was there before if a savepoint exists;
otherwise it releases what was there.

* `Heap.setProp`, `Heap.removeProp`: properties of program objects;
* `Heap.setElement`, `Heap.insertElement`, `Heap.removeElement`: vectors;
* `Heap.putEntry`, `Heap.removeEntry`: lookup tables.
-/

namespace StoryMachine.Heap

/-- Records a change that has been made, or lets go of what it replaced. -/
def record (h : Heap) (target : ObjectId) (change : Change) : Heap :=
  if h.undo.isRecording then
    let h := h.retain target
    { h with undo := { h.undo with records := h.undo.records.push ⟨target, change⟩ } }
  else h.releaseValues change.values

/-- Gives an object another body. -/
def setBody (h : Heap) (id : ObjectId) (body : Body) : Heap :=
  h.modifyOccupant id fun o => { o with object := { o.object with body } }

/-- Changes the body of an object in a way that may fail, and says what the
    change was. -/
def changeBody {α : Type} (id : ObjectId) (f : Body → Except HeapError (α × Body)) : HeapM α := do
  match (← get).get? id with
  | none => throw (.invalidObject id)
  | some o =>
    match f o.body with
    | .error e => throw e
    | .ok (a, body) =>
      modify (·.setBody id body)
      return a

/-- The superclasses and properties of a program object. -/
def asProgram (id : ObjectId) : Body → Except HeapError (List ObjectId × PropTable)
  | .program supers props => .ok (supers, props)
  | _ => .error (.wrongKind id "tads-object")

/-- The elements of a vector. -/
def asVector (id : ObjectId) : Body → Except HeapError (List Value)
  | .vector items => .ok items
  | _ => .error (.wrongKind id "vector")

/-- The entries of a lookup table. -/
def asTable (id : ObjectId) : Body → Except HeapError (List (Value × Value))
  | .table entries => .ok entries
  | _ => .error (.wrongKind id "lookup table")

/-- Gives a property of a program object a value. -/
def setProp (id : ObjectId) (p : PropId) (v : Value) : HeapM Unit := do
  let prior ← changeBody id fun body => do
    let (supers, props) ← asProgram id body
    return (props.get? p, .program supers (props.set p v))
  modify (·.record id (.prop p prior))

/-- Takes a property from a program object; whether it had it. -/
def removeProp (id : ObjectId) (p : PropId) : HeapM Bool := do
  let prior ← changeBody id fun body => do
    let (supers, props) ← asProgram id body
    return (props.get? p, .program supers (props.erase p))
  match prior with
  | none => return false
  | some v =>
    modify (·.record id (.prop p (some v)))
    return true

/-- Replaces an element of a vector. -/
def setElement (id : ObjectId) (index : Nat) (v : Value) : HeapM Unit := do
  let prior ← changeBody id fun body => do
    let items ← asVector id body
    match items[index]? with
    | none => .error (.indexOutOfRange index items.length)
    | some prior => .ok (prior, .vector (items.set index v))
  modify (·.record id (.element index prior))

/-- Inserts an element into a vector before the one at `index`, or at its end. -/
def insertElement (id : ObjectId) (index : Nat) (v : Value) : HeapM Unit := do
  changeBody id fun body => do
    let items ← asVector id body
    if items.length < index then .error (.indexOutOfRange index items.length)
    else .ok ((), .vector (items.insertIdx index v))
  modify (·.record id (.inserted index))

/-- Takes an element out of a vector. The caller owns a count of it. -/
def removeElement (id : ObjectId) (index : Nat) : HeapM Value := do
  let removed ← changeBody id fun body => do
    let items ← asVector id body
    match items[index]? with
    | none => .error (.indexOutOfRange index items.length)
    | some removed => .ok (removed, .vector (items.eraseIdx index))
  modify (·.retainValue removed)
  modify (·.record id (.removed index removed))
  return removed

/-- Gives a key of a lookup table a value. A new key goes to the end, and then
    its record owns a count of it beside the table's. -/
def putEntry (id : ObjectId) (key v : Value) : HeapM Unit := do
  let (index, prior) ← changeBody id fun body => do
    let entries ← asTable id body
    match entries.findIdx? (·.1 == key) with
    | none => return ((entries.length, none), .table (entries ++ [(key, v)]))
    | some i =>
      let kept := (entries[i]?.map Prod.fst).getD key
      return ((i, entries[i]?.map Prod.snd), .table (entries.set i (kept, v)))
  if prior.isNone then modify (·.retainValue key)
  modify (·.record id (.entry index key prior))

/-- Takes a key out of a lookup table; whether it was there. -/
def removeEntry (id : ObjectId) (key : Value) : HeapM Bool := do
  let removed ← changeBody id fun body => do
    let entries ← asTable id body
    match entries.findIdx? (·.1 == key) with
    | none => return (none, body)
    | some i => return (entries[i]?.map (i, ·), .table (entries.eraseIdx i))
  match removed with
  | none => return false
  | some (i, key, v) =>
    modify (·.record id (.entryRemoved i key v))
    return true

end StoryMachine.Heap
