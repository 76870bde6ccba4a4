import StoryMachine.Object.Body

/-!
# The undo log

While a savepoint exists, every change to an object adds a record of what was
there before. The log is the list of these records, oldest first, and the
savepoints mark places in it. A record owns a count of its target and of every
value it mentions.

* `Change.revert`: a body as it was before a change, and the values that are let
  go by going back;
* `UndoLog.values`: everything the log owns a count of.
-/

namespace StoryMachine

/-- What one place of an object held before a change to it. -/
inductive Change where
  /-- A property had the given value, or none. -/
  | prop (p : PropId) (prior : Option Value)
  /-- An element had another value. -/
  | element (index : Nat) (prior : Value)
  /-- An element was not there. -/
  | inserted (index : Nat)
  /-- An element was there. -/
  | removed (index : Nat) (prior : Value)
  /-- A key of a table had the given value, or was not there. -/
  | entry (index : Nat) (key : Value) (prior : Option Value)
  /-- A key of a table was there. -/
  | entryRemoved (index : Nat) (key value : Value)
deriving DecidableEq, Repr

namespace Change

/-- The values that a change mentions. -/
def values : Change → List Value
  | prop _ prior => prior.toList
  | element _ prior => [prior]
  | inserted _ => []
  | removed _ prior => [prior]
  | entry _ key prior => key :: prior.toList
  | entryRemoved _ key value => [key, value]

/-- The body before the change, and the values that are no longer held once it
    is back. A change that does not fit the body leaves it alone and lets its
    own values go. -/
def revert (c : Change) (body : Body) : Body × List Value :=
  match body, c with
  | .program supers props, prop p prior =>
    let restored := match prior with
      | some v => props.set p v
      | none => props.erase p
    (.program supers restored, (props.get? p).toList)
  | .vector items, element index prior =>
    match items[index]? with
    | some current => (.vector (items.set index prior), [current])
    | none => (body, c.values)
  | .vector items, inserted index =>
    match items[index]? with
    | some current => (.vector (items.eraseIdx index), [current])
    | none => (body, c.values)
  | .vector items, removed index prior =>
    if index ≤ items.length then (.vector (items.insertIdx index prior), [])
    else (body, c.values)
  | .table entries, entry index key prior =>
    match entries[index]?.filter (·.1 == key), prior with
    | some (k, v), none => (.table (entries.eraseIdx index), [key, k, v])
    | some (k, v), some prior => (.table (entries.set index (k, prior)), [key, v])
    | none, prior => (body, key :: prior.toList)
  | .table entries, entryRemoved index key value =>
    (.table (entries.insertIdx (min index entries.length) (key, value)), [])
  | body, c => (body, c.values)

end Change

/-- A change and the object it was made to. -/
structure UndoRecord where
  /-- The object. -/
  target : ObjectId
  /-- What it held before. -/
  change : Change
deriving DecidableEq, Repr

/-- The values that a record owns a count of. -/
def UndoRecord.values (r : UndoRecord) : List Value := .obj r.target :: r.change.values

/-- A place in the log to which one can go back. -/
structure Savepoint where
  /-- The number that names the savepoint. -/
  id : UInt32
  /-- The number of records made before it. -/
  start : Nat
deriving DecidableEq, Inhabited, Repr

/-- The log of changes. -/
structure UndoLog where
  /-- The most savepoints that are kept. -/
  maxSavepoints : Nat := 64
  /-- The records, oldest first. -/
  records : Array UndoRecord := #[]
  /-- The savepoints, oldest first. -/
  savepoints : List Savepoint := []
  /-- The number of the next savepoint. -/
  nextId : UInt32 := 1
deriving Inhabited

namespace UndoLog

/-- Whether changes are recorded: only while there is a savepoint. -/
def isRecording (log : UndoLog) : Bool := !log.savepoints.isEmpty

/-- Everything the log owns a count of. -/
def values (log : UndoLog) : List Value := log.records.toList.flatMap UndoRecord.values

end UndoLog

end StoryMachine
