import StoryMachine.Heap.Counts

/-!
# Going back

A savepoint marks a place in the log of changes. Going back to it reverts the
changes made since, the latest first, and ends it and all later savepoints.

* `Heap.beginSavepoint`: a new savepoint, the oldest being dropped if there are
  too many;
* `Heap.undoTo`, `Heap.undoLast`: going back;
* `Heap.commit`: no going back any more.
-/

namespace StoryMachine.Heap

/-- Lets go of everything that a record owns. -/
def discardRecord (h : Heap) (r : UndoRecord) : Heap :=
  (h.releaseValues r.change.values).release r.target

/-- Reverts the change of a record and lets go of what the record owns and the
    change had put in place. If the object is gone there is nothing to revert. -/
def applyUndo (h : Heap) (r : UndoRecord) : Heap :=
  match h.occupant? r.target with
  | none => h.releaseValues r.change.values
  | some o =>
    let (body, released) := r.change.revert o.object.body
    let h := h.modifyOccupant r.target fun o => { o with object := { o.object with body } }
    (h.releaseValues released).release r.target

/-- Drops the oldest savepoint with the records up to the next one. -/
def dropOldest (h : Heap) : Heap :=
  match h.undo.savepoints with
  | [] => h
  | _ :: rest =>
    let count := (rest.head?.map Savepoint.start).getD h.undo.records.size
    let dropped := h.undo.records.extract 0 count
    let undo :=
      { h.undo with
        records := h.undo.records.extract count h.undo.records.size
        savepoints := rest.map fun s => { s with start := s.start - count } }
    dropped.foldl discardRecord { h with undo }

/-- Sets a new savepoint and gives its number. -/
def beginSavepoint (h : Heap) : UInt32 × Heap :=
  let h := if h.undo.maxSavepoints ≤ h.undo.savepoints.length then h.dropOldest else h
  let id := h.undo.nextId
  let undo :=
    { h.undo with
      savepoints := h.undo.savepoints ++ [⟨id, h.undo.records.size⟩]
      nextId := id + 1 }
  (id, { h with undo })

/-- Reverts the records after the first `start`, the latest first. -/
def unwindTo (h : Heap) (start : Nat) : Heap :=
  let undone := h.undo.records.extract start h.undo.records.size
  let undo := { h.undo with records := h.undo.records.extract 0 start }
  undone.toList.reverse.foldl applyUndo { h with undo }

/-- Goes back to a savepoint, which ends with all later ones; whether there is
    such a savepoint. -/
def undoTo (h : Heap) (id : UInt32) : Bool × Heap :=
  match h.undo.savepoints.find? (·.id == id) with
  | none => (false, h)
  | some s =>
    let kept := h.undo.savepoints.takeWhile (·.id != id)
    (true, unwindTo { h with undo := { h.undo with savepoints := kept } } s.start)

/-- Goes back to the latest savepoint; whether there is one. -/
def undoLast (h : Heap) : Bool × Heap :=
  match h.undo.savepoints.getLast? with
  | none => (false, h)
  | some s => h.undoTo s.id

/-- Ends all savepoints and keeps the changes. -/
def commit (h : Heap) : Heap :=
  let records := h.undo.records
  let undo := { h.undo with records := #[], savepoints := [] }
  records.foldl discardRecord { h with undo }

end StoryMachine.Heap
