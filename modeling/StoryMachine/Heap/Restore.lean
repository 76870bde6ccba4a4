import StoryMachine.Heap.Counts

/-!
# Filling a table from a saved state

A saved state puts objects back under the very names they had. The table is
cleared first, and the counts are worked out anew at the end.

* `Heap.clear`: no objects, and no name from before means anything;
* `Heap.insertRestored`: an object under a given name;
* `Heap.rebuildCounts`: counts as the objects, the roots and the log say.
-/

namespace StoryMachine

/-- The slot with no count of the object in it. -/
def Slot.uncounted (s : Slot) : Slot :=
  { s with occupant? := s.occupant?.map fun o => { o with refs := 0 } }

namespace Heap

/-- Drops every object and the whole log. -/
def clear (h : Heap) : Heap :=
  { h with
    slots := h.slots.map fun s => if s.occupant?.isSome then s.vacated else s
    free := []
    live := 0
    allocated := 0
    undo := { maxSavepoints := h.settings.maxSavepoints }
    wrapped := h.wrapped || h.slots.any fun s => s.occupant?.isSome && s.isLast }

/-- Checks that an object could have the given name. -/
def checkRestorable (h : Heap) (id : ObjectId) : Except HeapError Unit :=
  if id.index < HeapSettings.reserved then .error (.invalidObject id)
  else if h.settings.maxObjects ≤ id.index then .error (.outOfMemory h.settings.maxObjects)
  else .ok ()

/-- Puts an object back under its name. It has no counts yet. -/
def insertRestored (id : ObjectId) (object : Object) (persistent : Bool) : HeapM Unit := do
  match (← get).checkRestorable id with
  | .error e => throw e
  | .ok () => pure ()
  let i := id.index.toNat
  modify (·.grow i)
  if (← get).isOccupied i then throw (.duplicateObject id.index)
  modify fun h =>
    let h := h.modifySlot i fun _ => ⟨id.generation, some ⟨object, 0, persistent⟩⟩
    { h with live := h.live + 1 }

/-- Every value held by an object, by ascending slot. -/
def edges (h : Heap) : List Value := h.slots.toList.flatMap Slot.edges

/-- Works out every count anew from the objects, the roots and the log. -/
def rebuildCounts (h : Heap) (roots : List Value) : Heap :=
  let held := h.edges ++ roots ++ h.undo.values
  { h with slots := h.slots.map Slot.uncounted }.retainValues held

end Heap

end StoryMachine
