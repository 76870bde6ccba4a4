import StoryMachine.Machine.Basic
import StoryMachine.SavedState.Format

/-!
# Saving and restoring

A machine can be put back to a state that was saved before, also while a program
runs. The stack is not a part of the state: what it holds of objects that are not
there any more becomes nil.

* `Machine.saveState`: the bytes of the state;
* `Machine.restore`: puts the machine back to the state that bytes hold;
* `Machine.restoreState`: the machine with the state that bytes hold.
-/

namespace StoryMachine

namespace Machine

/-- What there is to save. -/
def savedState (m : Machine) : SavedState where
  objects := m.heap.ids.filterMap fun id =>
    (m.heap.get? id).map fun object => ⟨id, m.heap.isPersistent id, object⟩
  globals := m.globals.toList

/-- Frees what cannot be reached, and gives the bytes of the state. -/
def saveState (m : Machine) : Bytes × Machine :=
  let (_, m) := m.collectGarbage
  (m.savedState.encode m.image.metaclasses m.image.identity, m)

end Machine

/-- A value, or nil if it names an object that is not there. -/
def Heap.liveOrNil (h : Heap) (v : Value) : Value :=
  match v with
  | .obj id => if h.contains id then v else .nil
  | v => v

/-- The stack without what it holds of objects that are not there. -/
def Stack.scrub (s : Stack) (h : Heap) : Stack :=
  { s with
    values := s.values.map h.liveOrNil
    frames := s.frames.map fun f =>
      { f with self := h.liveOrNil f.self, definer? := f.definer?.filter h.contains } }

/-- A part of restoring a state. One that fails keeps what it has done so far. -/
abbrev RestoreM := EStateM Failure Machine

namespace Machine

/-- Puts back an object of a state. -/
def insertSaved (o : SavedObject) : RestoreM Unit := fun m =>
  let heap := m.heap
  let m := { m with heap := default }
  match Heap.insertRestored o.id o.object o.persistent heap with
  | .ok () heap => .ok () { m with heap }
  | .error e heap => .error (SavedState.corrupt e.failure.message) { m with heap }

/-- The machine with the objects of a state as its own, which gets the variables of
    the state too. Of its globals there stay as many as it has. -/
def adopt (m : Machine) (saved : List Value) : Machine :=
  let heap := m.heap.openHoles
  let saved := saved.toArray
  let m :=
    { m with
      heap
      globals := m.globals.mapIdx fun i _ => saved.getD i .nil
      stack := m.stack.scrub heap
      result := heap.liveOrNil m.result
      raised := [] }
  { m with heap := m.heap.rebuildCounts m.roots }

/-- Puts a state in place of that of the machine. -/
def replaceState (s : SavedState) : RestoreM Unit := do
  modify fun m => { m with heap := m.heap.clear }
  s.objects.forM insertSaved
  modify (·.adopt s.globals)

/-- Puts the machine back to the state that the bytes hold, if they hold one of its
    image. -/
def restore (bs : Bytes) : RestoreM Unit := do
  let m ← get
  match SavedState.parse m.heap m.image.metaclasses m.image.identity bs with
  | .ok s => replaceState s
  | .error f => throw f

/-- The machine with the state that the bytes hold, if they hold one of its
    image. -/
def restoreState (m : Machine) (bs : Bytes) : Except Failure Machine :=
  match restore bs m with
  | .ok () m => .ok m
  | .error f _ => .error f

end Machine

end StoryMachine
