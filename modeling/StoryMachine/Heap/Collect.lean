import StoryMachine.Heap.Counts

/-!
# Collecting cycles

Counts free what nothing holds; objects that hold each other are found by marking
everything that can be reached from the roots, the persistent objects and the
undo log, and freeing the rest.

* `Heap.mark`: the slots that can be reached from some names;
* `Heap.collect`: the table without what cannot be reached.
-/

namespace StoryMachine

/-- What a collection did. -/
structure CollectStats where
  /-- The number of objects reached. -/
  marked : Nat
  /-- The number of objects freed. -/
  freed : Nat
  /-- The number of objects left. -/
  live : Nat
deriving DecidableEq, Repr

namespace Heap

/-- The number of objects that are not marked and of the values that they hold. -/
def unmarked (h : Heap) (marks : Array Bool) : Nat :=
  ((h.slots.toList.zip marks.toList).map fun p => if p.2 then 0 else p.1.weight).foldr (· + ·) 0

theorem zip_set {α β : Type} {xs : List α} {ys : List β} {i : Nat} {x : α} (hx : xs[i]? = some x)
    (y : β) : xs.zip (ys.set i y) = (xs.zip ys).set i (x, y) := by
  induction xs generalizing ys i with
  | nil => cases hx
  | cons x' xs ih =>
    cases ys with
    | nil => rfl
    | cons y' ys =>
      cases i with
      | zero =>
        obtain rfl := Option.some.inj hx
        rfl
      | succ i => exact congrArg ((x', y') :: ·) (ih hx)

/-- An object that is marked weighs more than the names that it holds. -/
theorem unmarked_set_lt {h : Heap} {marks : Array Bool} {id : ObjectId} {o : Occupant}
    (ho : h.occupant? id = some o) (hm : marks[id.index.toNat]? = some false) :
    h.unmarked (marks.setIfInBounds id.index.toNat true) +
      (Value.objects o.object.body.edges).length < h.unmarked marks := by
  have hlength := length_objects_le o.object.body.edges
  unfold occupant? at ho
  split at ho
  · cases ho
  next s hs =>
  split at ho
  · have hs : h.slots.toList[id.index.toNat]? = some s := by simpa using hs
    have hm : marks.toList[id.index.toNat]? = some false := by simpa using hm
    have hzip : (h.slots.toList.zip marks.toList)[id.index.toNat]? = some (s, false) :=
      List.getElem?_zip_eq_some.2 ⟨hs, hm⟩
    have hsum := sum_map_set (fun p : Slot × Bool => if p.2 then 0 else p.1.weight) (s, true) hzip
    have hweight : s.weight = o.object.body.edges.length + 1 := by rw [Slot.weight, ho]
    unfold unmarked
    rw [Array.toList_setIfInBounds, zip_set hs]
    simp only [Bool.false_eq_true, if_false, if_true] at hsum
    omega
  · cases ho

/-- Marks the slots of the named objects and of all that they hold. -/
def mark (h : Heap) (marks : Array Bool) (work : List ObjectId) : Array Bool :=
  match work with
  | [] => marks
  | id :: work =>
    match _ho : h.occupant? id, _hm : marks[id.index.toNat]? with
    | some o, some false =>
      mark h (marks.setIfInBounds id.index.toNat true)
        (Value.objects o.object.body.edges ++ work)
    | _, _ => mark h marks work
termination_by h.unmarked marks + work.length
decreasing_by
  · have := unmarked_set_lt ‹_› ‹_›
    simp only [List.length_append, List.length_cons]
    omega
  · exact Nat.lt_succ_self _

/-- The names of the persistent objects by ascending slot. -/
def persistentIds (h : Heap) : List ObjectId := h.ids.filter h.isPersistent

/-- The values that the object in slot `i` holds. -/
def edgesAt (h : Heap) (i : Nat) : List Value :=
  match h.slots[i]? with
  | none => []
  | some s => s.edges

/-- The slots that can be reached from the roots, the undo log or a persistent
    object. -/
def reached (h : Heap) (roots : List Value) : Array Bool :=
  h.mark (Array.replicate h.slots.size false)
    (Value.objects (roots ++ h.undo.values) ++ h.persistentIds)

/-- The slots with an object that cannot be reached. -/
def unreached (h : Heap) (roots : List Value) : List Nat :=
  let marks := h.reached roots
  (List.range h.slots.size).filter fun i => h.isOccupied i && !(marks[i]?.getD false)

/-- Frees every object that is not persistent and cannot be reached from the
    roots, the undo log or a persistent object. The counts that the freed objects
    owned of others are released. -/
def collect (h : Heap) (roots : List Value) : CollectStats × Heap :=
  let marks := h.reached roots
  let dead := h.unreached roots
  let edges := dead.flatMap h.edgesAt
  let swept := dead.foldl vacate h
  let settled :=
    (Value.objects edges).foldl (fun h id => h.modifyOccupant id Occupant.release) swept
  ({ marked := marks.countP id, freed := dead.length, live := settled.live },
   { settled with allocated := 0 })

end Heap

end StoryMachine
