import StoryMachine.Heap.Basic

/-!
# Reference counts

Whoever keeps the name of an object in a counted place owns one count of it. An
object that is not persistent is freed when its last count is released, and then
the counts it owned itself are released in turn. Objects that hold each other in
a cycle are left to the collector.

* `Heap.retain`, `Heap.release`: one count more, one less;
* `Heap.releaseAll`: counts released one after the other, with all that follows
  from each before the next.
-/

namespace StoryMachine

/-- The objects among values. -/
def Value.objects (vs : List Value) : List ObjectId := vs.filterMap Value.obj?

namespace Heap

/-- Takes one more count of an object, if the name means one. -/
def retain (h : Heap) (id : ObjectId) : Heap :=
  let lost := (h.occupant? id).any Occupant.isFull
  let h := h.modifyOccupant id Occupant.retain
  { h with saturated := h.saturated || lost }

/-- Takes one more count of the object that a value names. -/
def retainValue (h : Heap) (v : Value) : Heap :=
  match v with
  | .obj id => h.retain id
  | _ => h

/-- Takes one more count for each value. -/
def retainValues (h : Heap) (vs : List Value) : Heap := vs.foldl retainValue h

/-! ## How much is left to free -/

theorem sum_map_set {α : Type} (w : α → Nat) (a : α) {x : α} {xs : List α} {i : Nat}
    (hx : xs[i]? = some x) :
    ((xs.set i a).map w).foldr (· + ·) 0 + w x = (xs.map w).foldr (· + ·) 0 + w a := by
  induction xs generalizing i with
  | nil => cases hx
  | cons y ys ih =>
    cases i with
    | zero =>
      obtain rfl := Option.some.inj hx
      simp only [List.set_cons_zero, List.map_cons, List.foldr_cons]
      omega
    | succ i =>
      have := ih hx
      simp only [List.set_cons_succ, List.map_cons, List.foldr_cons]
      omega

theorem weight_modifySlot {h : Heap} {i : Nat} {s : Slot} (hs : h.slots[i]? = some s)
    (f : Slot → Slot) : (h.modifySlot i f).weight + s.weight = h.weight + (f s).weight := by
  unfold modifySlot weight
  simp only [hs, Array.toList_setIfInBounds]
  exact sum_map_set _ _ (by simpa using hs)

theorem weight_modifyOccupant_release (h : Heap) (id : ObjectId) :
    (h.modifyOccupant id Occupant.release).weight = h.weight := by
  unfold modifyOccupant
  cases hs : h.slots[id.index.toNat]? with
  | none =>
    unfold modifySlot
    rw [hs]
  | some s =>
    refine Nat.add_right_cancel ((weight_modifySlot hs _).trans (congrArg (h.weight + ·) ?_))
    split
    · unfold Slot.weight
      cases s.occupant? <;> rfl
    · rfl

theorem isOccupied_of_occupant? {h : Heap} {id : ObjectId} {o : Occupant}
    (ho : h.occupant? id = some o) : h.isOccupied id.index.toNat = true := by
  unfold occupant? at ho
  unfold isOccupied
  split at ho
  · cases ho
  · next s hs =>
    split at ho
    · simp only [ho, Option.isSome_some]
    · cases ho

theorem length_objects_le (vs : List Value) : (Value.objects vs).length ≤ vs.length :=
  List.length_filterMap_le _ _

/-- An object that is freed weighs more than the names that it held. -/
theorem weight_vacate_lt {h : Heap} {id : ObjectId} {o : Occupant} (ho : h.occupant? id = some o) :
    (h.vacate id.index.toNat).weight + (Value.objects o.object.body.edges).length < h.weight := by
  have hlength := length_objects_le o.object.body.edges
  have hocc := isOccupied_of_occupant? ho
  unfold occupant? at ho
  split at ho
  · cases ho
  next s hs =>
  split at ho
  · have hsum := weight_modifySlot hs Slot.vacated
    have hweight : s.weight = o.object.body.edges.length + 1 := by rw [Slot.weight, ho]
    have hvacated : s.vacated.weight = 0 := rfl
    have hvacate : (h.vacate id.index.toNat).weight =
        (h.modifySlot id.index.toNat Slot.vacated).weight := by
      simp only [vacate, hocc, if_true]
      rfl
    omega
  · cases ho

/-! ## Releasing -/

/-- Releases one count for each name, in order. When that frees an object, the
    counts that it owned are released before the next one, the last of its
    values first. -/
def releaseAll (h : Heap) (work : List ObjectId) : Heap :=
  match work with
  | [] => h
  | id :: work =>
    match _ho : h.occupant? id with
    | none => releaseAll h work
    | some o =>
      if o.refs ≤ 1 ∧ o.persistent = false then
        releaseAll (h.vacate id.index.toNat) ((Value.objects o.object.body.edges).reverse ++ work)
      else releaseAll (h.modifyOccupant id Occupant.release) work
termination_by h.weight + work.length
decreasing_by
  · exact Nat.lt_succ_self _
  · have := weight_vacate_lt ‹_›
    simp only [List.length_append, List.length_reverse, List.length_cons]
    omega
  · rw [weight_modifyOccupant_release]
    exact Nat.lt_succ_self _

/-- Releases one count of an object. -/
def release (h : Heap) (id : ObjectId) : Heap := h.releaseAll [id]

/-- Releases one count of the object that a value names. -/
def releaseValue (h : Heap) (v : Value) : Heap := h.releaseAll (Value.objects [v])

/-- Releases one count for each value, in order. -/
def releaseValues (h : Heap) (vs : List Value) : Heap := h.releaseAll (Value.objects vs)

end Heap

end StoryMachine
