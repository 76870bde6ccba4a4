import StoryMachine.Proofs.Heap.Collect

/-!
# What is left after a collection

Whatever the counts are, a collection leaves the objects that it has reached as they
are, in slots that they have for themselves, and nothing that they hold goes missing.

* `mem_ids_iff`, `nodup_index_ids`: the names of all objects;
* `exists_occupant?_of_collect`: what is left was there before;
* `contains_collect_of_held`: what is held has not been collected.
-/

namespace StoryMachine

namespace Heap

variable {h : Heap} {id : ObjectId} {o : Occupant} {roots : List Value}

/-! ## The names of all objects -/

/-- The objects by ascending slot. -/
def occupants (h : Heap) : List Occupant := h.slots.toList.filterMap Slot.occupant?

theorem mem_occupants_of_occupant? (ho : h.occupant? id = some o) : o ∈ h.occupants := by
  obtain ⟨s, hs, -, hso⟩ := occupant?_eq_some_iff.1 ho
  exact List.mem_filterMap.2 ⟨s, Array.mem_toList_iff.2 (Array.mem_of_getElem? hs), hso⟩

theorem exists_occupant?_of_mem (hsize : h.slots.size < 2 ^ 32) (ho : o ∈ h.occupants) :
    ∃ id, h.occupant? id = some o := by
  obtain ⟨s, hs, hso⟩ := List.mem_filterMap.1 ho
  obtain ⟨i, hi, rfl⟩ := Array.mem_iff_getElem.1 (Array.mem_toList_iff.1 hs)
  have hindex : (UInt32.ofNat i).toNat = i := UInt32.toNat_ofNat_of_lt' (hi.trans hsize)
  refine ⟨⟨UInt32.ofNat i, h.slots[i].generation⟩, occupant?_eq_some_iff.2 ⟨h.slots[i], ?_, rfl, hso⟩⟩
  simp [hindex, hi]

theorem index_of_idAt? {i : Nat} (hsize : h.slots.size < 2 ^ 32) (hid : h.idAt? i = some id) :
    id.index.toNat = i ∧ h.contains id = true := by
  unfold idAt? at hid
  split at hid
  · cases hid
  · next s hs =>
    obtain ⟨o, hso, rfl⟩ := Option.map_eq_some_iff.1 hid
    have hindex : (UInt32.ofNat i).toNat = i :=
      UInt32.toNat_ofNat_of_lt' ((Array.getElem?_eq_some_iff.1 hs).1.trans hsize)
    exact ⟨hindex, contains_iff.2 ⟨o, occupant?_eq_some_iff.2 ⟨s, by rw [hindex, hs], rfl, hso⟩⟩⟩

theorem mem_ids_iff (hsize : h.slots.size < 2 ^ 32) : id ∈ h.ids ↔ h.contains id = true := by
  refine ⟨fun hid => ?_, mem_ids_of_contains⟩
  obtain ⟨i, -, hi⟩ := List.mem_filterMap.1 hid
  exact (index_of_idAt? hsize hi).2

/-- No two objects have one slot. -/
theorem nodup_index_ids (hsize : h.slots.size < 2 ^ 32) : (h.ids.map (·.index)).Nodup := by
  have hindexes : h.ids.map (·.index.toNat) =
      (List.range h.slots.size).filter fun i => (h.idAt? i).isSome := by
    rw [ids, List.map_filterMap, ← List.filterMap_eq_filter]
    refine List.filterMap_congr fun i _ => ?_
    cases hid : h.idAt? i with
    | none => simp [Option.guard, hid]
    | some id => simp [Option.guard, hid, (index_of_idAt? hsize hid).1]
  have hnodup : (h.ids.map (·.index.toNat)).Nodup := hindexes ▸ List.nodup_range.filter _
  refine List.Nodup.of_map UInt32.toNat ?_
  rwa [List.map_map]

theorem length_ids_le (h : Heap) : h.ids.length ≤ h.slots.size :=
  (List.length_filterMap_le _ _).trans List.length_range.le

/-! ## What a collection leaves -/

theorem size_foldl_vacate (h : Heap) (dead : List Nat) :
    (dead.foldl vacate h).slots.size = h.slots.size := by
  induction dead generalizing h with
  | nil => rfl
  | cons i dead ih => rw [List.foldl_cons, ih, size_vacate]

theorem settings_foldl_vacate (h : Heap) (dead : List Nat) :
    (dead.foldl vacate h).settings = h.settings := by
  induction dead generalizing h with
  | nil => rfl
  | cons i dead ih => rw [List.foldl_cons, ih, settings_vacate]

theorem size_foldl_release (h : Heap) (ids : List ObjectId) :
    (ids.foldl (fun h id => h.modifyOccupant id Occupant.release) h).slots.size =
      h.slots.size := by
  induction ids generalizing h with
  | nil => rfl
  | cons id ids ih => rw [List.foldl_cons, ih, modifyOccupant, size_modifySlot]

theorem size_collect (h : Heap) (roots : List Value) :
    (h.collect roots).2.slots.size = h.slots.size :=
  (size_foldl_release _ _).trans (size_foldl_vacate h _)

theorem settings_collect (h : Heap) (roots : List Value) :
    (h.collect roots).2.settings = h.settings :=
  ((sameButCounts_foldl_release _ _).frame.2.1).trans (settings_foldl_vacate h _)

theorem exists_occupant?_of_collect (ho : (h.collect roots).2.occupant? id = some o) :
    ∃ o', h.occupant? id = some o' ∧ o'.object = o.object ∧ o'.persistent = o.persistent := by
  have hocc := h.occupant?_collect roots id
  rw [ho, Option.map_some] at hocc
  split at hocc
  · cases hocc
  · obtain ⟨o', ho', heq⟩ := Option.map_eq_some_iff.1 hocc.symm
    obtain ⟨hobject, hpersistent⟩ := Prod.mk.inj heq
    exact ⟨o', ho', hobject, hpersistent⟩

/-- What is left does not hold anything else. -/
theorem mem_edges_of_collect (hsize : h.slots.size < 2 ^ 32) {v : Value}
    (hv : v ∈ (h.collect roots).2.edges) : v ∈ h.edges := by
  obtain ⟨id, o, ho, hv⟩ := (mem_edges_iff (size_collect h roots ▸ hsize)).1 hv
  obtain ⟨o', ho', hobject, -⟩ := exists_occupant?_of_collect ho
  exact (mem_edges_iff hsize).2 ⟨id, o', ho', hobject ▸ hv⟩

/-- What is held by objects that are left, or by the roots, has not been collected. -/
theorem contains_collect_of_held (hsize : h.slots.size < 2 ^ 32)
    (hheld : .obj id ∈ (h.collect roots).2.edges ++ roots) (hlive : h.contains id = true) :
    (h.collect roots).2.contains id = true := by
  refine contains_collect_iff.2 ⟨hlive, ?_⟩
  rcases List.mem_append.1 hheld with hedge | hroot
  · -- The object that holds it is left, so it has been reached, and what it holds has
    -- been reached from there.
    obtain ⟨owner, o, ho, hedge⟩ := (mem_edges_iff (size_collect h roots ▸ hsize)).1 hedge
    have howner := (contains_collect_iff.1 (contains_iff.2 ⟨o, ho⟩)).2
    obtain ⟨o', ho', hobject, -⟩ := exists_occupant?_of_collect ho
    rw [← hobject] at hedge
    rcases (h.reached_marksAll roots).closed owner o' ho' howner id hedge hlive with hm | hmem
    · exact hm
    · exact absurd hmem List.not_mem_nil
  · exact reached_of_isRoot (.inl hroot) hlive

end Heap

end StoryMachine
