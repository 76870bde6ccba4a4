import StoryMachine.Proofs.Heap.Clear

/-!
# Tables filled from saved states

Objects are put back one by one into a table that has been cleared, and then the
counts are worked out anew, up to the largest there is.

* `insertRestored_eq_ok`: an object goes back to an empty slot;
* `occupant?_rebuildCounts`, `slots_rebuildCounts`: counts are all that is worked
  out anew;
* `Heap.occupied`: the number of objects.
-/

namespace StoryMachine

namespace Occupant

theorem toNat_refs_retain_eq_min (o : Occupant) :
    o.retain.refs.toNat = min (o.refs.toNat + 1) 4294967295 := by
  have hlt := o.refs.toNat_lt
  cases hfull : o.isFull with
  | true =>
    have hmax : o.refs = 0xFFFFFFFF := beq_iff_eq.1 hfull
    simp [retain, hfull, hmax]
  | false =>
    have hmax : o.refs.toNat ≠ 4294967295 := fun he => by
      rw [isFull, beq_iff_eq.2 (UInt32.toNat_inj.1 he)] at hfull
      cases hfull
    rw [toNat_refs_retain hfull]
    omega

/-- Counts that are taken one after the other add up, as far as they can. -/
theorem toNat_refs_iterate_retain (o : Occupant) (n : Nat) :
    (retain^[n] o).refs.toNat = min (o.refs.toNat + n) 4294967295 := by
  induction n with
  | zero =>
    have hlt := o.refs.toNat_lt
    rw [Function.iterate_zero_apply]
    omega
  | succ n ih =>
    rw [Function.iterate_succ_apply', toNat_refs_retain_eq_min, ih]
    omega

@[simp] theorem object_iterate_retain (o : Occupant) (n : Nat) :
    (retain^[n] o).object = o.object := by
  induction n with
  | zero => rfl
  | succ n ih => rw [Function.iterate_succ_apply', object_retain, ih]

@[simp] theorem persistent_iterate_retain (o : Occupant) (n : Nat) :
    (retain^[n] o).persistent = o.persistent := by
  induction n with
  | zero => rfl
  | succ n ih => rw [Function.iterate_succ_apply', persistent_retain, ih]

end Occupant

namespace Heap

variable {h h' : Heap} {i : Nat} {id : ObjectId} {o : Occupant} {s : Slot}

/-! ## The number of objects -/

/-- The number of slots that hold an object. -/
def occupied (h : Heap) : Nat := h.slots.countP (·.occupant?.isSome)

theorem occupied_grow (h : Heap) (i : Nat) : (h.grow i).occupied = h.occupied := by
  unfold grow
  split
  · rfl
  · simp [occupied, Array.countP_append, Array.countP_replicate]

theorem occupied_place (hempty : h.isOccupied i = false) (hs : s.occupant?.isSome = true) :
    (h.place i s).occupied = h.occupied + 1 := by
  have hsize : i < (h.grow i).slots.size := by
    rw [size_grow]
    omega
  have hso : (h.grow i).slots[i].occupant?.isSome = false := by
    rw [← isOccupied_of_getElem? (Array.getElem?_eq_getElem hsize), isOccupied_grow, hempty]
  rw [← occupied_grow h i, occupied, occupied, place, modifySlot,
    Array.getElem?_eq_getElem hsize]
  simp [Array.setIfInBounds, hsize, Array.countP_set, hso, hs]

/-- The number of objects depends only on which slots hold one. -/
theorem occupied_congr (hslots : ∀ j : Nat, h'.slots[j]?.map (·.occupant?.isSome) =
    h.slots[j]?.map (·.occupant?.isSome)) : h'.occupied = h.occupied := by
  have hmap : h'.slots.map (·.occupant?.isSome) = h.slots.map (·.occupant?.isSome) := by
    apply Array.ext_getElem?
    intro j
    simpa using hslots j
  have hcount := congrArg (Array.countP id) hmap
  rwa [Array.countP_map, Array.countP_map] at hcount

theorem isOccupied_congr (hslot : h'.slots[i]?.map (·.occupant?.isSome) =
    h.slots[i]?.map (·.occupant?.isSome)) : h'.isOccupied i = h.isOccupied i := by
  unfold isOccupied
  cases hs : h'.slots[i]? <;> cases hs' : h.slots[i]? <;> simp_all

theorem Opened.isSome (hop : h.Opened h') (j : Nat) :
    h'.slots[j]?.map (·.occupant?.isSome) = h.slots[j]?.map (·.occupant?.isSome) := by
  rw [hop.slots]
  split
  · rw [Option.map_map]
    congr 1
    funext s
    simp
  · rfl

theorem Opened.isOccupied (hop : h.Opened h') (i : Nat) : h'.isOccupied i = h.isOccupied i :=
  isOccupied_congr (hop.isSome i)

theorem Opened.occupied (hop : h.Opened h') : h'.occupied = h.occupied :=
  occupied_congr hop.isSome

@[simp] theorem live_openHoles (h : Heap) : h.openHoles.live = h.live := by
  obtain ⟨slots, heq, -⟩ := foldl_opened_eq h ((List.range h.slots.size).filter fun i =>
    HeapSettings.reserved.toNat ≤ i && !h.isOccupied i)
  simp only [openHoles, heq]

/-! ## An object put back -/

@[simp] theorem live_place (h : Heap) (i : Nat) (s : Slot) : (h.place i s).live = h.live := by
  simp only [place, modifySlot_eq, grow]
  split <;> rfl

theorem isOccupied_place (h : Heap) (i : Nat) (s : Slot) (j : Nat) :
    (h.place i s).isOccupied j = if i = j then s.occupant?.isSome else h.isOccupied j := by
  rw [← isOccupied_grow h i j]
  unfold isOccupied
  rw [getElem?_place]
  by_cases hij : i = j <;> simp only [hij, if_true, if_false]

theorem checkRestorable_eq_ok_iff {id : ObjectId} : h.checkRestorable id = .ok () ↔
    id.index ≠ 0 ∧ id.index.toNat < h.settings.maxObjects.toNat := by
  unfold checkRestorable
  split
  · next hlt =>
    refine ⟨fun he => (nomatch he), fun hid => absurd (UInt32.toNat_inj.1 ?_) hid.1⟩
    have hlt : id.index.toNat < 1 := UInt32.lt_iff_toNat_lt.1 hlt
    exact Nat.lt_one_iff.1 hlt
  · next hne =>
    have hne : id.index ≠ 0 := fun h0 => hne (h0 ▸ by decide)
    split
    · next hle => exact ⟨fun he => (nomatch he), fun hid => absurd hid.2 (not_lt.2 hle)⟩
    · next hlt => exact ⟨fun _ => ⟨hne, not_le.1 hlt⟩, fun _ => rfl⟩

theorem insertRestored_eq_ok (object : Object) (persistent : Bool)
    (hid : h.checkRestorable id = .ok ()) (hempty : h.isOccupied id.index.toNat = false) :
    insertRestored id object persistent h = .ok ()
      { h.place id.index.toNat ⟨id.generation, some ⟨object, 0, persistent⟩⟩ with
        live := h.live + 1 } := by
  simp only [insertRestored, bind, EStateM.bind, get, getThe, MonadStateOf.get, EStateM.get, hid,
    modify, modifyGet, MonadStateOf.modifyGet, EStateM.modifyGet,
    isOccupied_grow, hempty, Bool.false_eq_true, if_false]
  rw [← live_place h id.index.toNat ⟨id.generation, some ⟨object, 0, persistent⟩⟩]
  rfl

/-! ## Counts worked out anew -/

theorem occupant?_retainValues (h : Heap) (vs : List Value) (id : ObjectId) :
    (h.retainValues vs).occupant? id =
      (h.occupant? id).map Occupant.retain^[vs.count (.obj id)] := by
  induction vs generalizing h with
  | nil =>
    rw [List.count_nil, Function.iterate_zero, Option.map_id]
    rfl
  | cons v vs ih =>
    have hstep : (h.retainValue v).occupant? id =
        (h.occupant? id).map Occupant.retain^[if v = .obj id then 1 else 0] := by
      cases v with
      | obj id' =>
        have hretain : (h.retain id').occupant? id =
            (h.modifyOccupant id' Occupant.retain).occupant? id := rfl
        rw [retainValue, hretain, occupant?_modifyOccupant]
        by_cases hid : id = id'
        · simp [hid]
        · simp [hid, Ne.symm hid]
      | _ => simp [retainValue]
    rw [retainValues, List.foldl_cons, ← retainValues, ih, hstep, Option.map_map,
      ← Function.iterate_add, List.count_cons]
    simp [beq_iff_eq]

/-- Counts are all that is changed. -/
theorem uncounted_retainValues (h : Heap) (vs : List Value) :
    (h.retainValues vs).slots.map Slot.uncounted = h.slots.map Slot.uncounted := by
  induction vs generalizing h with
  | nil => rfl
  | cons v vs ih =>
    rw [retainValues, List.foldl_cons, ← retainValues, ih]
    cases v with
    | obj id =>
      have hretain : (h.retain id).slots = (h.modifyOccupant id Occupant.retain).slots := rfl
      rw [retainValue, hretain, modifyOccupant, modifySlot_eq]
      apply Array.ext_getElem?
      intro j
      simp only [Array.getElem?_map, Array.getElem?_modify]
      split
      · cases h.slots[j]? with
        | none => rfl
        | some s =>
          simp only [Option.map_some, Slot.uncounted]
          split
          · simp [Option.map_map, Function.comp_def, Occupant.retain]
          · rfl
      · rfl
    | _ => rfl

theorem frame_retainValues (h : Heap) (vs : List Value) :
    (h.retainValues vs).settings = h.settings ∧ (h.retainValues vs).free = h.free ∧
      (h.retainValues vs).live = h.live ∧ (h.retainValues vs).undo = h.undo := by
  induction vs generalizing h with
  | nil => exact ⟨rfl, rfl, rfl, rfl⟩
  | cons v vs ih =>
    rw [retainValues, List.foldl_cons, ← retainValues]
    cases v with
    | obj id =>
      obtain ⟨hsettings, hfree, hlive, hundo⟩ := ih (h.retain id)
      refine ⟨hsettings.trans ?_, hfree.trans ?_, hlive.trans ?_, hundo.trans ?_⟩ <;>
        simp only [retain, modifyOccupant, modifySlot_eq]
    | _ => exact ih h

theorem uncounted_uncounted (s : Slot) : s.uncounted.uncounted = s.uncounted := by
  simp [Slot.uncounted, Option.map_map, Function.comp_def]

/-- The slots are the same but for the counts. -/
theorem slots_rebuildCounts (h : Heap) (roots : List Value) :
    (h.rebuildCounts roots).slots.map Slot.uncounted = h.slots.map Slot.uncounted := by
  rw [rebuildCounts, uncounted_retainValues, Array.map_map]
  congr 1
  funext s
  exact uncounted_uncounted s

/-- What does not depend on counts stays as it is. -/
theorem map_slots_rebuildCounts {β : Type} (h : Heap) (roots : List Value) {g : Slot → β}
    (hg : ∀ s, g s.uncounted = g s) (j : Nat) :
    (h.rebuildCounts roots).slots[j]?.map g = h.slots[j]?.map g := by
  have hj := congrArg (fun slots : Array Slot => slots[j]?.map g) (h.slots_rebuildCounts roots)
  simpa only [Array.getElem?_map, Option.map_map, Function.comp_def, hg] using hj

theorem edges_rebuildCounts (h : Heap) (roots : List Value) :
    (h.rebuildCounts roots).edges = h.edges := by
  refine edges_congr (h.map_slots_rebuildCounts roots fun s => ?_)
  cases hs : s.occupant? <;> simp [Slot.edges, Slot.uncounted, hs]

theorem isSome_rebuildCounts (h : Heap) (roots : List Value) (j : Nat) :
    (h.rebuildCounts roots).slots[j]?.map (·.occupant?.isSome) =
      h.slots[j]?.map (·.occupant?.isSome) :=
  h.map_slots_rebuildCounts roots (fun _ => Option.isSome_map) j

theorem occupied_rebuildCounts (h : Heap) (roots : List Value) :
    (h.rebuildCounts roots).occupied = h.occupied :=
  occupied_congr (h.isSome_rebuildCounts roots)

theorem isOccupied_rebuildCounts (h : Heap) (roots : List Value) (i : Nat) :
    (h.rebuildCounts roots).isOccupied i = h.isOccupied i :=
  isOccupied_congr (h.isSome_rebuildCounts roots i)

theorem size_rebuildCounts (h : Heap) (roots : List Value) :
    (h.rebuildCounts roots).slots.size = h.slots.size := by
  simpa using congrArg Array.size (h.slots_rebuildCounts roots)

theorem occupant?_rebuildCounts (h : Heap) (roots : List Value) (id : ObjectId) :
    (h.rebuildCounts roots).occupant? id = (h.occupant? id).map fun o =>
      Occupant.retain^[(h.edges ++ roots ++ h.undo.values).count (.obj id)] { o with refs := 0 } := by
  rw [rebuildCounts, occupant?_retainValues]
  have huncounted : Heap.occupant? { h with slots := h.slots.map Slot.uncounted } id =
      (h.occupant? id).map fun o => { o with refs := 0 } := by
    unfold occupant?
    rw [Array.getElem?_map]
    cases h.slots[id.index.toNat]? with
    | none => rfl
    | some s =>
      simp only [Option.map_some, Slot.uncounted]
      split <;> rfl
  rw [huncounted, Option.map_map]
  rfl

theorem contains_rebuildCounts (h : Heap) (roots : List Value) (id : ObjectId) :
    (h.rebuildCounts roots).contains id = h.contains id := by
  rw [contains, occupant?_rebuildCounts, Option.isSome_map, contains]

theorem frame_rebuildCounts (h : Heap) (roots : List Value) :
    (h.rebuildCounts roots).settings = h.settings ∧ (h.rebuildCounts roots).free = h.free ∧
      (h.rebuildCounts roots).live = h.live ∧ (h.rebuildCounts roots).undo = h.undo :=
  frame_retainValues _ _

end Heap

end StoryMachine
