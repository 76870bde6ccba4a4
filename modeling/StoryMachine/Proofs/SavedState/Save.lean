import StoryMachine.Proofs.Heap.Restored
import StoryMachine.Proofs.Heap.Survivors
import StoryMachine.Proofs.Machine.Session
import StoryMachine.Proofs.SavedState.Format
import StoryMachine.SavedState

/-!
# What is saved

Garbage is collected before the state is written. What is left refers to nothing that
has been collected, so if nothing was missing before, then nothing is missing from the
state.

* `Machine.Savable`: a machine whose state is written so that it can be read back;
* `Session.Reachable.savable`: what of this holds between any two instructions;
* `Savable.collectGarbage`: this is not changed by a collection;
* `mem_savedState`, `closed_savedState_iff`: the objects of the state and what they
  refer to;
* `Savable.placeable`: there is a place for every object of it.
-/

namespace StoryMachine

namespace Machine

variable {m : Machine} {id : ObjectId}

/-- A machine whose state is written so that it can be read back, unless something in
    it refers to what is not there. -/
structure Savable (m : Machine) : Prop where
  /-- There are no more slots than the settings allow. -/
  size_le : m.heap.slots.size ≤ max 1 m.heap.settings.maxObjects.toNat
  /-- The first slot is not used. -/
  reserved : m.heap.isOccupied 0 = false
  /-- The identity of the image is a digest. -/
  identity : m.image.identity.length = SavedState.digestSize
  /-- Objects are of metaclasses for their kinds. -/
  typed : ∀ o ∈ m.heap.occupants, o.object.Typed m.image.metaclasses
  /-- The numbers in objects fit into the bytes that are there for them. -/
  bodies : ∀ o ∈ m.heap.occupants, o.object.body.Fits
  /-- So does the number of globals. -/
  globals : m.globals.size < 2 ^ 16

theorem Savable.size_lt (hm : m.Savable) : m.heap.slots.size < 2 ^ 32 :=
  hm.size_le.trans_lt (max_lt (by decide) m.heap.settings.maxObjects.toNat_lt)

theorem heap_collectGarbage (m : Machine) :
    m.collectGarbage.2.heap = (m.heap.collect m.roots).2 := rfl

/-- Nothing that matters is changed by a collection. -/
theorem Savable.collectGarbage (hm : m.Savable) : m.collectGarbage.2.Savable := by
  have hsize : (m.heap.collect m.roots).2.slots.size = m.heap.slots.size := Heap.size_collect ..
  have hleft {o : Occupant} (ho : o ∈ (m.heap.collect m.roots).2.occupants) :
      ∃ o' ∈ m.heap.occupants, o'.object = o.object := by
    obtain ⟨id, ho⟩ := Heap.exists_occupant?_of_mem (hsize ▸ hm.size_lt) ho
    obtain ⟨o', ho', hobject, -⟩ := Heap.exists_occupant?_of_collect ho
    exact ⟨o', Heap.mem_occupants_of_occupant? ho', hobject⟩
  -- No slot is made, and no object is changed but for its counts.
  refine ⟨?_, ?_, hm.identity, fun o ho => ?_, fun o ho => ?_, hm.globals⟩
  · rw [heap_collectGarbage, hsize, Heap.settings_collect]
    exact hm.size_le
  · refine Bool.eq_false_iff.2 fun hocc => Bool.eq_false_iff.1 hm.reserved ?_
    obtain ⟨s, o, hs, hso⟩ := Heap.isOccupied_iff.1 hocc
    have ho : (m.heap.collect m.roots).2.occupant? ⟨0, s.generation⟩ = some o :=
      Heap.occupant?_eq_some_iff.2 ⟨s, hs, rfl, hso⟩
    obtain ⟨o', ho', -⟩ := Heap.exists_occupant?_of_collect ho
    exact Heap.isOccupied_of_occupant? ho'
  · obtain ⟨o', ho', hobject⟩ := hleft ho
    exact hobject ▸ hm.typed o' ho'
  · obtain ⟨o', ho', hobject⟩ := hleft ho
    exact hobject ▸ hm.bodies o' ho'

/-! ## The objects of the state -/

theorem map_id_savedState (hsize : m.heap.slots.size < 2 ^ 32) :
    m.savedState.objects.map (·.id) = m.heap.ids := by
  rw [savedState, List.map_filterMap]
  refine (List.filterMap_congr fun id hid => ?_).trans List.filterMap_some
  obtain ⟨o, ho⟩ := Heap.contains_iff.1 ((Heap.mem_ids_iff hsize).1 hid)
  simp [Heap.get?, ho]

theorem mem_savedState {saved : SavedObject} (hsize : m.heap.slots.size < 2 ^ 32) :
    saved ∈ m.savedState.objects ↔ ∃ o, m.heap.occupant? saved.id = some o ∧
      o.object = saved.object ∧ o.persistent = saved.persistent := by
  rw [savedState, List.mem_filterMap]
  constructor
  · rintro ⟨id, -, heq⟩
    obtain ⟨object, hget, rfl⟩ := Option.map_eq_some_iff.1 heq
    obtain ⟨o, ho, rfl⟩ := Option.map_eq_some_iff.1 hget
    exact ⟨o, ho, rfl, by simp [Heap.isPersistent, ho]⟩
  · rintro ⟨o, ho, hobject, hpersistent⟩
    refine ⟨saved.id, (Heap.mem_ids_iff hsize).2 (Heap.contains_iff.2 ⟨o, ho⟩), ?_⟩
    simp [Heap.get?, Heap.isPersistent, ho, hobject, hpersistent]

/-- Whether something in the state refers to what is not there. -/
theorem closed_savedState_iff (hsize : m.heap.slots.size < 2 ^ 32) : m.savedState.Closed ↔
    ∀ id, .obj id ∈ m.heap.edges ++ m.globals.toList → m.heap.contains id = true := by
  have hheld (v : Value) : v ∈ m.savedState.held ↔ v ∈ m.heap.edges ++ m.globals.toList := by
    rw [SavedState.held, List.mem_append, List.mem_append, Heap.mem_edges_iff hsize,
      List.mem_flatMap]
    refine or_congr ⟨?_, ?_⟩ Iff.rfl
    · rintro ⟨saved, hsaved, hv⟩
      obtain ⟨o, ho, hobject, -⟩ := (mem_savedState hsize).1 hsaved
      exact ⟨saved.id, o, ho, hobject ▸ hv⟩
    · rintro ⟨id, o, ho, hv⟩
      exact ⟨⟨id, o.persistent, o.object⟩, (mem_savedState hsize).2 ⟨o, ho, rfl, rfl⟩, hv⟩
  unfold SavedState.Closed
  simp only [hheld, map_id_savedState hsize, Heap.mem_ids_iff hsize]

/-- There is a place for every object in a table with the same limits. -/
theorem Savable.placeable (hm : m.Savable) {h : Heap} (hsettings : h.settings = m.heap.settings) :
    SavedState.Placeable h m.image.metaclasses m.savedState.objects := by
  refine ⟨fun saved hsaved => ?_, ?_, fun saved hsaved => ?_⟩
  · obtain ⟨o, ho, -⟩ := (mem_savedState hm.size_lt).1 hsaved
    obtain ⟨s, hs, -⟩ := Heap.occupant?_eq_some_iff.1 ho
    have hlt := (Array.getElem?_eq_some_iff.1 hs).1
    have hle := hm.size_le
    have hne : saved.id.index ≠ 0 := fun h0 => by
      have hocc := Heap.isOccupied_of_occupant? ho
      rw [h0, UInt32.toNat_zero, hm.reserved] at hocc
      cases hocc
    have hne' : saved.id.index.toNat ≠ 0 := fun h0 => hne (UInt32.toNat_inj.1 h0)
    refine Heap.checkRestorable_eq_ok_iff.2 ⟨hne, ?_⟩
    rw [hsettings]
    omega
  · have hids := Heap.nodup_index_ids hm.size_lt
    rwa [← map_id_savedState hm.size_lt, List.map_map] at hids
  · obtain ⟨o, ho, hobject, -⟩ := (mem_savedState hm.size_lt).1 hsaved
    exact hobject ▸ hm.typed o (Heap.mem_occupants_of_occupant? ho)

theorem Savable.fits (hm : m.Savable) : m.savedState.Fits := by
  refine ⟨?_, hm.globals, fun saved hsaved => ?_⟩
  · have hlength := congrArg List.length (map_id_savedState hm.size_lt)
    rw [List.length_map] at hlength
    exact hlength ▸ m.heap.length_ids_le.trans_lt hm.size_lt
  · obtain ⟨o, ho, hobject, -⟩ := (mem_savedState hm.size_lt).1 hsaved
    exact hobject ▸ hm.bodies o (Heap.mem_occupants_of_occupant? ho)

end Machine

/-- Between two instructions a machine has no more slots than its settings allow, does
    not use the first one, and has the image that was loaded. So nothing but the
    metaclasses of its objects and numbers that do not fit can stand in the way. -/
theorem Session.Reachable.savable {stale : Bool} {s : Session} (hs : Reachable stale s)
    (htyped : ∀ o ∈ s.machine.heap.occupants, o.object.Typed s.machine.image.metaclasses)
    (hbodies : ∀ o ∈ s.machine.heap.occupants, o.object.body.Fits)
    (hglobals : s.machine.globals.size < 2 ^ 16) : s.machine.Savable := by
  have hm := hs.fits.sound
  have htidy := hm.counted.tidy
  exact ⟨htidy.size_le, htidy.reserved, hm.ready.identity, htyped, hbodies, hglobals⟩

end StoryMachine
