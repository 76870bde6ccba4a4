import Mathlib
import StoryMachine.Heap.Collect
import StoryMachine.Heap.Mutation
import StoryMachine.Heap.Restore
import StoryMachine.Heap.Savepoint

/-!
# Slots and what they hold

What each change of a slot does to the names that mean an object and to the
values that the objects of the table hold. The values are counted with
multiplicity, so they are taken as multisets; where one goes in and another comes
out, both sides of the equation are sums.

* `occupant?_modifyOccupant`, `occupant?_vacate`, `occupant?_occupy`: what names
  mean after a change;
* `edges_modifyOccupant`, `edges_vacate`, `edges_occupy`: what objects hold after
  it.
-/

namespace StoryMachine

/-- Names with the same slot differ in their generation. -/
theorem ObjectId.eq_iff_generation_eq {id id' : ObjectId}
    (hindex : id.index.toNat = id'.index.toNat) : id' = id ↔ id.generation = id'.generation := by
  obtain ⟨index, generation⟩ := id
  obtain ⟨index', generation'⟩ := id'
  obtain rfl : index = index' := UInt32.toNat_inj.1 hindex
  simp [eq_comm]

/-! ## Lists of slots -/

theorem coe_flatMap_set {α β : Type} (g : α → List β) {l : List α} {i : Nat} {a : α}
    (ha : l[i]? = some a) (b : α) :
    (((l.set i b).flatMap g : List β) : Multiset β) + (g a : Multiset β) =
      (l.flatMap g : List β) + (g b : Multiset β) := by
  induction l generalizing i with
  | nil => simp at ha
  | cons c l ih =>
    cases i with
    | zero =>
      obtain rfl : c = a := by simpa using ha
      simp only [List.set_cons_zero, List.flatMap_cons, ← Multiset.coe_add]
      abel
    | succ i =>
      have := ih (i := i) (by simpa using ha)
      simp only [List.set_cons_succ, List.flatMap_cons, ← Multiset.coe_add, add_assoc, this]

theorem coe_set {α : Type} {l : List α} {i : Nat} {a : α} (ha : l[i]? = some a) (b : α) :
    ((l.set i b : List α) : Multiset α) + {a} = (l : Multiset α) + {b} := by
  simpa using coe_flatMap_set (fun c => [c]) ha b

theorem Except.bind_eq_ok {ε α β : Type} {x : Except ε α} {f : α → Except ε β} {b : β} :
    x >>= f = .ok b ↔ ∃ a, x = .ok a ∧ f a = .ok b := by
  cases x <;> simp [bind, Except.bind]

theorem Except.guard_eq_ok {ε β : Type} {c : Prop} [Decidable c] {e : ε} {k : Unit → Except ε β}
    {b : β} : (if c then throw e >>= k else k ()) = .ok b ↔ ¬c ∧ k () = .ok b := by
  split
  · next hc => exact ⟨fun hthrow => (nomatch hthrow), fun hn => absurd hc hn.1⟩
  · next hc => exact ⟨fun hk => ⟨hc, hk⟩, And.right⟩

namespace Slot

@[simp] theorem edges_empty {s : Slot} (hs : s.occupant? = none) : s.edges = [] := by
  simp [edges, hs]

theorem edges_occupied {s : Slot} {o : Occupant} (hs : s.occupant? = some o) :
    s.edges = o.object.body.edges := by
  simp [edges, hs]

@[simp] theorem occupant?_vacated (s : Slot) : s.vacated.occupant? = none := rfl

/-- Generation zero does not come again. -/
theorem generation_vacated_ne_zero (s : Slot) : s.vacated.generation ≠ 0 := by
  cases hs : s.isLast with
  | true => simp [vacated, hs]
  | false =>
    have hmax : s.generation.toNat ≠ 4294967295 := fun he => by
      rw [isLast, beq_iff_eq.2 (UInt32.toNat_inj.1 he)] at hs
      cases hs
    have hlt := s.generation.toNat_lt
    intro h0
    have := congrArg UInt32.toNat h0
    simp only [vacated, hs, Bool.false_eq_true, if_false, UInt32.toNat_add, UInt32.toNat_one,
      UInt32.toNat_zero] at this
    omega

/-- Each generation is later than the one before, until they start again. -/
theorem generation_lt_vacated {s : Slot} (hs : s.isLast = false) :
    s.generation.toNat < s.vacated.generation.toNat := by
  have hmax : s.generation.toNat ≠ 4294967295 := fun he => by
    rw [isLast, beq_iff_eq.2 (UInt32.toNat_inj.1 he)] at hs
    cases hs
  have hlt := s.generation.toNat_lt
  simp only [vacated, hs, Bool.false_eq_true, if_false, UInt32.toNat_add, UInt32.toNat_one]
  omega

theorem opened_opened (s : Slot) : s.opened.opened = s.opened := by
  unfold opened
  split <;> simp_all

@[simp] theorem occupant?_opened (s : Slot) : s.opened.occupant? = s.occupant? := by
  unfold opened
  split <;> rfl

theorem generation_opened (s : Slot) :
    s.opened.generation ≠ 0 ∧ s.generation.toNat ≤ s.opened.generation.toNat := by
  unfold opened
  split
  · next h0 => simp [h0]
  · next h0 => exact ⟨h0, le_rfl⟩

end Slot

namespace Heap

variable {h : Heap} {i j : Nat} {id id' : ObjectId} {s : Slot} {o : Occupant}

/-! ## What a name means -/

theorem occupant?_eq_some_iff :
    h.occupant? id = some o ↔ ∃ s, h.slots[id.index.toNat]? = some s ∧
      s.generation = id.generation ∧ s.occupant? = some o := by
  unfold occupant?
  split
  · next hs => simp [hs]
  · next s hs =>
    simp only [hs, Option.some.injEq, exists_eq_left']
    split
    · next hg => simp [hg]
    · next hg => simp [hg]

theorem occupant?_congr {h' : Heap} (hslots : h'.slots = h.slots) (id : ObjectId) :
    h'.occupant? id = h.occupant? id := by
  simp [occupant?, hslots]

theorem contains_iff : h.contains id = true ↔ ∃ o, h.occupant? id = some o :=
  Option.isSome_iff_exists

theorem isOccupied_iff :
    h.isOccupied i = true ↔ ∃ s o, h.slots[i]? = some s ∧ s.occupant? = some o := by
  unfold isOccupied
  split
  · next hs => simp [hs]
  · next s hs => simp [hs, Option.isSome_iff_exists]

/-- Whether a slot holds an object depends on that slot only. -/
theorem isOccupied_eq_of_slot {h' : Heap} (hslot : h'.slots[i]? = h.slots[j]?) :
    h'.isOccupied i = h.isOccupied j := by
  rw [isOccupied, isOccupied, hslot]

theorem isOccupied_of_getElem? (hs : h.slots[i]? = some s) :
    h.isOccupied i = s.occupant?.isSome := by
  rw [isOccupied, hs]

theorem occupant?_eq_none_of_isOccupied (hempty : h.isOccupied i = false)
    (hs : h.slots[i]? = some s) : s.occupant? = none := by
  rw [isOccupied_of_getElem? hs] at hempty
  exact Option.not_isSome_iff_eq_none.1 (Bool.eq_false_iff.1 hempty)

/-- An object is the only one in its slot. -/
theorem generation_eq_of_occupant? (hs : h.slots[id.index.toNat]? = some s)
    (ho : h.occupant? id = some o) : s.generation = id.generation := by
  obtain ⟨s', hs', hg, -⟩ := occupant?_eq_some_iff.1 ho
  rw [hs, Option.some.injEq] at hs'
  exact hs' ▸ hg

theorem eq_of_index_eq {o' : Occupant} (ho : h.occupant? id = some o)
    (ho' : h.occupant? id' = some o') (hindex : id.index = id'.index) : id = id' := by
  obtain ⟨s, hs, hg, -⟩ := occupant?_eq_some_iff.1 ho
  have hg' := generation_eq_of_occupant? (hindex ▸ hs) ho'
  cases id
  cases id'
  simp_all

/-! ## Changes to a slot -/

theorem modifySlot_eq (h : Heap) (i : Nat) (f : Slot → Slot) :
    h.modifySlot i f = { h with slots := h.slots.modify i f } := by
  unfold modifySlot
  split
  · next hs =>
    have hsize : h.slots.size ≤ i := Array.getElem?_eq_none_iff.1 hs
    have : h.slots.modify i f = h.slots := by
      apply Array.ext_getElem?
      intro j
      rw [Array.getElem?_modify]
      split
      · next hij => rw [← hij, hs]; rfl
      · rfl
    rw [this]
  · next s hs =>
    obtain ⟨hlt, rfl⟩ := Array.getElem?_eq_some_iff.1 hs
    have : h.slots.setIfInBounds i (f h.slots[i]) = h.slots.modify i f := by
      apply Array.ext_getElem?
      grind
    rw [this]

theorem getElem?_modifySlot (h : Heap) (i : Nat) (f : Slot → Slot) (j : Nat) :
    (h.modifySlot i f).slots[j]? = if i = j then h.slots[j]?.map f else h.slots[j]? := by
  rw [modifySlot_eq, Array.getElem?_modify]

@[simp] theorem size_modifySlot (h : Heap) (i : Nat) (f : Slot → Slot) :
    (h.modifySlot i f).slots.size = h.slots.size := by
  rw [modifySlot_eq, Array.size_modify]

theorem edges_modifySlot (hs : h.slots[i]? = some s) (f : Slot → Slot) :
    ((h.modifySlot i f).edges : Multiset Value) + (s.edges : Multiset Value) =
      h.edges + (f s).edges := by
  obtain ⟨hlt, rfl⟩ := Array.getElem?_eq_some_iff.1 hs
  have hset : (h.modifySlot i f).slots.toList = h.slots.toList.set i (f h.slots[i]) := by
    simp [modifySlot, hs, Array.toList_setIfInBounds]
  rw [edges, hset]
  exact coe_flatMap_set Slot.edges (by simp [hlt]) _

/-! ## Changes to an occupant -/

theorem occupant?_modifyOccupant (h : Heap) (id : ObjectId) (f : Occupant → Occupant)
    (id' : ObjectId) :
    (h.modifyOccupant id f).occupant? id' =
      if id' = id then (h.occupant? id').map f else h.occupant? id' := by
  unfold occupant? modifyOccupant
  rw [getElem?_modifySlot]
  by_cases hindex : id.index.toNat = id'.index.toNat
  · rw [if_pos hindex]
    cases hs : h.slots[id'.index.toNat]? with
    | none => simp
    | some s =>
      simp only [Option.map_some, ObjectId.eq_iff_generation_eq hindex]
      split_ifs <;> simp_all
  · have hne : id' ≠ id := fun he => hindex (he ▸ rfl)
    rw [if_neg hindex, if_neg hne]

/-- A change that leaves the occupant as it is is none. -/
theorem modifyOccupant_eq_self {f : Occupant → Occupant}
    (hf : ∀ o, h.occupant? id = some o → f o = o) : h.modifyOccupant id f = h := by
  rw [modifyOccupant, modifySlot_eq]
  have hslots : h.slots.modify id.index.toNat (fun s =>
      if s.generation = id.generation then { s with occupant? := s.occupant?.map f } else s) =
      h.slots := by
    apply Array.ext_getElem?
    intro j
    rw [Array.getElem?_modify]
    split
    · next hj =>
      subst hj
      cases hs : h.slots[id.index.toNat]? with
      | none => rfl
      | some s =>
        rw [Option.map_some, Option.some.injEq]
        split
        · next hg =>
          have hsame : s.occupant?.map f = s.occupant? := by
            cases hso : s.occupant? with
            | none => rfl
            | some o => exact congrArg some (hf o (occupant?_eq_some_iff.2 ⟨s, hs, hg, hso⟩))
          rw [hsame]
        · rfl
    · rfl
  rw [hslots]

theorem modifyOccupant_of_none (f : Occupant → Occupant) (ho : h.occupant? id = none) :
    h.modifyOccupant id f = h :=
  modifyOccupant_eq_self fun _ ho' => nomatch ho.symm.trans ho'

/-- A change of an occupant trades the values it held for those it holds. -/
theorem edges_modifyOccupant (ho : h.occupant? id = some o) (f : Occupant → Occupant) :
    ((h.modifyOccupant id f).edges : Multiset Value) + (o.object.body.edges : Multiset Value) =
      h.edges + (f o).object.body.edges := by
  obtain ⟨s, hs, hg, hso⟩ := occupant?_eq_some_iff.1 ho
  have := edges_modifySlot hs fun s =>
    if s.generation = id.generation then { s with occupant? := s.occupant?.map f } else s
  rw [if_pos hg, Slot.edges_occupied hso,
    Slot.edges_occupied (s := { s with occupant? := s.occupant?.map f }) (o := f o)
      (by simp [hso])] at this
  exact this

/-- A change of an occupant that leaves its body alone changes nothing that is
    held. -/
theorem coe_edges_modifyOccupant_of_body (h : Heap) (id : ObjectId) {f : Occupant → Occupant}
    (hf : ∀ o, (f o).object = o.object) :
    ((h.modifyOccupant id f).edges : Multiset Value) = h.edges := by
  cases ho : h.occupant? id with
  | none => rw [modifyOccupant_of_none f ho]
  | some o =>
    have := edges_modifyOccupant ho f
    rwa [hf, add_left_inj] at this

/-! ## A slot given up -/

theorem getElem?_vacate (hs : h.slots[i]? = some s) (hso : s.occupant? = some o) (j : Nat) :
    (h.vacate i).slots[j]? = if i = j then some s.vacated else h.slots[j]? := by
  rw [vacate, if_pos (isOccupied_iff.2 ⟨s, o, hs, hso⟩), getElem?_modifySlot]
  split
  · next hij => rw [← hij, hs, Option.map_some]
  · rfl

theorem occupant?_vacate (ho : h.occupant? id = some o) (id' : ObjectId) :
    (h.vacate id.index.toNat).occupant? id' = if id' = id then none else h.occupant? id' := by
  obtain ⟨s, hs, hg, hso⟩ := occupant?_eq_some_iff.1 ho
  unfold occupant?
  rw [getElem?_vacate hs hso]
  by_cases hindex : id.index.toNat = id'.index.toNat
  · -- Before, the slot held only `id`; after it, nothing.
    rw [if_pos hindex]
    simp only [Slot.occupant?_vacated, ite_self]
    rw [← hindex, hs]
    simp only [ObjectId.eq_iff_generation_eq hindex, hg]
    split_ifs <;> rfl
  · have hne : id' ≠ id := fun he => hindex (he ▸ rfl)
    rw [if_neg hindex, if_neg hne]

/-- What is held is what was held before without what the object held. -/
theorem edges_vacate (hs : h.slots[i]? = some s) (hso : s.occupant? = some o) :
    ((h.vacate i).edges : Multiset Value) + (o.object.body.edges : Multiset Value) = h.edges := by
  have hslots : (h.vacate i).slots = (h.modifySlot i Slot.vacated).slots := by
    rw [vacate, if_pos (isOccupied_iff.2 ⟨s, o, hs, hso⟩)]
  have := edges_modifySlot hs Slot.vacated
  rw [Slot.edges_occupied hso, Slot.edges_empty s.occupant?_vacated, Multiset.coe_nil,
    add_zero] at this
  rw [edges, hslots]
  exact this

@[simp] theorem settings_vacate (h : Heap) (i : Nat) : (h.vacate i).settings = h.settings := by
  unfold vacate
  split <;> simp [modifySlot_eq]

@[simp] theorem undo_vacate (h : Heap) (i : Nat) : (h.vacate i).undo = h.undo := by
  unfold vacate
  split <;> simp [modifySlot_eq]

@[simp] theorem saturated_vacate (h : Heap) (i : Nat) :
    (h.vacate i).saturated = h.saturated := by
  unfold vacate
  split <;> simp [modifySlot_eq]

theorem free_vacate (hs : h.slots[i]? = some s) (hso : s.occupant? = some o) :
    (h.vacate i).free = UInt32.ofNat i :: h.free := by
  simp [vacate, isOccupied_iff.2 ⟨s, o, hs, hso⟩, modifySlot_eq]

theorem wrapped_vacate (hs : h.slots[i]? = some s) (hso : s.occupant? = some o) :
    (h.vacate i).wrapped = (h.wrapped || s.isLast) := by
  simp [vacate, isOccupied_iff.2 ⟨s, o, hs, hso⟩, modifySlot_eq, hs]

theorem size_vacate (h : Heap) (i : Nat) : (h.vacate i).slots.size = h.slots.size := by
  unfold vacate
  split <;> simp

/-! ## A slot taken -/

theorem getElem?_occupy (h : Heap) (i : Nat) (object : Object) (j : Nat) :
    (h.occupy i object).slots[j]? =
      if i = j then h.slots[j]?.map fun s => { s with occupant? := some ⟨object, 1, false⟩ }
      else h.slots[j]? := by
  rw [occupy, getElem?_modifySlot]

theorem occupant?_occupy (hs : h.slots[i]? = some s) (hi : id.index.toNat = i)
    (hg : id.generation = s.generation) (object : Object) (id' : ObjectId) :
    (h.occupy i object).occupant? id' =
      if id' = id then some ⟨object, 1, false⟩ else h.occupant? id' := by
  unfold occupant?
  rw [getElem?_occupy]
  by_cases hindex : i = id'.index.toNat
  · rw [if_pos hindex, ← hindex, hs]
    simp only [Option.map_some, ObjectId.eq_iff_generation_eq (hi.trans hindex), hg]
    split_ifs <;> rfl
  · have hne : id' ≠ id := fun he => hindex (he ▸ hi).symm
    rw [if_neg hindex, if_neg hne]

theorem edges_occupy (hs : h.slots[i]? = some s) (hso : s.occupant? = none) (object : Object) :
    ((h.occupy i object).edges : Multiset Value) = h.edges + object.body.edges := by
  have := edges_modifySlot hs fun s => { s with occupant? := some ⟨object, 1, false⟩ }
  rw [Slot.edges_empty hso, Multiset.coe_nil, add_zero,
    Slot.edges_occupied (s := { s with occupant? := some ⟨object, 1, false⟩ }) rfl] at this
  exact this

end Heap

end StoryMachine
