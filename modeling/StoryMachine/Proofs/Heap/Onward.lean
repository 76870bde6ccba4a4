import StoryMachine.Proofs.Heap.Counted

/-!
# What no operation takes back

Names only ever go from new to meaning an object to having outlived it, as long
as the generations of a slot do not start again; persistent objects stay; and what
has gone wrong with counts or names stays wrong. All of this holds of every
operation on a table.

* `Heap.Onward`: the relation between a table and what becomes of it;
* `Heap.Shrinks`: moreover, every object that is there was there before and is as
  it was;
* `Shrinks.releaseAll`, `Allocated.onward`: counts released, and a new object.
-/

namespace StoryMachine.Heap

variable {stale : Bool} {h h' h'' : Heap} {id : ObjectId} {o : Occupant} {held : Multiset Value}

/-! ## The relations -/

/-- What becomes of a table. -/
structure Onward (h h' : Heap) : Prop where
  /-- If no count is lost, none was before. -/
  saturated : h'.saturated = false → h.saturated = false
  /-- If generations are in order, they were before. -/
  wrapped : h'.wrapped = false → h.wrapped = false
  /-- A name that has outlived its object stays so. -/
  spent : h'.wrapped = false → ∀ id, h.Spent id → h'.Spent id
  /-- A name that means an object goes on to mean it, or has outlived it. -/
  live : h'.wrapped = false → ∀ id, h.contains id = true → h'.contains id = true ∨ h'.Spent id
  /-- Persistent objects stay. -/
  persistent : ∀ id, h.isPersistent id = true → h'.isPersistent id = true

/-- What becomes of a table in which objects are freed, but not changed or made. -/
structure Shrinks (h h' : Heap) : Prop extends Onward h h' where
  /-- What is there was there before, and is as it was. -/
  objects : ∀ id, h'.contains id = true → h'.get? id = h.get? id

theorem Onward.refl (h : Heap) : h.Onward h :=
  ⟨fun hs => hs, fun hw => hw, fun _ _ hs => hs, fun _ _ hl => .inl hl, fun _ hp => hp⟩

theorem Onward.trans (h₁ : h.Onward h') (h₂ : h'.Onward h'') : h.Onward h'' where
  saturated hs := h₁.saturated (h₂.saturated hs)
  wrapped hw := h₁.wrapped (h₂.wrapped hw)
  spent hw id hs := h₂.spent hw id (h₁.spent (h₂.wrapped hw) id hs)
  live hw id hl := by
    rcases h₁.live (h₂.wrapped hw) id hl with hl | hs
    · exact h₂.live hw id hl
    · exact .inr (h₂.spent hw id hs)
  persistent id hp := h₂.persistent id (h₁.persistent id hp)

theorem Onward.reliable (hon : h.Onward h') (hr : h'.Reliable stale) : h.Reliable stale :=
  hr.of_flags hon.saturated hon.wrapped

theorem Onward.known (hon : h.Onward h') (hw : h'.wrapped = false) (hk : h.Known true id) :
    h'.Known true id := by
  rcases hk with h0 | hl | ⟨-, hs⟩
  · exact .inl h0
  · exact .inr ((hon.live hw id hl).imp_right fun hs => ⟨rfl, hs⟩)
  · exact .inr (.inr ⟨rfl, hon.spent hw id hs⟩)

/-- Only the slots and what has gone wrong matter. -/
theorem Onward.congr {g : Heap} (hon : h.Onward h') (hslots : g.slots = h'.slots)
    (hsat : g.saturated = h'.saturated) (hwrap : g.wrapped = h'.wrapped) : h.Onward g where
  saturated hs := hon.saturated (hsat ▸ hs)
  wrapped hw := hon.wrapped (hwrap ▸ hw)
  spent hw id hs := by
    obtain ⟨s, hs⟩ := hon.spent (hwrap ▸ hw) id hs
    exact ⟨s, hslots ▸ hs⟩
  live hw id hl := by
    rcases hon.live (hwrap ▸ hw) id hl with hl | ⟨s, hs⟩
    · exact .inl (by rw [contains, occupant?_congr hslots]; exact hl)
    · exact .inr ⟨s, hslots ▸ hs⟩
  persistent id hp := by
    rw [isPersistent, occupant?_congr hslots]
    exact hon.persistent id hp

theorem contains_eq_isSome_get? (h : Heap) (id : ObjectId) :
    h.contains id = (h.get? id).isSome := by
  rw [contains, get?, Option.isSome_map]

theorem Shrinks.refl (h : Heap) : h.Shrinks h := ⟨.refl h, fun _ _ => rfl⟩

theorem Shrinks.trans (h₁ : h.Shrinks h') (h₂ : h'.Shrinks h'') : h.Shrinks h'' where
  toOnward := h₁.toOnward.trans h₂.toOnward
  objects id hl := by
    have hget := h₂.objects id hl
    refine hget.trans (h₁.objects id ?_)
    rw [contains_eq_isSome_get?] at hl ⊢
    rwa [← hget]

theorem Shrinks.congr {g : Heap} (hsh : h.Shrinks h') (hslots : g.slots = h'.slots)
    (hsat : g.saturated = h'.saturated) (hwrap : g.wrapped = h'.wrapped) : h.Shrinks g where
  toOnward := hsh.toOnward.congr hslots hsat hwrap
  objects id hl := by
    rw [contains, occupant?_congr hslots] at hl
    rw [get?, occupant?_congr hslots]
    exact hsh.objects id hl

theorem Shrinks.withLog (h : Heap) (log : UndoLog) : h.Shrinks { h with undo := log } :=
  (Shrinks.refl h).congr rfl rfl rfl

/-! ## Changes to an occupant, and an object that is freed -/

theorem Onward.modifyOccupant {f : Occupant → Occupant} (h : Heap) (id : ObjectId)
    (hf : ∀ o, (f o).persistent = o.persistent) : h.Onward (h.modifyOccupant id f) where
  saturated hs := by simpa using hs
  wrapped hw := by simpa using hw
  spent _ id' hs := by
    obtain ⟨s, hs, hlt⟩ := hs
    obtain ⟨s', hs', hg, -⟩ := exists_getElem?_modifyOccupant id f hs
    exact ⟨s', hs', hg ▸ hlt⟩
  live _ id' hl := .inl (by rwa [contains_modifyOccupant])
  persistent id' hp := by
    rw [isPersistent, occupant?_modifyOccupant] at *
    split
    · simpa [Option.any_map, Function.comp_def, hf] using hp
    · exact hp

theorem Shrinks.modifyOccupant {f : Occupant → Occupant} (h : Heap) (id : ObjectId)
    (hf : ∀ o, (f o).persistent = o.persistent) (hobj : ∀ o, (f o).object = o.object) :
    h.Shrinks (h.modifyOccupant id f) where
  toOnward := .modifyOccupant h id hf
  objects id' _ := by
    rw [get?, get?, occupant?_modifyOccupant]
    split
    · simp [Option.map_map, Function.comp_def, hobj]
    · rfl

theorem Shrinks.retain (h : Heap) (id : ObjectId) : h.Shrinks (h.retain id) := by
  have hsh := Shrinks.modifyOccupant h id Occupant.persistent_retain Occupant.object_retain
  refine ⟨⟨fun hs => ?_, hsh.wrapped, hsh.spent, hsh.live, hsh.persistent⟩, hsh.objects⟩
  exact hsh.saturated (Bool.or_eq_false_iff.1 hs).1

theorem Shrinks.retainValues (h : Heap) (vs : List Value) : h.Shrinks (h.retainValues vs) := by
  induction vs generalizing h with
  | nil => exact .refl h
  | cons v vs ih =>
    refine Shrinks.trans ?_ (ih (h.retainValue v))
    cases v with
    | obj id => exact .retain h id
    | _ => exact .refl h

theorem Shrinks.vacate (ho : h.occupant? id = some o) (hp : o.persistent = false) :
    h.Shrinks (h.vacate id.index.toNat) := by
  obtain ⟨s, hs, hg, hso⟩ := occupant?_eq_some_iff.1 ho
  have hwrap := wrapped_vacate hs hso
  refine ⟨⟨by simp, fun hw => ?_, fun hw id' hsp => ?_, fun hw id' hl => ?_, fun id' hp' => ?_⟩,
    fun id' hl => ?_⟩
  · exact (Bool.or_eq_false_iff.1 (hwrap ▸ hw)).1
  · have hlast := (Bool.or_eq_false_iff.1 (hwrap ▸ hw)).2
    obtain ⟨s', hs', hlt⟩ := hsp
    unfold Spent
    rw [getElem?_vacate hs hso]
    split
    · next hindex =>
      rw [← hindex, hs, Option.some.injEq] at hs'
      exact ⟨_, rfl, (hs' ▸ hlt).trans (Slot.generation_lt_vacated hlast)⟩
    · exact ⟨s', hs', hlt⟩
  · have hlast := (Bool.or_eq_false_iff.1 (hwrap ▸ hw)).2
    by_cases hid : id' = id
    · refine .inr ⟨s.vacated, ?_, ?_⟩
      · rw [hid, getElem?_vacate hs hso, if_pos rfl]
      · rw [hid, ← hg]
        exact Slot.generation_lt_vacated hlast
    · refine .inl ?_
      rwa [contains, occupant?_vacate ho, if_neg hid]
  · have hne : id' ≠ id := fun he => by
      simp [isPersistent, he, ho, hp] at hp'
    rwa [isPersistent, occupant?_vacate ho, if_neg hne]
  · have hne : id' ≠ id := fun he => by
      simp [contains, he, occupant?_vacate ho] at hl
    rw [get?, get?, occupant?_vacate ho, if_neg hne]

theorem Shrinks.releaseAll (h : Heap) (ids : List ObjectId) : h.Shrinks (h.releaseAll ids) := by
  induction h, ids using Heap.releaseAll.induct with
  | case1 h =>
    rw [Heap.releaseAll]
    exact .refl h
  | case2 h id ids ho ih =>
    rw [Heap.releaseAll, ho]
    exact ih
  | case3 h id ids o ho hlast ih =>
    rw [Heap.releaseAll, ho]
    simp only [hlast, and_self, if_true]
    exact (Shrinks.vacate ho hlast.2).trans ih
  | case4 h id ids o ho hlast ih =>
    rw [Heap.releaseAll, ho]
    simp only [hlast, if_false]
    exact (Shrinks.modifyOccupant h id Occupant.persistent_release
      Occupant.object_release).trans ih

theorem Shrinks.releaseValues (h : Heap) (vs : List Value) : h.Shrinks (h.releaseValues vs) :=
  .releaseAll h _

theorem Shrinks.release (h : Heap) (id : ObjectId) : h.Shrinks (h.release id) := .releaseAll h _

/-! ## A new object -/

theorem Allocated.onward {object : Object} (ha : h.Allocated object id h') : h.Onward h' where
  saturated hs := ha.frame.2.1 ▸ hs
  wrapped hw := ha.frame.2.2.1 ▸ hw
  spent _ id' hs := by
    obtain ⟨s, hs, hlt⟩ := hs
    obtain ⟨s', hs', hg⟩ := ha.generation _ s hs
    exact ⟨s', hs', hg ▸ hlt⟩
  live _ id' hl := by
    refine .inl ?_
    rw [contains, ha.occupant]
    split
    · rfl
    · exact hl
  persistent id' hp := by
    have hne : id' ≠ id := fun he => by
      refine ha.fresh (.inr (.inl ?_))
      rw [← he, contains]
      exact Option.isSome_of_any hp
    rwa [isPersistent, ha.occupant, if_neg hne]

theorem Allocated.get?_new {object : Object} (ha : h.Allocated object id h') :
    h'.get? id = some object := by
  rw [get?, ha.occupant, if_pos rfl]
  rfl

theorem Allocated.get?_eq {object : Object} {id' : ObjectId} (ha : h.Allocated object id h')
    (hl : h.contains id' = true) : h'.get? id' = h.get? id' := by
  have hne : id' ≠ id := fun he => ha.fresh (.inr (.inl (he ▸ hl)))
  rw [get?, get?, ha.occupant, if_neg hne]

end StoryMachine.Heap
