import StoryMachine.Proofs.Heap.Slots

/-!
# Counts that are owned

Every count of an object is owned by somebody: by an object that holds its name,
by a record of the undo log, or by a caller of the table. A table is *counted*
for a caller's holdings if the count of every object that can be freed is the
number of times its name is held, and if no name that is held is that of an
object which has been freed. All of it is on condition that no count was lost at
the largest number of counts (`Heap.saturated`).

A caller may also be allowed names that have outlived their object (`stale`).
They mean nothing as long as the generations of a slot do not start again
(`Heap.wrapped`), so this is part of the condition then.

* `Heap.Tidy`: the slots and the list of free ones agree;
* `Heap.Counted`: the invariant;
* `Counted.retain`, `Counted.releaseAll`: counts taken and released;
* `Counted.alloc`: a new object, which owns what it holds.
-/

namespace StoryMachine

theorem Value.obj?_eq_some_iff {v : Value} {id : ObjectId} : v.obj? = some id ↔ v = .obj id := by
  cases v <;> simp [Value.obj?]

namespace Occupant

variable {o : Occupant}

@[simp] theorem object_retain (o : Occupant) : o.retain.object = o.object := rfl

@[simp] theorem persistent_retain (o : Occupant) : o.retain.persistent = o.persistent := rfl

@[simp] theorem object_release (o : Occupant) : o.release.object = o.object := rfl

@[simp] theorem persistent_release (o : Occupant) : o.release.persistent = o.persistent := rfl

theorem toNat_refs_retain (ho : o.isFull = false) : o.retain.refs.toNat = o.refs.toNat + 1 := by
  have hmax : o.refs.toNat ≠ 4294967295 := fun he => by
    rw [isFull, beq_iff_eq.2 (UInt32.toNat_inj.1 he)] at ho
    cases ho
  have hlt := o.refs.toNat_lt
  simp only [retain, ho, Bool.false_eq_true, if_false, UInt32.toNat_add, UInt32.toNat_one]
  omega

theorem toNat_refs_release (o : Occupant) : o.release.refs.toNat = o.refs.toNat - 1 := by
  have hlt := o.refs.toNat_lt
  by_cases h0 : o.refs = 0
  · simp [release, h0]
  · have hpos : o.refs.toNat ≠ 0 := fun he => h0 (UInt32.toNat_inj.1 he)
    have hle : (1 : UInt32) ≤ o.refs := UInt32.le_iff_toNat_le.2 (by rw [UInt32.toNat_one]; omega)
    simp only [release, if_neg h0, UInt32.toNat_sub_of_le _ _ hle, UInt32.toNat_one]

end Occupant

/-- Every savepoint marks a place in the log, and later ones later places. -/
structure UndoLog.Ordered (log : UndoLog) : Prop where
  /-- A savepoint marks a place of the log. -/
  start_le : ∀ s ∈ log.savepoints, s.start ≤ log.records.size
  /-- Savepoints come in the order of their places. -/
  ascending : log.savepoints.Pairwise (·.start ≤ ·.start)

namespace Heap

variable {stale : Bool} {h : Heap} {i : Nat} {id id' : ObjectId} {s : Slot} {o : Occupant}
  {held M N : Multiset Value}

/-! ## The invariant -/

/-- The slots and the list of the free ones agree. Image objects are those of
    generation zero, and only they are persistent. -/
structure Tidy (h : Heap) : Prop where
  /-- The first slot is always there. -/
  size_pos : 0 < h.slots.size
  /-- There are no more slots than the settings allow. -/
  size_le : h.slots.size ≤ max 1 h.settings.maxObjects.toNat
  /-- It is never used. -/
  reserved : h.isOccupied 0 = false
  /-- Nor is it free. -/
  zero_not_free : 0 ∉ h.free
  /-- No slot is free twice. -/
  free_nodup : h.free.Nodup
  /-- A free slot exists, is empty, and is not for an image object. -/
  free_open : ∀ i ∈ h.free, ∃ s, h.slots[i.toNat]? = some s ∧ s.occupant? = none ∧
    s.generation ≠ 0
  /-- The persistent objects are those of generation zero. -/
  persistent_iff : ∀ id o, h.occupant? id = some o →
    (o.persistent = true ↔ id.generation = 0)

/-- Everything that objects and records own a count of. -/
def owned (h : Heap) : Multiset Value := h.edges + h.undo.values

/-- The generation of a name is over. -/
def Spent (h : Heap) (id : ObjectId) : Prop :=
  ∃ s, h.slots[id.index.toNat]? = some s ∧ id.generation.toNat < s.generation.toNat

/-- A name that may be held: that of an image object, one that means an object,
    or, if such are allowed, one that has outlived its object. -/
def Known (stale : Bool) (h : Heap) (id : ObjectId) : Prop :=
  id.generation = 0 ∨ h.contains id = true ∨ (stale = true ∧ h.Spent id)

/-- No count was lost, and no name has come to mean a second object if names may
    outlive their object. -/
def Reliable (stale : Bool) (h : Heap) : Prop :=
  h.saturated = false ∧ (stale = true → h.wrapped = false)

/-- The count of every object that can be freed is the number of times that its
    name occurs. -/
def Exact (h : Heap) (M : Multiset Value) : Prop :=
  ∀ id o, h.occupant? id = some o → o.persistent = false → o.refs.toNat = M.count (.obj id)

/-- Counts are exact, and every name may be held. -/
structure Balanced (stale : Bool) (h : Heap) (M : Multiset Value) : Prop where
  /-- The counts are the numbers of times that names occur. -/
  exact : h.Exact M
  /-- The names are such as may be held. -/
  known : ∀ id, .obj id ∈ M → h.Known stale id

/-- The table is in order, and the counts are owned by the objects, the log and
    the holdings of the caller. -/
structure Counted (stale : Bool) (h : Heap) (held : Multiset Value) : Prop where
  /-- The slots are in order. -/
  tidy : h.Tidy
  /-- The savepoints are in order. -/
  ordered : h.undo.Ordered
  /-- The counts are those that are owned. -/
  balanced : h.Reliable stale → h.Balanced stale (h.owned + held)

theorem Reliable.of_flags {h' : Heap} (hr : h'.Reliable stale)
    (hsat : h'.saturated = false → h.saturated = false)
    (hwrap : h'.wrapped = false → h.wrapped = false) : h.Reliable stale :=
  ⟨hsat hr.1, fun hs => hwrap (hr.2 hs)⟩

/-- Names stay as they are if objects stay and slots do not go back in their
    generations. -/
theorem Known.mono {h' : Heap} (hk : h.Known stale id)
    (hcontains : h.contains id = true → h'.contains id = true)
    (hgen : ∀ s, h.slots[id.index.toNat]? = some s →
      ∃ s', h'.slots[id.index.toNat]? = some s' ∧ s.generation.toNat ≤ s'.generation.toNat) :
    h'.Known stale id := by
  rcases hk with h0 | hc | ⟨hstale, s, hs, hlt⟩
  · exact .inl h0
  · exact .inr (.inl (hcontains hc))
  · obtain ⟨s', hs', hle⟩ := hgen s hs
    exact .inr (.inr ⟨hstale, s', hs', hlt.trans_le hle⟩)

/-! ## Counts of names -/

/-- Two holdings with the same objects in them. -/
def SameObjects (M N : Multiset Value) : Prop := ∀ id, M.count (.obj id) = N.count (.obj id)

theorem SameObjects.mem_iff (hs : SameObjects M N) : .obj id ∈ M ↔ .obj id ∈ N := by
  rw [← Multiset.count_pos, ← Multiset.count_pos, hs id]

theorem SameObjects.add_right (hs : SameObjects M N) (K : Multiset Value) :
    SameObjects (M + K) (N + K) := fun id => by
  rw [Multiset.count_add, Multiset.count_add, hs id]

theorem SameObjects.add_left (hs : SameObjects M N) (K : Multiset Value) :
    SameObjects (K + M) (K + N) := fun id => by
  rw [Multiset.count_add, Multiset.count_add, hs id]

/-- Only the objects among values matter. -/
theorem sameObjects_objects (vs : List Value) :
    SameObjects (vs : Multiset Value) ((Value.objects vs).map Value.obj : List Value) := by
  intro id
  rw [Multiset.coe_count, Multiset.coe_count]
  induction vs with
  | nil => rfl
  | cons v vs ih =>
    rw [Value.objects] at ih ⊢
    cases hv : v.obj? with
    | none =>
      have hne : v ≠ .obj id := fun he => by rw [he] at hv; cases hv
      rw [List.filterMap_cons_none hv, List.count_cons_of_ne hne, ih]
    | some id' =>
      rw [List.filterMap_cons_some hv, List.map_cons, List.count_cons, List.count_cons, ih,
        Value.obj?_eq_some_iff.1 hv]

theorem Balanced.congr (hb : h.Balanced stale M) (hs : SameObjects M N) : h.Balanced stale N :=
  ⟨fun id o ho hp => (hb.exact id o ho hp).trans (hs id), fun id hid =>
    hb.known id (hs.mem_iff.2 hid)⟩

theorem Counted.congr (hc : h.Counted stale M) (hs : SameObjects M N) : h.Counted stale N :=
  ⟨hc.tidy, hc.ordered, fun hr => (hc.balanced hr).congr (hs.add_left _)⟩

/-- Nor do names of image objects matter, which are never freed. -/
theorem Counted.congr_dynamic (hc : h.Counted stale M)
    (hs : ∀ id : ObjectId, id.generation ≠ 0 → M.count (.obj id) = N.count (.obj id)) :
    h.Counted stale N := by
  refine ⟨hc.tidy, hc.ordered, fun hr => ⟨fun id o ho hp => ?_, fun id hid => ?_⟩⟩
  · have hdyn : id.generation ≠ 0 := fun h0 => by
      rw [(hc.tidy.persistent_iff id o ho).2 h0] at hp
      cases hp
    rw [(hc.balanced hr).exact id o ho hp, Multiset.count_add, Multiset.count_add, hs id hdyn]
  · by_cases hdyn : id.generation = 0
    · exact .inl hdyn
    · refine (hc.balanced hr).known id ?_
      rw [← Multiset.count_pos, Multiset.count_add] at hid ⊢
      rwa [hs id hdyn]

theorem count_cons_obj (id id' : ObjectId) (M : Multiset Value) :
    (Value.obj id ::ₘ M).count (.obj id') = M.count (.obj id') + if id' = id then 1 else 0 := by
  simp [Multiset.count_cons]

/-! ## Changes to an occupant -/

section ModifyOccupant

variable {f : Occupant → Occupant}

theorem contains_modifyOccupant (h : Heap) (id : ObjectId) (f : Occupant → Occupant)
    (id' : ObjectId) : (h.modifyOccupant id f).contains id' = h.contains id' := by
  rw [contains, occupant?_modifyOccupant]
  split <;> simp [contains]

theorem getElem?_modifyOccupant (hs : (h.modifyOccupant id f).slots[i]? = some s) :
    ∃ s', h.slots[i]? = some s' ∧ s'.generation = s.generation ∧
      s'.occupant?.isSome = s.occupant?.isSome := by
  rw [modifyOccupant, getElem?_modifySlot] at hs
  split at hs
  · obtain ⟨s', hs', rfl⟩ := Option.map_eq_some_iff.1 hs
    refine ⟨s', hs', ?_⟩
    split <;> simp
  · exact ⟨s, hs, rfl, rfl⟩

theorem exists_getElem?_modifyOccupant (id : ObjectId) (f : Occupant → Occupant)
    (hs : h.slots[i]? = some s) :
    ∃ s', (h.modifyOccupant id f).slots[i]? = some s' ∧ s'.generation = s.generation ∧
      s'.occupant?.isSome = s.occupant?.isSome := by
  rw [modifyOccupant, getElem?_modifySlot]
  split
  · refine ⟨_, by rw [hs, Option.map_some], ?_⟩
    split <;> simp
  · exact ⟨s, hs, rfl, rfl⟩

theorem Known.modifyOccupant (hk : h.Known stale id') (id : ObjectId) (f : Occupant → Occupant) :
    (h.modifyOccupant id f).Known stale id' := by
  refine hk.mono (by rw [contains_modifyOccupant]; exact fun hc => hc) fun s hs => ?_
  obtain ⟨s', hs', hg, -⟩ := exists_getElem?_modifyOccupant id f hs
  exact ⟨s', hs', by rw [hg]⟩

theorem Tidy.modifyOccupant (ht : h.Tidy) (id : ObjectId)
    (hf : ∀ o, (f o).persistent = o.persistent) : (h.modifyOccupant id f).Tidy where
  size_pos := by simpa [Heap.modifyOccupant, modifySlot_eq] using ht.size_pos
  size_le := by simpa [Heap.modifyOccupant, modifySlot_eq] using ht.size_le
  reserved := by
    refine Bool.eq_false_iff.2 fun ho => ?_
    obtain ⟨s, o, hs, hso⟩ := isOccupied_iff.1 ho
    obtain ⟨s', hs', -, hsome⟩ := getElem?_modifyOccupant hs
    obtain ⟨o', ho'⟩ := Option.isSome_iff_exists.1 (hsome.trans (hso ▸ rfl))
    exact absurd ht.reserved (by rw [isOccupied_iff.2 ⟨s', o', hs', ho'⟩]; decide)
  zero_not_free := by simpa [Heap.modifyOccupant, modifySlot_eq] using ht.zero_not_free
  free_nodup := by simpa [Heap.modifyOccupant, modifySlot_eq] using ht.free_nodup
  free_open i hi := by
    obtain ⟨s, hs, hempty, hg⟩ := ht.free_open i (by
      simpa [Heap.modifyOccupant, modifySlot_eq] using hi)
    obtain ⟨s', hs', hg', hsome⟩ := exists_getElem?_modifyOccupant id f hs
    exact ⟨s', hs', by simpa [hempty] using hsome, hg' ▸ hg⟩
  persistent_iff id' o ho := by
    rw [occupant?_modifyOccupant] at ho
    split at ho
    · obtain ⟨o', ho', rfl⟩ := Option.map_eq_some_iff.1 ho
      rw [hf]
      exact ht.persistent_iff id' o' ho'
    · exact ht.persistent_iff id' o ho

@[simp] theorem undo_modifyOccupant (h : Heap) (id : ObjectId) (f : Occupant → Occupant) :
    (h.modifyOccupant id f).undo = h.undo := by
  simp [Heap.modifyOccupant, modifySlot_eq]

@[simp] theorem saturated_modifyOccupant (h : Heap) (id : ObjectId) (f : Occupant → Occupant) :
    (h.modifyOccupant id f).saturated = h.saturated := by
  simp [Heap.modifyOccupant, modifySlot_eq]

@[simp] theorem wrapped_modifyOccupant (h : Heap) (id : ObjectId) (f : Occupant → Occupant) :
    (h.modifyOccupant id f).wrapped = h.wrapped := by
  simp [Heap.modifyOccupant, modifySlot_eq]

theorem Reliable.of_modifyOccupant (hr : (h.modifyOccupant id f).Reliable stale) :
    h.Reliable stale :=
  hr.of_flags (by simp) (by simp)

/-- What is owned does not depend on the numbers of counts. -/
theorem owned_modifyOccupant (h : Heap) (id : ObjectId) (hf : ∀ o, (f o).object = o.object) :
    (h.modifyOccupant id f).owned = h.owned := by
  rw [owned, owned, coe_edges_modifyOccupant_of_body h id hf, undo_modifyOccupant]

end ModifyOccupant

/-! ## One count more, one less -/

theorem Exact.retain (he : h.Exact M) (hfull : ∀ o, h.occupant? id = some o → o.isFull = false) :
    (h.modifyOccupant id Occupant.retain).Exact (.obj id ::ₘ M) := by
  intro id' o ho hp
  rw [occupant?_modifyOccupant] at ho
  rw [count_cons_obj]
  split at ho
  · next hid =>
    obtain ⟨o', ho', rfl⟩ := Option.map_eq_some_iff.1 ho
    rw [if_pos hid, Occupant.toNat_refs_retain (hfull o' (hid ▸ ho')), he id' o' ho' hp]
  · next hid => rw [if_neg hid, he id' o ho hp, add_zero]

theorem Exact.release (he : h.Exact (.obj id ::ₘ M)) :
    (h.modifyOccupant id Occupant.release).Exact M := by
  intro id' o ho hp
  rw [occupant?_modifyOccupant] at ho
  split at ho
  · next hid =>
    obtain ⟨o', ho', rfl⟩ := Option.map_eq_some_iff.1 ho
    have := he id' o' ho' hp
    rw [count_cons_obj, if_pos hid] at this
    rw [Occupant.toNat_refs_release, this, Nat.add_sub_cancel]
  · next hid =>
    have := he id' o ho hp
    rwa [count_cons_obj, if_neg hid, add_zero] at this

/-- A count of what is not there does not matter. -/
theorem Exact.of_cons (he : h.Exact (.obj id ::ₘ M)) (ho : h.occupant? id = none) :
    h.Exact M := by
  intro id' o ho' hp
  have hne : id' ≠ id := fun hid => by rw [hid, ho] at ho'; cases ho'
  rw [he id' o ho' hp, count_cons_obj, if_neg hne, add_zero]

theorem Tidy.retain (ht : h.Tidy) (id : ObjectId) : (h.retain id).Tidy :=
  have := ht.modifyOccupant id Occupant.persistent_retain
  ⟨this.1, this.2, this.3, this.4, this.5, this.6, this.7⟩

theorem Reliable.of_retain (hr : (h.retain id).Reliable stale) : h.Reliable stale :=
  hr.of_flags (fun hsat => saturated_modifyOccupant h id Occupant.retain ▸
    (Bool.or_eq_false_iff.1 hsat).1) (by simp [Heap.retain])

theorem owned_retain (h : Heap) (id : ObjectId) : (h.retain id).owned = h.owned :=
  owned_modifyOccupant h id Occupant.object_retain

theorem Balanced.retain (hb : h.Balanced stale M) (hr : (h.retain id).Reliable stale)
    (hk : h.Known stale id) : (h.retain id).Balanced stale (.obj id ::ₘ M) := by
  refine ⟨hb.exact.retain fun o ho => ?_, fun id' hid' => ?_⟩
  · have hsat : (h.saturated || (h.occupant? id).any Occupant.isFull) = false := by
      simpa [Heap.retain] using hr.1
    simpa [ho] using (Bool.or_eq_false_iff.1 hsat).2
  · -- The name is one of those held before, or the one that is retained.
    have hk' : h.Known stale id' := by
      rcases Multiset.mem_cons.1 hid' with heq | hid'
      · exact (Value.obj.inj heq) ▸ hk
      · exact hb.known id' hid'
    exact hk'.modifyOccupant id Occupant.retain

/-- Takes one more count for the caller. -/
theorem Counted.retain (hc : h.Counted stale held) (hk : h.Reliable stale → h.Known stale id) :
    (h.retain id).Counted stale (.obj id ::ₘ held) where
  tidy := hc.tidy.retain id
  ordered := by simpa [Heap.retain] using hc.ordered
  balanced hr := by
    rw [owned_retain, Multiset.add_cons]
    exact (hc.balanced hr.of_retain).retain hr (hk hr.of_retain)

theorem Counted.retainValue {v : Value} (hc : h.Counted stale held)
    (hk : ∀ id, v = .obj id → h.Reliable stale → h.Known stale id) :
    (h.retainValue v).Counted stale (v ::ₘ held) := by
  cases v with
  | obj id => exact hc.retain (hk id rfl)
  | _ => exact hc.congr fun id => by simp

/-- A value that names no object in the table can be forgotten. -/
theorem Counted.forget (hc : h.Counted stale (.obj id ::ₘ held)) (ho : h.occupant? id = none) :
    h.Counted stale held where
  tidy := hc.tidy
  ordered := hc.ordered
  balanced hr := by
    have hb := hc.balanced hr
    rw [Multiset.add_cons] at hb
    exact ⟨hb.exact.of_cons ho, fun id' hid' => hb.known id' (Multiset.mem_cons_of_mem hid')⟩

/-- One count less, of an object that stays. -/
theorem Counted.modifyOccupant_release (hc : h.Counted stale (.obj id ::ₘ held)) :
    (h.modifyOccupant id Occupant.release).Counted stale held where
  tidy := hc.tidy.modifyOccupant id Occupant.persistent_release
  ordered := by simpa using hc.ordered
  balanced hr := by
    have hb := hc.balanced hr.of_modifyOccupant
    rw [owned_modifyOccupant h id Occupant.object_release]
    rw [Multiset.add_cons] at hb
    exact ⟨hb.exact.release, fun id' hid' =>
      (hb.known id' (Multiset.mem_cons_of_mem hid')).modifyOccupant id Occupant.release⟩

/-! ## An object that is freed -/

theorem Tidy.index_ne_zero (ht : h.Tidy) (ho : h.occupant? id = some o) : id.index ≠ 0 := by
  intro h0
  obtain ⟨s, hs, -, hso⟩ := occupant?_eq_some_iff.1 ho
  rw [h0, UInt32.toNat_zero] at hs
  exact absurd ht.reserved (by rw [isOccupied_iff.2 ⟨s, o, hs, hso⟩]; decide)

theorem Tidy.vacate (ht : h.Tidy) (ho : h.occupant? id = some o) :
    (h.vacate id.index.toNat).Tidy := by
  obtain ⟨s, hs, hg, hso⟩ := occupant?_eq_some_iff.1 ho
  have hfree := free_vacate hs hso
  rw [UInt32.ofNat_toNat] at hfree
  -- The slot was not free, since it held an object.
  have hnot : id.index ∉ h.free := fun hmem => by
    obtain ⟨s', hs', hempty, -⟩ := ht.free_open _ hmem
    rw [hs, Option.some.injEq] at hs'
    rw [← hs', hso] at hempty
    cases hempty
  refine ⟨?_, ?_, ?_, ?_, ?_, ?_, ?_⟩
  · rw [size_vacate]
    exact ht.size_pos
  · rw [size_vacate, settings_vacate]
    exact ht.size_le
  · refine Bool.eq_false_iff.2 fun hocc => ?_
    obtain ⟨s', o', hs', hso'⟩ := isOccupied_iff.1 hocc
    rw [getElem?_vacate hs hso] at hs'
    split at hs'
    · rw [← Option.some.inj hs'] at hso'
      cases hso'
    · exact absurd ht.reserved (by rw [isOccupied_iff.2 ⟨s', o', hs', hso'⟩]; decide)
  · rw [hfree, List.mem_cons, not_or]
    exact ⟨(ht.index_ne_zero ho).symm, ht.zero_not_free⟩
  · rw [hfree]
    exact List.nodup_cons.2 ⟨hnot, ht.free_nodup⟩
  · rw [hfree]
    intro i hi
    rw [getElem?_vacate hs hso]
    rcases List.mem_cons.1 hi with rfl | hi
    · exact ⟨s.vacated, if_pos rfl, s.occupant?_vacated, s.generation_vacated_ne_zero⟩
    · have hne : id.index.toNat ≠ i.toNat := fun he => hnot (UInt32.toNat_inj.1 he ▸ hi)
      rw [if_neg hne]
      exact ht.free_open i hi
  · intro id' o' ho'
    rw [occupant?_vacate ho] at ho'
    split at ho'
    · cases ho'
    · exact ht.persistent_iff id' o' ho'

theorem Exact.vacate (he : h.Exact M) (ho : h.occupant? id = some o) :
    (h.vacate id.index.toNat).Exact M := by
  intro id' o' ho' hp
  rw [occupant?_vacate ho] at ho'
  split at ho'
  · cases ho'
  · exact he id' o' ho' hp

theorem Reliable.of_vacate (ho : h.occupant? id = some o)
    (hr : (h.vacate id.index.toNat).Reliable stale) : h.Reliable stale := by
  obtain ⟨s, hs, -, hso⟩ := occupant?_eq_some_iff.1 ho
  refine hr.of_flags (by simp) fun hw => ?_
  rw [wrapped_vacate hs hso] at hw
  exact (Bool.or_eq_false_iff.1 hw).1

/-- The name of a freed object is the only one that means no object any more. -/
theorem Known.vacate (hk : h.Known stale id') (ho : h.occupant? id = some o)
    (hr : (h.vacate id.index.toNat).Reliable stale) (hne : stale = false → id' ≠ id) :
    (h.vacate id.index.toNat).Known stale id' := by
  obtain ⟨s, hs, hg, hso⟩ := occupant?_eq_some_iff.1 ho
  have hlast (hst : stale = true) : s.isLast = false := by
    have := hr.2 hst
    rw [wrapped_vacate hs hso] at this
    exact (Bool.or_eq_false_iff.1 this).2
  rcases hk with h0 | hcontains | ⟨hst, s', hs', hlt⟩
  · exact .inl h0
  · by_cases hid : id' = id
    · -- The freed object itself: its name has outlived it from now on.
      cases hst : stale with
      | false => exact absurd hid (hne hst)
      | true =>
        refine .inr (.inr ⟨rfl, s.vacated, ?_, ?_⟩)
        · rw [hid, getElem?_vacate hs hso, if_pos rfl]
        · rw [hid, ← hg]
          exact Slot.generation_lt_vacated (hlast hst)
    · refine .inr (.inl ?_)
      rw [contains, occupant?_vacate ho, if_neg hid]
      exact hcontains
  · refine .inr (.inr ⟨hst, ?_⟩)
    unfold Spent
    rw [getElem?_vacate hs hso]
    split
    · next hindex =>
      rw [← hindex, hs, Option.some.injEq] at hs'
      subst hs'
      exact ⟨_, rfl, hlt.trans (Slot.generation_lt_vacated (hlast hst))⟩
    · exact ⟨s', hs', hlt⟩

theorem owned_vacate (ho : h.occupant? id = some o) :
    (h.vacate id.index.toNat).owned + (o.object.body.edges : Multiset Value) = h.owned := by
  obtain ⟨s, hs, -, hso⟩ := occupant?_eq_some_iff.1 ho
  rw [owned, owned, undo_vacate, ← edges_vacate hs hso]
  abel

/-- When the last count of an object goes, the caller gets what it held. -/
theorem Counted.vacate (hc : h.Counted stale (.obj id ::ₘ held)) (ho : h.occupant? id = some o)
    (hrefs : o.refs ≤ 1) (hp : o.persistent = false) :
    (h.vacate id.index.toNat).Counted stale (o.object.body.edges + held) where
  tidy := hc.tidy.vacate ho
  ordered := by simpa using hc.ordered
  balanced hr := by
    have hb := hc.balanced (hr.of_vacate ho)
    have hsum : (h.vacate id.index.toNat).owned + ((o.object.body.edges : Multiset Value) + held) =
        h.owned + held := by
      rw [← owned_vacate ho, add_assoc]
    rw [hsum]
    rw [Multiset.add_cons] at hb
    -- The released count was the only one, so the name is held nowhere else.
    have hone := hb.exact id o ho hp
    rw [count_cons_obj, if_pos rfl] at hone
    have hle : o.refs.toNat ≤ 1 := UInt32.le_iff_toNat_le.1 hrefs
    have hzero : (h.owned + held).count (.obj id) = 0 := by omega
    refine ⟨(hb.exact.vacate ho).of_cons ?_, fun id' hid' => ?_⟩
    · rw [occupant?_vacate ho, if_pos rfl]
    · refine (hb.known id' (Multiset.mem_cons_of_mem hid')).vacate ho hr fun _ heq => ?_
      exact Multiset.count_eq_zero.1 hzero (heq ▸ hid')

/-- Releasing counts that the caller holds. -/
theorem Counted.releaseAll {ids : List ObjectId}
    (hc : h.Counted stale ((ids.map Value.obj : List Value) + held)) :
    (h.releaseAll ids).Counted stale held := by
  induction h, ids using Heap.releaseAll.induct generalizing held with
  | case1 h =>
    rw [Heap.releaseAll]
    simpa using hc
  | case2 h id ids ho ih =>
    rw [List.map_cons, ← Multiset.cons_coe, Multiset.cons_add] at hc
    rw [Heap.releaseAll, ho]
    exact ih (hc.forget ho)
  | case3 h id ids o ho hlast ih =>
    rw [List.map_cons, ← Multiset.cons_coe, Multiset.cons_add] at hc
    rw [Heap.releaseAll, ho]
    simp only [hlast, and_self, if_true]
    refine ih ?_
    rw [List.map_append, List.map_reverse, ← Multiset.coe_add, Multiset.coe_reverse, add_assoc]
    exact (hc.vacate ho hlast.1 hlast.2).congr ((sameObjects_objects _).add_right _)
  | case4 h id ids o ho hlast ih =>
    rw [List.map_cons, ← Multiset.cons_coe, Multiset.cons_add] at hc
    rw [Heap.releaseAll, ho]
    simp only [hlast, if_false]
    exact ih hc.modifyOccupant_release

theorem Counted.releaseValues {vs : List Value} (hc : h.Counted stale (vs + held)) :
    (h.releaseValues vs).Counted stale held :=
  (hc.congr ((sameObjects_objects vs).add_right _)).releaseAll

theorem Counted.release (hc : h.Counted stale (.obj id ::ₘ held)) :
    (h.release id).Counted stale held := by
  have hc' : h.Counted stale (([id].map Value.obj : List Value) + held) := by simpa using hc
  exact hc'.releaseAll

/-! ## New objects -/

theorem Known.of_stale (hk : h.Known stale id) : h.Known true id :=
  Or.imp_right (Or.imp_right fun hk => ⟨rfl, hk.2⟩) hk

/-- What it means that a table got a new object. -/
structure Allocated (h : Heap) (object : Object) (id : ObjectId) (h' : Heap) : Prop where
  /-- The slots are in order. -/
  tidy : h'.Tidy
  /-- The name is new. -/
  fresh : ¬h.Known true id
  /-- It means the new object, with one count of it. -/
  occupant : ∀ id', h'.occupant? id' =
    if id' = id then some ⟨object, 1, false⟩ else h.occupant? id'
  /-- What the object holds is added to what is held. -/
  edges : (h'.edges : Multiset Value) = h.edges + object.body.edges
  /-- No slot changes its generation. -/
  generation : ∀ (j : Nat) (s : Slot), h.slots[j]? = some s →
    ∃ s' : Slot, h'.slots[j]? = some s' ∧ s'.generation = s.generation
  /-- Nothing else that matters is changed. -/
  frame : h'.undo = h.undo ∧ h'.saturated = h.saturated ∧ h'.wrapped = h.wrapped ∧
    h'.settings = h.settings

theorem Tidy.occupy (ht : h.Tidy) (id : ObjectId) (hs : h.slots[id.index.toNat]? = some s)
    (hso : s.occupant? = none) (hg : id.generation = s.generation) (hdyn : id.generation ≠ 0)
    (hindex : id.index ≠ 0) (hfree : id.index ∉ h.free) (object : Object) :
    h.Allocated object id (h.occupy id.index.toNat object) where
  tidy := by
    have hocc := occupant?_occupy hs rfl hg object
    refine ⟨?_, ?_, ?_, ?_, ?_, ?_, ?_⟩
    · simpa [Heap.occupy, modifySlot_eq] using ht.size_pos
    · simpa [Heap.occupy, modifySlot_eq] using ht.size_le
    · have hne : id.index.toNat ≠ 0 := fun he => hindex (UInt32.toNat_inj.1 he)
      exact (isOccupied_eq_of_slot (by rw [getElem?_occupy, if_neg hne])).trans ht.reserved
    · simpa [Heap.occupy, modifySlot_eq] using ht.zero_not_free
    · simpa [Heap.occupy, modifySlot_eq] using ht.free_nodup
    · intro i hi
      have hi' : i ∈ h.free := by simpa [Heap.occupy, modifySlot_eq] using hi
      have hne : id.index.toNat ≠ i.toNat := fun he => hfree (UInt32.toNat_inj.1 he ▸ hi')
      rw [getElem?_occupy, if_neg hne]
      exact ht.free_open i hi'
    · intro id' o' ho'
      rw [hocc] at ho'
      split at ho'
      · next hid =>
        rw [← Option.some.inj ho', hid]
        simp [hdyn]
      · exact ht.persistent_iff id' o' ho'
  fresh hk := by
    rcases hk with h0 | hcontains | ⟨-, s', hs', hlt⟩
    · exact hdyn h0
    · -- No object and no name of an older generation can be meant, since the slot was empty.
      obtain ⟨o', ho'⟩ := contains_iff.1 hcontains
      obtain ⟨s', hs', -, hso'⟩ := occupant?_eq_some_iff.1 ho'
      rw [hs, Option.some.injEq] at hs'
      rw [hs', hso'] at hso
      cases hso
    · rw [hs, Option.some.injEq] at hs'
      rw [hg, hs'] at hlt
      exact absurd hlt (lt_irrefl _)
  occupant := occupant?_occupy hs rfl hg object
  edges := edges_occupy hs hso object
  generation j s' hs' := by
    rw [getElem?_occupy, hs']
    split
    · exact ⟨_, rfl, rfl⟩
    · exact ⟨s', rfl, rfl⟩
  frame := by simp [Heap.occupy, modifySlot_eq]

/-- One more slot changes nothing but the number of slots. -/
theorem getElem?_push (h : Heap) (s : Slot) {i : Nat} (hi : i ≠ h.slots.size) :
    (h.slots.push s)[i]? = h.slots[i]? := by
  rw [Array.getElem?_push, if_neg hi]

theorem occupant?_push (h : Heap) {s : Slot} (hs : s.occupant? = none) (id : ObjectId) :
    occupant? { h with slots := h.slots.push s } id = h.occupant? id := by
  unfold occupant?
  by_cases hi : id.index.toNat = h.slots.size
  · simp [hi, hs]
  · simp only [getElem?_push h s hi]

theorem edges_push (h : Heap) {s : Slot} (hs : s.occupant? = none) :
    edges { h with slots := h.slots.push s } = h.edges := by
  simp [edges, hs]

theorem Tidy.size_lt (ht : h.Tidy) : h.slots.size < 2 ^ 32 :=
  ht.size_le.trans_lt (max_lt (by decide) h.settings.maxObjects.toNat_lt)

theorem Tidy.toNat_size (ht : h.Tidy) : (UInt32.ofNat h.slots.size).toNat = h.slots.size :=
  UInt32.toNat_ofNat_of_lt ht.size_lt

theorem Tidy.push (ht : h.Tidy) (hroom : ¬h.settings.maxObjects ≤ UInt32.ofNat h.slots.size) :
    Tidy { h with slots := h.slots.push { generation := 1 } } where
  size_pos := by simp
  size_le := by
    have hlt : h.slots.size < h.settings.maxObjects.toNat := by
      rw [UInt32.le_iff_toNat_le, ht.toNat_size] at hroom
      exact not_le.1 hroom
    rw [Array.size_push]
    exact le_max_of_le_right hlt
  reserved := (isOccupied_eq_of_slot (getElem?_push h _ ht.size_pos.ne)).trans ht.reserved
  zero_not_free := ht.zero_not_free
  free_nodup := ht.free_nodup
  free_open i hi := by
    obtain ⟨s, hs, hso, hg⟩ := ht.free_open i hi
    have hlt := (Array.getElem?_eq_some_iff.1 hs).1
    exact ⟨s, (getElem?_push h _ hlt.ne).trans hs, hso, hg⟩
  persistent_iff id o ho := ht.persistent_iff id o ((occupant?_push h rfl id).symm.trans ho)

/-- A table either is full, or gets the object. -/
theorem Tidy.alloc (ht : h.Tidy) (object : Object) :
    (∃ id h', alloc object h = .ok id h' ∧ h.Allocated object id h') ∨
      alloc object h = .error (.outOfMemory h.settings.maxObjects) h := by
  cases hfree : h.free with
  | cons i rest =>
    obtain ⟨s, hs, hso, hdyn⟩ := ht.free_open i (by simp [hfree])
    have hnodup := List.nodup_cons.1 (hfree ▸ ht.free_nodup)
    have hzero : 0 ∉ i :: rest := hfree ▸ ht.zero_not_free
    -- The slot leaves the free ones before it is filled, so that it is not free twice.
    have ht' : Tidy { h with free := rest } :=
      ⟨ht.size_pos, ht.size_le, ht.reserved, fun hm => hzero (List.mem_cons_of_mem _ hm), hnodup.2,
        fun j hj => ht.free_open j (by simp [hfree, hj]), ht.persistent_iff⟩
    have ha := ht'.occupy ⟨i, s.generation⟩ hs hso rfl hdyn
      (fun h0 => hzero (h0 ▸ List.mem_cons_self)) hnodup.1 object
    refine .inl ⟨⟨i, s.generation⟩, _, ?_,
      ⟨ha.tidy, ha.fresh, ha.occupant, ha.edges, ha.generation, ha.frame⟩⟩
    obtain ⟨s', hs', hg'⟩ := ha.generation i.toNat s hs
    simp only [Heap.alloc, bind, EStateM.bind, get, getThe, MonadStateOf.get, EStateM.get, hfree,
      modify, modifyGet, MonadStateOf.modifyGet, EStateM.modifyGet, pure, EStateM.pure]
    rw [hs']
    simp [hg']
  | nil =>
    have hindex := ht.toNat_size
    by_cases hfull : h.settings.maxObjects ≤ UInt32.ofNat h.slots.size
    · refine .inr ?_
      simp [Heap.alloc, bind, EStateM.bind, get, getThe, MonadStateOf.get, EStateM.get, hfree,
        hfull, throw, throwThe, MonadExceptOf.throw, EStateM.throw]
    · have hold (j : Nat) (s : Slot) (hs : h.slots[j]? = some s) :
          (h.slots.push { generation := 1 })[j]? = some s :=
        (getElem?_push h _ (Array.getElem?_eq_some_iff.1 hs).1.ne).trans hs
      -- An empty slot is added, which leaves the objects as they are, and is filled.
      have ha := (ht.push hfull).occupy ⟨UInt32.ofNat h.slots.size, 1⟩ (s := { generation := 1 })
        (by simp [hindex]) rfl rfl (by simp)
        (fun h0 => ht.size_pos.ne' (hindex.symm.trans (congrArg UInt32.toNat h0)))
        (by simp [hfree]) object
      refine .inl ⟨⟨UInt32.ofNat h.slots.size, 1⟩, _, ?_, ha.tidy, fun hk => ?_, fun id' => ?_, ?_,
        fun j s hs => ha.generation j s (hold j s hs), ha.frame⟩
      · simp [Heap.alloc, bind, EStateM.bind, get, getThe, MonadStateOf.get, EStateM.get, hfree,
          hfull, modify, modifyGet, MonadStateOf.modifyGet, EStateM.modifyGet, pure, EStateM.pure]
      · refine ha.fresh (hk.mono (fun hc => ?_) fun s hs => ⟨s, hold _ s hs, le_rfl⟩)
        rwa [contains, occupant?_push h rfl]
      · rw [← occupant?_push h (s := { generation := 1 }) rfl id']
        exact ha.occupant id'
      · rw [← edges_push h (s := { generation := 1 }) rfl]
        exact ha.edges

/-- A new object owns what the caller gave up for it, and the caller gets a count
    of it. -/
theorem Counted.alloc {object : Object} {h' : Heap}
    (hc : h.Counted stale (object.body.edges + held)) (ha : h.Allocated object id h') :
    h'.Counted stale (.obj id ::ₘ held) where
  tidy := ha.tidy
  ordered := ha.frame.1 ▸ hc.ordered
  balanced hr := by
    have hb := hc.balanced (hr.of_flags (fun hf => ha.frame.2.1 ▸ hf)
      (fun hf => ha.frame.2.2.1 ▸ hf))
    have howned : h'.owned + (.obj id ::ₘ held) =
        .obj id ::ₘ (h.owned + ((object.body.edges : Multiset Value) + held)) := by
      rw [owned, owned, ha.edges, ha.frame.1, Multiset.add_cons]
      abel_nf
    rw [howned]
    refine ⟨fun id' o' ho' hp => ?_, fun id' hid' => ?_⟩
    · rw [ha.occupant] at ho'
      rw [count_cons_obj]
      split at ho'
      · next hid =>
        -- No one can hold the name yet, since it is new.
        have hzero : (h.owned + ((object.body.edges : Multiset Value) + held)).count (.obj id) = 0 :=
          Multiset.count_eq_zero.2 fun hmem => ha.fresh (hb.known id hmem).of_stale
        rw [← Option.some.inj ho', hid, hzero, if_pos rfl]
        rfl
      · next hid => rw [if_neg hid, add_zero, hb.exact id' o' ho' hp]
    · rcases Multiset.mem_cons.1 hid' with heq | hid'
      · refine .inr (.inl (contains_iff.2 ⟨⟨object, 1, false⟩, ?_⟩))
        rw [ha.occupant, if_pos (Value.obj.inj heq)]
      · refine (hb.known id' hid').mono (fun hcontains => ?_) fun s hs => ?_
        · obtain ⟨o', ho'⟩ := contains_iff.1 hcontains
          rw [contains, ha.occupant]
          split
          · rfl
          · rw [ho']; rfl
        · obtain ⟨s', hs', hg⟩ := ha.generation _ s hs
          exact ⟨s', hs', by rw [hg]⟩

end Heap

end StoryMachine
