import StoryMachine.Proofs.Heap.Restored
import StoryMachine.Proofs.Heap.Survivors

/-!
# Garbage

A collection frees the objects that cannot be reached, and no others. Whatever is marked
can be reached, since only names that one starts from, and names that marked objects hold,
are ever visited. The freed objects take with them the counts that they owned of others.

* `mark_sound`, `reached_iff`: a mark stands for an object that can be reached;
* `contains_collect_iff_reachable`: what stays is what can be reached;
* `occupant?_collect_eq`: the counts that survivors lose;
* `Collected`, `collect_collected`: all that a collection does.
-/

namespace StoryMachine

namespace Heap

variable {h : Heap} {id : ObjectId} {o : Occupant} {roots roots' : List Value} {i : Nat}

/-! ## What is marked can be reached -/

/-- Every mark stands for an object that can be reached. -/
def MarksSound (h : Heap) (start : ObjectId → Prop) (marks : Array Bool) : Prop :=
  ∀ i : Nat, marks[i]? = some true → ∃ id, id.index.toNat = i ∧ h.Reachable start id

/-- What is to be visited can be reached, if it means an object. -/
theorem mark_sound {start : ObjectId → Prop} {marks : Array Bool} {work : List ObjectId}
    (hmarks : h.MarksSound start marks)
    (hwork : ∀ id ∈ work, h.contains id = true → h.Reachable start id) :
    h.MarksSound start (h.mark marks work) := by
  induction marks, work using mark.induct h with
  | case1 marks =>
    rw [mark]
    exact hmarks
  | case2 marks id work o ho hm ih =>
    have hid : h.Reachable start id := hwork id List.mem_cons_self (contains_iff.2 ⟨o, ho⟩)
    rw [mark]
    split
    · next o' ho' _ =>
      -- The object is marked, and what it holds is to be visited next.
      obtain rfl := Option.some.inj (ho.symm.trans ho')
      refine ih (fun i hi => ?_) fun id' hid' hlive => ?_
      · rw [Array.getElem?_setIfInBounds] at hi
        split at hi
        · next hindex => exact ⟨id, hindex, hid⟩
        · exact hmarks i hi
      · rcases List.mem_append.1 hid' with hedge | hid'
        · exact .edge hid ho (Value.mem_objects.1 hedge) hlive
        · exact hwork id' (List.mem_cons_of_mem _ hid') hlive
    · next hno => exact absurd hm (hno o ho)
  | case3 marks id work hno ih =>
    rw [mark]
    split
    · next o ho hm => exact absurd hm (hno o ho)
    · exact ih hmarks fun id' hid' => hwork id' (List.mem_cons_of_mem _ hid')

/-- The marks are those of the objects that can be reached. -/
theorem reached_iff : (h.reached roots)[i]? = some true ↔
    ∃ id, id.index.toNat = i ∧ h.Reachable (h.IsRoot roots) id := by
  constructor
  · refine mark_sound (fun i hi => ?_) (fun id hid hlive => ?_) i
    · rw [Array.getElem?_replicate] at hi
      split at hi <;> simp at hi
    · -- The first objects to be visited are the roots.
      refine .root ?_ hlive
      rcases List.mem_append.1 hid with hid | hid
      · rcases List.mem_append.1 (Value.mem_objects.1 hid) with hroot | hlog
        · exact .inl hroot
        · exact .inr (.inl hlog)
      · exact .inr (.inr (List.mem_filter.1 hid).2)
  · rintro ⟨id, rfl, hid⟩
    exact reached_of_reachable hid

/-- What stays is what can be reached. -/
theorem contains_collect_iff_reachable :
    (h.collect roots).2.contains id = true ↔ h.Reachable (h.IsRoot roots) id := by
  refine ⟨fun hstays => ?_, contains_collect_of_reachable⟩
  obtain ⟨hlive, hmarked⟩ := contains_collect_iff.1 hstays
  obtain ⟨id', hindex, hid'⟩ := reached_iff.1 hmarked
  -- There is one object in the slot.
  obtain ⟨o, ho⟩ := contains_iff.1 hlive
  obtain ⟨o', ho'⟩ := contains_iff.1 hid'.contains
  exact eq_of_index_eq ho' ho (UInt32.toNat_inj.1 hindex) ▸ hid'

/-! ## The order of the roots -/

theorem size_reached (h : Heap) (roots : List Value) :
    (h.reached roots).size = h.slots.size :=
  (h.reached_marksAll roots).size_eq.trans Array.size_replicate

theorem reached_congr (hroots : ∀ v, v ∈ roots' ↔ v ∈ roots) :
    h.reached roots' = h.reached roots := by
  have hstart : h.IsRoot roots' = h.IsRoot roots := by
    funext id
    simp only [IsRoot, hroots]
  refine Array.ext ((size_reached h roots').trans (size_reached h roots).symm) fun i hi hi' => ?_
  have hmark : (h.reached roots')[i]? = some true ↔ (h.reached roots)[i]? = some true := by
    rw [reached_iff, reached_iff, hstart]
  rwa [Array.getElem?_eq_getElem hi, Array.getElem?_eq_getElem hi', Option.some.injEq,
    Option.some.injEq, ← Bool.eq_iff_iff] at hmark

/-- Only which values are among the roots matters. -/
theorem collect_congr (hroots : ∀ v, v ∈ roots' ↔ v ∈ roots) :
    h.collect roots' = h.collect roots := by
  rw [collect, collect, unreached, unreached, reached_congr hroots]

/-! ## The counts of survivors -/

theorem occupant?_foldl_release (h : Heap) (ids : List ObjectId) (id : ObjectId) :
    (ids.foldl (fun h id => h.modifyOccupant id Occupant.release) h).occupant? id =
      (h.occupant? id).map Occupant.release^[ids.count id] := by
  induction ids generalizing h with
  | nil => rw [List.foldl_nil, List.count_nil, Function.iterate_zero, Option.map_id, id_eq]
  | cons id' ids ih =>
    rw [List.foldl_cons, ih, occupant?_modifyOccupant, List.count_cons]
    by_cases hid : id = id'
    · rw [if_pos hid, if_pos (beq_iff_eq.2 hid.symm), Option.map_map, ← Function.iterate_succ]
    · rw [if_neg hid, if_neg fun heq => hid (beq_iff_eq.1 heq).symm, Nat.add_zero]

end Heap

namespace Occupant

theorem toNat_refs_iterate_release (o : Occupant) (n : Nat) :
    (release^[n] o).refs.toNat = o.refs.toNat - n := by
  induction n with
  | zero => rfl
  | succ n ih => rw [Function.iterate_succ_apply', toNat_refs_release, ih, Nat.sub_sub]

/-- An object loses counts, and nothing else. -/
theorem iterate_release_eq (o : Occupant) (n : Nat) :
    release^[n] o = { o with refs := (release^[n] o).refs } := by
  induction n with
  | zero => rfl
  | succ n ih =>
    rw [Function.iterate_succ_apply', ih]
    rfl

end Occupant

namespace Heap

variable {h : Heap} {id : ObjectId} {o : Occupant} {roots roots' : List Value} {i : Nat}

/-- The values that an object holds. -/
def edgesOf (h : Heap) (id : ObjectId) : List Value :=
  match h.get? id with
  | none => []
  | some object => object.body.edges

/-- The objects that a collection frees. -/
def freedIds (h : Heap) (roots : List Value) : List ObjectId :=
  h.ids.filter fun id => !(h.collect roots).2.contains id

theorem edgesAt_index (hlive : h.contains id = true) : h.edgesAt id.index.toNat = h.edgesOf id := by
  obtain ⟨o, ho⟩ := contains_iff.1 hlive
  obtain ⟨s, hs, -, hso⟩ := occupant?_eq_some_iff.1 ho
  have hget : h.get? id = some o.object := get?_eq_some_iff.2 ⟨o, ho, rfl⟩
  rw [edgesAt, hs, edgesOf, hget]
  exact Slot.edges_occupied hso

theorem isSome_idAt? (h : Heap) (i : Nat) : (h.idAt? i).isSome = h.isOccupied i := by
  rw [idAt?, isOccupied]
  cases h.slots[i]? with
  | none => rfl
  | some s => exact Option.isSome_map

/-- The slots that are swept are those of the freed objects. -/
theorem map_index_freedIds (hsize : h.slots.size < 2 ^ 32) (roots : List Value) :
    (h.freedIds roots).map (·.index.toNat) = h.unreached roots := by
  rw [freedIds, ids, List.filter_filterMap, List.map_filterMap, unreached,
    ← List.filterMap_eq_filter]
  refine List.filterMap_congr fun i _ => ?_
  rw [Option.guard, ← isSome_idAt?]
  cases hid : h.idAt? i with
  | none => rfl
  | some id =>
    obtain ⟨hindex, hlive⟩ := index_of_idAt? hsize hid
    have hstays : (h.collect roots).2.contains id = (h.reached roots)[i]?.getD false := by
      rw [Bool.eq_iff_iff, contains_collect_iff, hindex]
      cases (h.reached roots)[i]? <;> simp [hlive]
    rw [Option.filter_some, hstays, Option.isSome_some, Bool.true_and]
    split <;> simp_all

theorem flatMap_edgesAt_unreached (hsize : h.slots.size < 2 ^ 32) (roots : List Value) :
    (h.unreached roots).flatMap h.edgesAt = (h.freedIds roots).flatMap h.edgesOf := by
  rw [← map_index_freedIds hsize, List.flatMap_map]
  refine List.flatMap_congr fun id hid => edgesAt_index ?_
  exact (mem_ids_iff hsize).1 (List.mem_filter.1 hid).1

/-- A survivor loses a count for each time that a freed object held its name, and nothing else. -/
theorem occupant?_collect_eq (hsize : h.slots.size < 2 ^ 32) (ho : h.occupant? id = some o)
    (hstays : (h.collect roots).2.contains id = true) :
    ∃ refs, (h.collect roots).2.occupant? id = some { o with refs } ∧
      refs.toNat = o.refs.toNat - ((h.freedIds roots).flatMap h.edgesOf).count (.obj id) := by
  have hnames : (Value.objects ((h.unreached roots).flatMap h.edgesAt)).count id =
      ((h.freedIds roots).flatMap h.edgesOf).count (.obj id) := by
    rw [flatMap_edgesAt_unreached hsize]
    have hcount := sameObjects_objects ((h.freedIds roots).flatMap h.edgesOf) id
    rw [Multiset.coe_count, Multiset.coe_count] at hcount
    rw [hcount, List.count_map_of_injective _ _ fun _ _ he => Value.obj.inj he]
  have hnot : id.index.toNat ∉ h.unreached roots := fun hmem =>
    ((h.mem_unreached roots).1 hmem).2 (contains_collect_iff.1 hstays).2
  have hleft : (h.collect roots).2.occupant? id = (h.occupant? id).map
      Occupant.release^[((h.freedIds roots).flatMap h.edgesOf).count (.obj id)] := by
    refine (occupant?_foldl_release _ _ id).trans ?_
    rw [occupant?_foldl_vacate, if_neg hnot, hnames]
  rw [hleft, ho, Option.map_some]
  exact ⟨_, congrArg some (o.iterate_release_eq _), o.toNat_refs_iterate_release _⟩

/-! ## The numbers of objects -/

theorem countP_eq_countP_range {α : Type} (p : α → Bool) (l : List α) :
    l.countP p = (List.range l.length).countP fun i => l[i]?.any p := by
  induction l with
  | nil => rfl
  | cons a l ih =>
    simp [List.range_succ_eq_map, List.countP_cons, List.countP_map, Function.comp_def, ih]

theorem occupied_eq_countP (h : Heap) :
    h.occupied = (List.range h.slots.size).countP h.isOccupied := by
  rw [occupied, ← Array.countP_toList, countP_eq_countP_range, Array.length_toList]
  congr 1
  funext i
  rw [Array.getElem?_toList, isOccupied]
  cases h.slots[i]? <;> rfl

theorem isOccupied_iff_exists (hsize : h.slots.size < 2 ^ 32) :
    h.isOccupied i = true ↔ ∃ id, id.index.toNat = i ∧ h.contains id = true := by
  rw [← isSome_idAt?]
  constructor
  · intro hsome
    obtain ⟨id, hid⟩ := Option.isSome_iff_exists.1 hsome
    exact ⟨id, index_of_idAt? hsize hid⟩
  · rintro ⟨id, rfl, hlive⟩
    obtain ⟨o, ho⟩ := contains_iff.1 hlive
    rw [isSome_idAt?, isOccupied_of_occupant? ho]

/-- The slots that are marked are those that hold an object in the end. -/
theorem isOccupied_collect (hsize : h.slots.size < 2 ^ 32) (roots : List Value) (i : Nat) :
    (h.collect roots).2.isOccupied i = (h.reached roots)[i]?.getD false := by
  have hmark : (h.reached roots)[i]?.getD false = true ↔ (h.reached roots)[i]? = some true := by
    cases (h.reached roots)[i]? <;> simp
  rw [Bool.eq_iff_iff, hmark, reached_iff, isOccupied_iff_exists (size_collect h roots ▸ hsize)]
  simp only [contains_collect_iff_reachable]

theorem marked_eq_countP (h : Heap) (roots : List Value) : (h.collect roots).1.marked =
    (List.range h.slots.size).countP fun i => (h.reached roots)[i]?.getD false := by
  change (h.reached roots).countP (fun b => b) = _
  rw [← Array.countP_toList, countP_eq_countP_range, Array.length_toList, size_reached]
  congr 1
  funext i
  rw [Array.getElem?_toList]
  cases (h.reached roots)[i]? <;> rfl

theorem marked_collect (hsize : h.slots.size < 2 ^ 32) (roots : List Value) :
    (h.collect roots).1.marked = (h.collect roots).2.occupied := by
  rw [marked_eq_countP, occupied_eq_countP, size_collect]
  congr 1
  funext i
  rw [isOccupied_collect hsize]

theorem marked_add_freed (h : Heap) (roots : List Value) :
    (h.collect roots).1.marked + (h.collect roots).1.freed = h.occupied := by
  have hfreed : (h.collect roots).1.freed = (h.unreached roots).length := rfl
  rw [hfreed, marked_eq_countP, occupied_eq_countP, unreached, ← List.countP_eq_length_filter,
    List.countP_eq_countP_filter_add _ h.isOccupied fun i => (h.reached roots)[i]?.getD false,
    List.countP_filter, List.countP_filter]
  congr 2
  funext i
  cases hmark : (h.reached roots)[i]?.getD false with
  | false => rw [Bool.and_false]
  | true =>
    -- What can be reached is in a slot.
    have hsome : (h.reached roots)[i]? = some true := by
      cases hget : (h.reached roots)[i]? <;> simp_all
    obtain ⟨id, rfl, hid⟩ := reached_iff.1 hsome
    obtain ⟨o, ho⟩ := contains_iff.1 hid.contains
    rw [isOccupied_of_occupant? ho, Bool.and_self]

theorem live_vacate (hlive : h.live = h.occupied) (i : Nat) :
    (h.vacate i).live = (h.vacate i).occupied := by
  by_cases hocc : h.isOccupied i
  · obtain ⟨s, o, hs, hso⟩ := isOccupied_iff.1 hocc
    obtain ⟨hlt, rfl⟩ := Array.getElem?_eq_some_iff.1 hs
    have hslots : (h.vacate i).occupied = (h.modifySlot i Slot.vacated).occupied := by
      rw [vacate, if_pos hocc]
      rfl
    have hlive' : (h.vacate i).live = h.live - 1 := by
      rw [vacate, if_pos hocc, modifySlot_eq]
    rw [hslots, hlive', hlive, occupied, occupied, modifySlot, hs]
    simp [Array.setIfInBounds, hlt, Array.countP_set, hso]
  · rwa [vacate, if_neg hocc]

theorem live_foldl_vacate (hlive : h.live = h.occupied) (dead : List Nat) :
    (dead.foldl vacate h).live = (dead.foldl vacate h).occupied := by
  induction dead generalizing h with
  | nil => exact hlive
  | cons i dead ih => exact ih (live_vacate hlive i)

theorem occupied_modifyOccupant (h : Heap) (id : ObjectId) (f : Occupant → Occupant) :
    (h.modifyOccupant id f).occupied = h.occupied := by
  refine occupied_congr fun j => ?_
  rw [modifyOccupant, getElem?_modifySlot]
  split
  · rw [Option.map_map]
    congr 1
    funext s
    rw [Function.comp_apply]
    split
    · exact Option.isSome_map
    · rfl
  · rfl

theorem live_foldl_release (hlive : h.live = h.occupied) (ids : List ObjectId) :
    (ids.foldl (fun h id => h.modifyOccupant id Occupant.release) h).live =
      (ids.foldl (fun h id => h.modifyOccupant id Occupant.release) h).occupied := by
  induction ids generalizing h with
  | nil => exact hlive
  | cons id ids ih =>
    have hsame : (h.modifyOccupant id Occupant.release).live = h.live := by
      rw [modifyOccupant, modifySlot_eq]
    exact ih (hsame.trans (hlive.trans (occupied_modifyOccupant h id _).symm))

theorem live_collect (hlive : h.live = h.occupied) (roots : List Value) :
    (h.collect roots).2.live = (h.collect roots).2.occupied :=
  live_foldl_release (live_foldl_vacate hlive _) _

/-! ## Collecting again -/

theorem undo_foldl_vacate (h : Heap) (dead : List Nat) :
    (dead.foldl vacate h).undo = h.undo := by
  induction dead generalizing h with
  | nil => rfl
  | cons i dead ih => rw [List.foldl_cons, ih, undo_vacate]

theorem undo_of_collect (h : Heap) (roots : List Value) : (h.collect roots).2.undo = h.undo :=
  (sameButCounts_foldl_release _ _).frame.1.trans (undo_foldl_vacate h _)

/-- What could be reached before a collection can be reached after it. -/
theorem Reachable.collect (hid : h.Reachable (h.IsRoot roots) id) :
    (h.collect roots).2.Reachable ((h.collect roots).2.IsRoot roots) id := by
  induction hid with
  | root hroot hlive =>
    have hstays := contains_collect_of_reachable (.root hroot hlive)
    refine .root ?_ hstays
    rcases hroot with hroot | hlog | hpersistent
    · exact .inl hroot
    · exact .inr (.inl (undo_of_collect h roots ▸ hlog))
    · -- A collection changes counts, but not whether an object is persistent.
      obtain ⟨o, ho⟩ := contains_iff.1 hstays
      obtain ⟨o', ho', -, heq⟩ := exists_occupant?_of_collect ho
      rw [isPersistent, ho', Option.any_some, heq] at hpersistent
      exact .inr (.inr (by rw [isPersistent, ho, Option.any_some, hpersistent]))
  | edge hid ho hedge hlive ih =>
    have hstays := contains_collect_of_reachable (.edge hid ho hedge hlive)
    obtain ⟨o, hleft⟩ := contains_iff.1 ih.contains
    obtain ⟨o', ho', hobject, -⟩ := exists_occupant?_of_collect hleft
    obtain rfl := Option.some.inj (ho.symm.trans ho')
    exact .edge ih hleft (hobject ▸ hedge) hstays

/-- A collection leaves nothing to collect. -/
theorem unreached_collect (hsize : h.slots.size < 2 ^ 32) (roots : List Value) :
    (h.collect roots).2.unreached roots = [] := by
  refine List.eq_nil_iff_forall_not_mem.2 fun i hi => ?_
  obtain ⟨hocc, hmark⟩ := (mem_unreached _ roots).1 hi
  obtain ⟨id, hindex, hstays⟩ :=
    (isOccupied_iff_exists (size_collect h roots ▸ hsize)).1 hocc
  exact hmark (reached_iff.2
    ⟨id, hindex, (contains_collect_iff_reachable.1 hstays).collect⟩)

theorem collect_collect (hsize : h.slots.size < 2 ^ 32) (roots : List Value) :
    ((h.collect roots).2.collect roots).1.freed = 0 ∧
      ((h.collect roots).2.collect roots).2 = (h.collect roots).2 := by
  rw [collect, unreached_collect hsize]
  exact ⟨rfl, rfl⟩

/-! ## A collection -/

/-- What a collection leaves of a table, and what it says that it has done. The marks are no
    part of the table, so there are none left in it. -/
structure Collected (h : Heap) (roots : List Value) (stats : CollectStats) (h' : Heap) :
    Prop where
  /-- The slots are in order. -/
  tidy : h'.Tidy
  /-- The objects are counted. -/
  live_eq : h'.live = h'.occupied
  /-- The objects are those that can be reached from the roots, the log or a persistent object. -/
  contains_iff : ∀ id, h'.contains id = true ↔ h.Reachable (h.IsRoot roots) id
  /-- An object is what it was, without the counts that freed objects owned of it. -/
  occupant : ∀ id o, h.occupant? id = some o → h'.contains id = true →
    ∃ refs, h'.occupant? id = some { o with refs } ∧ refs.toNat =
      o.refs.toNat - ((h.ids.filter (!h'.contains ·)).flatMap h.edgesOf).count (.obj id)
  /-- Nothing else is changed. -/
  frame : h'.undo = h.undo ∧ h'.settings = h.settings ∧ h'.slots.size = h.slots.size
  /-- The marked objects are those that are left. -/
  marked : stats.marked = h'.live ∧ stats.live = h'.live
  /-- The others have been freed. -/
  total : stats.marked + stats.freed = h.live

/-- Two objects that hold each other and a third one, which an image object holds. -/
def tangled : Heap :=
  let object (edges : List Value) : Object := ⟨0, .list edges⟩
  { Heap.new {} with
    slots := #[{}, ⟨0, some ⟨object [.obj ⟨2, 1⟩], 0, true⟩⟩, ⟨1, some ⟨object [], 3, false⟩⟩,
      ⟨1, some ⟨object [.obj ⟨4, 1⟩, .obj ⟨2, 1⟩], 1, false⟩⟩,
      ⟨1, some ⟨object [.obj ⟨3, 1⟩, .obj ⟨2, 1⟩], 1, false⟩⟩]
    live := 4 }

theorem tidy_tangled : tangled.Tidy := by
  refine ⟨by decide, by decide, rfl, List.not_mem_nil, .nil, by simp [tangled, new], ?_⟩
  have hslots : ∀ s ∈ tangled.slots, ∀ o ∈ s.occupant?,
      (o.persistent = true ↔ s.generation = 0) := by
    simp [tangled]
  intro id o ho
  obtain ⟨s, hs, hg, hso⟩ := occupant?_eq_some_iff.1 ho
  exact hg ▸ hslots s (Array.mem_of_getElem? hs) o hso

end Heap

end StoryMachine
