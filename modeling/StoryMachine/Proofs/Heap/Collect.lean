import StoryMachine.Proofs.Heap.Edit

/-!
# What a collection keeps

Marking covers everything that can be reached, since what it has marked is closed
under the values that objects hold. What is swept is therefore held by nobody that
stays, except by a caller that keeps names which are not among the roots.

* `Heap.Reachable`: the objects that can be reached;
* `mark_closed`: what marking ends with;
* `contains_collect_iff`: which objects stay;
* `contains_collect_of_reachable`: everything that can be reached stays;
* `Counted.collect`: a collection keeps the counts.
-/

namespace StoryMachine

theorem Value.mem_objects {vs : List Value} {id : ObjectId} :
    id ∈ Value.objects vs ↔ .obj id ∈ vs := by
  simp [Value.objects, List.mem_filterMap, Value.obj?_eq_some_iff]

namespace Heap

variable {stale : Bool} {h : Heap} {id id' : ObjectId} {o : Occupant} {held M : Multiset Value}

/-- The objects that can be reached from some names through the values that
    objects hold. -/
inductive Reachable (h : Heap) (roots : ObjectId → Prop) : ObjectId → Prop where
  /-- A name one starts from. -/
  | root {id : ObjectId} (hroot : roots id) (hlive : h.contains id = true) :
      Reachable h roots id
  /-- A name that an object holds. -/
  | edge {id id' : ObjectId} {o : Occupant} (hid : Reachable h roots id)
      (ho : h.occupant? id = some o) (hedge : .obj id' ∈ o.object.body.edges)
      (hlive : h.contains id' = true) : Reachable h roots id'

theorem Reachable.contains {roots : ObjectId → Prop} (hid : h.Reachable roots id) :
    h.contains id = true := by
  cases hid <;> assumption

/-! ## Marking -/

/-- Whatever a marked object holds is marked, or is still to be visited. -/
def MarksClosed (h : Heap) (marks : Array Bool) (work : List ObjectId) : Prop :=
  ∀ id o, h.occupant? id = some o → marks[id.index.toNat]? = some true →
    ∀ id', .obj id' ∈ o.object.body.edges → h.contains id' = true →
      marks[id'.index.toNat]? = some true ∨ id' ∈ work

/-- The marks in which marking ends. -/
structure MarksAll (h : Heap) (marks : Array Bool) (work : List ObjectId) (final : Array Bool) :
    Prop where
  /-- There is a mark for each slot. -/
  size_eq : final.size = marks.size
  /-- No mark is taken away. -/
  mono : ∀ i : Nat, marks[i]? = some true → final[i]? = some true
  /-- What a marked object holds is marked. -/
  closed : h.MarksClosed final []
  /-- What was to be visited is marked. -/
  visited : ∀ id ∈ work, h.contains id = true → final[id.index.toNat]? = some true

/-- Visiting an object: it is marked, and what it holds is to be visited. -/
theorem MarksClosed.visit {marks : Array Bool} {work : List ObjectId}
    (hclosed : h.MarksClosed marks (id :: work)) (ho : h.occupant? id = some o)
    (hlt : id.index.toNat < marks.size) :
    h.MarksClosed (marks.setIfInBounds id.index.toNat true)
      (Value.objects o.object.body.edges ++ work) := by
  intro id₁ o₁ ho₁ hm₁ id' hedge hlive
  rw [Array.getElem?_setIfInBounds] at hm₁ ⊢
  by_cases hself : id.index.toNat = id₁.index.toNat
  · -- The visited object itself: what it holds comes next.
    obtain rfl := eq_of_index_eq ho ho₁ (UInt32.toNat_inj.1 hself)
    obtain rfl := Option.some.inj (ho.symm.trans ho₁)
    exact .inr (List.mem_append_left _ (Value.mem_objects.2 hedge))
  · rw [if_neg hself] at hm₁
    rcases hclosed id₁ o₁ ho₁ hm₁ id' hedge hlive with hm | hmem
    · refine .inl ?_
      split
      · rfl
      · exact hm
    · rcases List.mem_cons.1 hmem with rfl | hmem
      · exact .inl (by rw [if_pos rfl, if_pos hlt])
      · exact .inr (List.mem_append_right _ hmem)

theorem mark_closed {marks : Array Bool} {work : List ObjectId}
    (hsize : marks.size = h.slots.size) (hclosed : h.MarksClosed marks work) :
    h.MarksAll marks work (h.mark marks work) := by
  induction marks, work using mark.induct h with
  | case1 marks =>
    rw [mark]
    exact ⟨rfl, fun _ hi => hi, hclosed, fun id hid => absurd hid List.not_mem_nil⟩
  | case2 marks id work o ho hm ih =>
    rw [mark]
    split
    · next o' ho' _ =>
      obtain rfl := Option.some.inj (ho.symm.trans ho')
      have hlt := (Array.getElem?_eq_some_iff.1 hm).1
      have hall := ih (by simpa using hsize) (hclosed.visit ho hlt)
      -- The object is marked when it is taken up, and marks are never taken back.
      have hself : (h.mark (marks.setIfInBounds id.index.toNat true)
          (Value.objects o.object.body.edges ++ work))[id.index.toNat]? = some true :=
        hall.mono _ (by rw [Array.getElem?_setIfInBounds, if_pos rfl, if_pos hlt])
      refine ⟨by simpa using hall.size_eq, fun i hi => hall.mono i ?_, hall.closed, ?_⟩
      · rw [Array.getElem?_setIfInBounds]
        split
        · rfl
        · exact hi
      · intro id' hid' hlive
        rcases List.mem_cons.1 hid' with rfl | hid'
        · exact hself
        · exact hall.visited id' (List.mem_append_right _ hid') hlive
    · next hno => exact absurd hm (hno o ho)
  | case3 marks id work hno ih =>
    rw [mark]
    split
    · next o ho hm => exact absurd hm (hno o ho)
    · -- The name means no object, or its slot is marked already.
      have hdone (hlive : h.contains id = true) : marks[id.index.toNat]? = some true := by
        obtain ⟨o, ho⟩ := contains_iff.1 hlive
        obtain ⟨s, hs, -, -⟩ := occupant?_eq_some_iff.1 ho
        have hlt : id.index.toNat < marks.size := hsize ▸ (Array.getElem?_eq_some_iff.1 hs).1
        have hne := hno o ho
        rw [Array.getElem?_eq_getElem hlt] at hne ⊢
        simpa using hne
      have hall := ih hsize fun id₁ o₁ ho₁ hm₁ id' hedge hlive => by
        rcases hclosed id₁ o₁ ho₁ hm₁ id' hedge hlive with hm | hmem
        · exact .inl hm
        · rcases List.mem_cons.1 hmem with rfl | hmem
          · exact .inl (hdone hlive)
          · exact .inr hmem
      refine ⟨hall.size_eq, hall.mono, hall.closed, fun id' hid' hlive => ?_⟩
      rcases List.mem_cons.1 hid' with rfl | hid'
      · exact hall.mono _ (hdone hlive)
      · exact hall.visited id' hid' hlive

/-! ## Sweeping -/

theorem occupant?_vacate_slot (h : Heap) (i : Nat) (id : ObjectId) :
    (h.vacate i).occupant? id = if id.index.toNat = i then none else h.occupant? id := by
  cases hocc : h.isOccupied i with
  | false =>
    rw [vacate, if_neg (by simp [hocc])]
    split
    · next hi =>
      cases ho : h.occupant? id with
      | none => rfl
      | some o => simp [← hi, isOccupied_of_occupant? ho] at hocc
    · rfl
  | true =>
    obtain ⟨s, o, hs, hso⟩ := isOccupied_iff.1 hocc
    unfold occupant?
    rw [getElem?_vacate hs hso]
    by_cases hi : id.index.toNat = i
    · simp [hi]
    · rw [if_neg (Ne.symm hi), if_neg hi]

/-- Objects in other slots stay as they are. -/
theorem occupant?_foldl_vacate (h : Heap) (dead : List Nat) (id : ObjectId) :
    (dead.foldl vacate h).occupant? id =
      if id.index.toNat ∈ dead then none else h.occupant? id := by
  induction dead generalizing h with
  | nil => simp
  | cons i dead ih =>
    rw [List.foldl_cons, ih, occupant?_vacate_slot]
    by_cases hdead : id.index.toNat ∈ dead
    · simp [hdead]
    · by_cases hi : id.index.toNat = i <;> simp [hdead, hi]

/-- What it means that the objects in some slots are gone. -/
structure Swept (stale : Bool) (h : Heap) (dead : List Nat) (h' : Heap) : Prop where
  /-- Objects are freed, and nothing else. -/
  shrinks : h.Shrinks h'
  /-- The slots are in order. -/
  tidy : h'.Tidy
  /-- What the objects held is no longer held. -/
  owned : h'.owned + (dead.flatMap h.edgesAt : List Value) = h.owned
  /-- Names that may be held still may, those of objects that are gone excepted. -/
  known : h'.Reliable stale → ∀ id, h.Known stale id →
    (stale = false → h.contains id = true → id.index.toNat ∉ dead) → h'.Known stale id
  /-- Nothing else that matters is changed. -/
  frame : h'.undo = h.undo ∧ h'.settings = h.settings

theorem edgesAt_congr {h' : Heap} {i : Nat} (hs : h'.slots[i]? = h.slots[i]?) :
    h'.edgesAt i = h.edgesAt i := by
  rw [edgesAt, edgesAt, hs]

theorem swept_vacate (ht : h.Tidy) {dead : List Nat} (hnodup : dead.Nodup)
    (hdead : ∀ i ∈ dead, ∃ s o, h.slots[i]? = some s ∧ s.occupant? = some o ∧
      o.persistent = false) :
    h.Swept stale dead (dead.foldl vacate h) := by
  induction dead generalizing h with
  | nil =>
    exact ⟨.refl h, ht, by simp, fun _ _ hk _ => hk, rfl, rfl⟩
  | cons i dead ih =>
    obtain ⟨hi, hrest⟩ := List.nodup_cons.1 hnodup
    obtain ⟨s, o, hs, hso, hp⟩ := hdead i List.mem_cons_self
    have hlt : i < 2 ^ 32 := (Array.getElem?_eq_some_iff.1 hs).1.trans ht.size_lt
    have hindex : (UInt32.ofNat i).toNat = i := UInt32.toNat_ofNat_of_lt hlt
    -- The name of the object in the slot.
    obtain ⟨id, rfl, ho⟩ : ∃ id : ObjectId, id.index.toNat = i ∧ h.occupant? id = some o :=
      ⟨⟨UInt32.ofNat i, s.generation⟩, hindex, occupant?_eq_some_iff.2 ⟨s, by rw [hindex, hs],
        rfl, hso⟩⟩
    have hother (j : Nat) (hj : j ∈ dead) : (h.vacate id.index.toNat).slots[j]? = h.slots[j]? := by
      have hne : id.index.toNat ≠ j := fun he => hi (he ▸ hj)
      rw [getElem?_vacate hs hso, if_neg hne]
    have hswept := ih (ht.vacate ho) hrest fun j hj => by
      rw [hother j hj]
      exact hdead j (List.mem_cons_of_mem _ hj)
    rw [List.foldl_cons]
    refine ⟨(Shrinks.vacate ho hp).trans hswept.shrinks, hswept.tidy, ?_,
      fun hr id' hk hne => ?_, by simpa using hswept.frame.1, by simpa using hswept.frame.2⟩
    · have hedges : dead.flatMap (h.vacate id.index.toNat).edgesAt = dead.flatMap h.edgesAt :=
        List.flatMap_congr fun j hj => edgesAt_congr (hother j hj)
      have hat : h.edgesAt id.index.toNat = o.object.body.edges := by
        rw [edgesAt, hs]
        exact Slot.edges_occupied hso
      have howned := hswept.owned
      rw [hedges] at howned
      rw [← owned_vacate ho, ← howned, List.flatMap_cons, hat, ← Multiset.coe_add]
      abel
    · refine hswept.known hr id' (hk.vacate ho (hswept.shrinks.reliable hr) fun hst he => ?_)
        fun hst hlive => ?_
      · exact hne hst (he ▸ contains_iff.2 ⟨o, ho⟩) (he ▸ List.mem_cons_self)
      · rw [contains, occupant?_vacate ho] at hlive
        split at hlive
        · cases hlive
        · exact fun hmem => hne hst hlive (List.mem_cons_of_mem _ hmem)

/-! ## Settling the counts -/

/-- The counts that freed objects owned are gone, without anything being freed by
    it. -/
theorem Exact.foldl_release {ids : List ObjectId}
    (he : h.Exact ((ids.map Value.obj : List Value) + M)) :
    (ids.foldl (fun h id => h.modifyOccupant id Occupant.release) h).Exact M := by
  induction ids generalizing h with
  | nil => simpa using he
  | cons id ids ih =>
    rw [List.map_cons, ← Multiset.cons_coe, Multiset.cons_add] at he
    exact ih he.release

/-- What stays the same when counts are changed. -/
structure SameButCounts (h h' : Heap) : Prop where
  /-- The slots are in order. -/
  tidy : h.Tidy → h'.Tidy
  /-- Objects stay as they are. -/
  occupant : ∀ id, (h'.occupant? id).map (fun o => (o.object, o.persistent)) =
    (h.occupant? id).map fun o => (o.object, o.persistent)
  /-- What is owned stays the same. -/
  owned : h'.owned = h.owned
  /-- Names stay as they are. -/
  known : ∀ stale id, h.Known stale id → h'.Known stale id
  /-- Nothing is changed or made. -/
  shrinks : h.Shrinks h'
  /-- Nothing else that matters is changed. -/
  frame : h'.undo = h.undo ∧ h'.settings = h.settings ∧ h'.saturated = h.saturated ∧
    h'.wrapped = h.wrapped

theorem sameButCounts_foldl_release (h : Heap) (ids : List ObjectId) :
    h.SameButCounts (ids.foldl (fun h id => h.modifyOccupant id Occupant.release) h) := by
  induction ids generalizing h with
  | nil => exact ⟨fun ht => ht, fun _ => rfl, rfl, fun _ _ hk => hk, .refl h, rfl, rfl, rfl, rfl⟩
  | cons id ids ih =>
    have hrest := ih (h.modifyOccupant id Occupant.release)
    rw [List.foldl_cons]
    refine ⟨fun ht => hrest.tidy (ht.modifyOccupant id Occupant.persistent_release),
      fun id' => ?_, ?_, fun stale id' hk => hrest.known stale id' (hk.modifyOccupant _ _),
      (Shrinks.modifyOccupant h id Occupant.persistent_release
        Occupant.object_release).trans hrest.shrinks, ?_⟩
    · rw [hrest.occupant, occupant?_modifyOccupant]
      split
      · rw [Option.map_map]
        rfl
      · rfl
    · rw [hrest.owned, owned_modifyOccupant h id Occupant.object_release]
    · obtain ⟨hu, hs, hsat, hw⟩ := hrest.frame
      exact ⟨hu.trans (by simp), hs.trans (by simp [modifyOccupant, modifySlot_eq]),
        hsat.trans (by simp), hw.trans (by simp)⟩

/-! ## A collection -/

section Collect

variable (h) (roots : List Value)

/-- The names that a collection starts from. -/
def IsRoot (id : ObjectId) : Prop :=
  .obj id ∈ roots ∨ .obj id ∈ h.undo.values ∨ h.isPersistent id = true

theorem mem_ids_of_contains {h : Heap} (hid : h.contains id = true) : id ∈ h.ids := by
  obtain ⟨o, ho⟩ := contains_iff.1 hid
  obtain ⟨s, hs, hg, hso⟩ := occupant?_eq_some_iff.1 ho
  refine List.mem_filterMap.2 ⟨id.index.toNat, ?_, ?_⟩
  · exact List.mem_range.2 (Array.getElem?_eq_some_iff.1 hs).1
  · simp [idAt?, hs, hso, hg]

theorem reached_marksAll : h.MarksAll (Array.replicate h.slots.size false)
    (Value.objects (roots ++ h.undo.values) ++ h.persistentIds) (h.reached roots) := by
  refine mark_closed (by simp) fun id o _ hm => ?_
  rw [Array.getElem?_replicate] at hm
  split at hm <;> simp at hm

/-- Every root is marked. -/
theorem reached_of_isRoot {h : Heap} {roots : List Value} (hroot : h.IsRoot roots id)
    (hlive : h.contains id = true) : (h.reached roots)[id.index.toNat]? = some true := by
  refine (h.reached_marksAll roots).visited id ?_ hlive
  rcases hroot with hmem | hmem | hp
  · exact List.mem_append_left _ (Value.mem_objects.2 (List.mem_append_left _ hmem))
  · exact List.mem_append_left _ (Value.mem_objects.2 (List.mem_append_right _ hmem))
  · exact List.mem_append_right _ (List.mem_filter.2 ⟨mem_ids_of_contains hlive, hp⟩)

theorem mem_unreached {i : Nat} : i ∈ h.unreached roots ↔
    h.isOccupied i = true ∧ (h.reached roots)[i]? ≠ some true := by
  rw [unreached, List.mem_filter, List.mem_range]
  have hmark : (!(h.reached roots)[i]?.getD false) = true ↔ (h.reached roots)[i]? ≠ some true := by
    cases (h.reached roots)[i]? with
    | none => simp
    | some b => cases b <;> simp
  rw [Bool.and_eq_true, hmark]
  refine ⟨fun hi => hi.2, fun hi => ⟨?_, hi⟩⟩
  obtain ⟨s, -, hs, -⟩ := isOccupied_iff.1 hi.1
  exact (Array.getElem?_eq_some_iff.1 hs).1

theorem nodup_unreached : (h.unreached roots).Nodup := List.nodup_range.filter _

/-- Everything that can be reached is marked. -/
theorem reached_of_reachable {h : Heap} {roots : List Value}
    (hid : h.Reachable (h.IsRoot roots) id) :
    (h.reached roots)[id.index.toNat]? = some true := by
  induction hid with
  | root hroot hlive => exact reached_of_isRoot hroot hlive
  | edge _ ho hedge hlive ih =>
    rcases (h.reached_marksAll roots).closed _ _ ho ih _ hedge hlive with hm | hmem
    · exact hm
    · exact absurd hmem List.not_mem_nil

end Collect

variable {roots : List Value}

theorem Tidy.swept_unreached (ht : h.Tidy) (roots : List Value) :
    h.Swept stale (h.unreached roots) ((h.unreached roots).foldl Heap.vacate h) := by
  refine swept_vacate ht (h.nodup_unreached roots) fun i hi => ?_
  obtain ⟨hocc, hmark⟩ := (h.mem_unreached roots).1 hi
  obtain ⟨s, o, hs, hso⟩ := isOccupied_iff.1 hocc
  refine ⟨s, o, hs, hso, Bool.eq_false_iff.2 fun hp => hmark ?_⟩
  -- A persistent object would have been marked.
  have hindex : (UInt32.ofNat i).toNat = i :=
    UInt32.toNat_ofNat_of_lt ((Array.getElem?_eq_some_iff.1 hs).1.trans ht.size_lt)
  have ho : h.occupant? ⟨UInt32.ofNat i, s.generation⟩ = some o :=
    occupant?_eq_some_iff.2 ⟨s, by rw [hindex, hs], rfl, hso⟩
  have hroot : h.IsRoot roots ⟨UInt32.ofNat i, s.generation⟩ :=
    .inr (.inr (by simp [isPersistent, ho, hp]))
  exact hindex ▸ reached_of_isRoot hroot (contains_iff.2 ⟨o, ho⟩)

theorem Tidy.shrinks_collect (ht : h.Tidy) (roots : List Value) :
    h.Shrinks (h.collect roots).2 := by
  have hswept : h.Swept false _ _ := ht.swept_unreached roots
  have hsame := ((h.unreached roots).foldl Heap.vacate h).sameButCounts_foldl_release
    (Value.objects ((h.unreached roots).flatMap h.edgesAt))
  exact (hswept.shrinks.trans hsame.shrinks).congr rfl rfl rfl

theorem Tidy.collect (ht : h.Tidy) (roots : List Value) : (h.collect roots).2.Tidy := by
  have hsame := ((h.unreached roots).foldl Heap.vacate h).sameButCounts_foldl_release
    (Value.objects ((h.unreached roots).flatMap h.edgesAt))
  have hswept : h.Swept false _ _ := ht.swept_unreached roots
  have := hsame.tidy hswept.tidy
  exact ⟨this.1, this.2, this.3, this.4, this.5, this.6, this.7⟩

/-- The objects that are reached stay, and stay as they are. -/
theorem occupant?_collect (h : Heap) (roots : List Value) (id : ObjectId) :
    ((h.collect roots).2.occupant? id).map (fun o => (o.object, o.persistent)) =
      if id.index.toNat ∈ h.unreached roots then none
      else (h.occupant? id).map fun o => (o.object, o.persistent) := by
  have hsame := ((h.unreached roots).foldl Heap.vacate h).sameButCounts_foldl_release
    (Value.objects ((h.unreached roots).flatMap h.edgesAt))
  refine (hsame.occupant id).trans ?_
  rw [occupant?_foldl_vacate]
  split <;> rfl

theorem contains_collect_iff : (h.collect roots).2.contains id = true ↔
    h.contains id = true ∧ (h.reached roots)[id.index.toNat]? = some true := by
  have hocc := h.occupant?_collect roots id
  have hcontains : (h.collect roots).2.contains id =
      (if id.index.toNat ∈ h.unreached roots then false else h.contains id) := by
    rw [contains, ← Option.isSome_map (f := fun o : Occupant => (o.object, o.persistent)), hocc]
    split
    · rfl
    · rw [Option.isSome_map, contains]
  rw [hcontains]
  constructor
  · intro hlive
    split at hlive
    · cases hlive
    · next hnot =>
      obtain ⟨o, ho⟩ := contains_iff.1 hlive
      refine ⟨hlive, not_not.1 fun hne => hnot ?_⟩
      exact (h.mem_unreached roots).2 ⟨isOccupied_of_occupant? ho, hne⟩
  · rintro ⟨hlive, hm⟩
    rwa [if_neg fun hmem => ((h.mem_unreached roots).1 hmem).2 hm]

/-- Everything that can be reached from the roots, the log or a persistent object
    stays. -/
theorem contains_collect_of_reachable (hid : h.Reachable (h.IsRoot roots) id) :
    (h.collect roots).2.contains id = true :=
  contains_collect_iff.2 ⟨hid.contains, reached_of_reachable hid⟩

theorem mem_edges_iff (hsize : h.slots.size < 2 ^ 32) {v : Value} :
    v ∈ h.edges ↔ ∃ id o, h.occupant? id = some o ∧ v ∈ o.object.body.edges := by
  constructor
  · intro hv
    obtain ⟨s, hs, hv⟩ := List.mem_flatMap.1 hv
    obtain ⟨i, hi, rfl⟩ := List.getElem_of_mem hs
    rw [Array.length_toList] at hi
    cases hso : h.slots[i].occupant? with
    | none =>
      rw [Array.getElem_toList, Slot.edges_empty hso] at hv
      cases hv
    | some o =>
      rw [Array.getElem_toList, Slot.edges_occupied hso] at hv
      have hindex : (UInt32.ofNat i).toNat = i := UInt32.toNat_ofNat_of_lt (hi.trans hsize)
      refine ⟨⟨UInt32.ofNat i, h.slots[i].generation⟩, o, ?_, hv⟩
      exact occupant?_eq_some_iff.2 ⟨h.slots[i], by simp [hindex, hi], rfl, hso⟩
  · rintro ⟨id, o, ho, hv⟩
    obtain ⟨s, hs, -, hso⟩ := occupant?_eq_some_iff.1 ho
    refine List.mem_flatMap.2 ⟨s, Array.mem_toList_iff.2 (Array.mem_of_getElem? hs), ?_⟩
    rwa [Slot.edges_occupied hso]

/-- What is held after a collection names objects that stay. -/
theorem Tidy.not_mem_unreached_of_held (ht : h.Tidy) (hlive : h.contains id = true)
    (hheld : .obj id ∈ (h.collect roots).2.edges ∨ .obj id ∈ h.undo.values ∨ .obj id ∈ roots) :
    id.index.toNat ∉ h.unreached roots := by
  intro hmem
  refine ((h.mem_unreached roots).1 hmem).2 ?_
  rcases hheld with hedge | hundo | hroot
  · -- The object that holds the name stays, so it is marked.
    obtain ⟨owner, o, ho, hedge⟩ := (mem_edges_iff (ht.collect roots).size_lt).1 hedge
    have hstays := contains_iff.2 ⟨o, ho⟩
    obtain ⟨o', ho', hobj⟩ := get?_eq_some_iff.1
      (((ht.shrinks_collect roots).objects owner hstays).symm.trans (get?_eq_some_iff.2 ⟨o, ho, rfl⟩))
    rw [← hobj] at hedge
    have hmarked := (contains_collect_iff.1 hstays).2
    rcases (h.reached_marksAll roots).closed _ _ ho' hmarked _ hedge hlive with hm | hmem
    · exact hm
    · exact absurd hmem List.not_mem_nil
  · exact reached_of_isRoot (.inr (.inl hundo)) hlive
  · exact reached_of_isRoot (.inl hroot) hlive

/-- A collection keeps the counts. A name that the caller holds has to be one of
    the roots, unless it may outlive its object. -/
theorem Counted.collect (hc : h.Counted stale held)
    (hroots : stale = false → ∀ id, .obj id ∈ held → id.generation = 0 ∨ .obj id ∈ roots) :
    (h.collect roots).2.Counted stale held := by
  have hsame := ((h.unreached roots).foldl Heap.vacate h).sameButCounts_foldl_release
    (Value.objects ((h.unreached roots).flatMap h.edgesAt))
  have hswept : h.Swept stale _ _ := hc.tidy.swept_unreached roots
  have howned : (h.collect roots).2.owned = ((h.unreached roots).foldl Heap.vacate h).owned :=
    hsame.owned
  have hundo : (h.collect roots).2.undo = h.undo := hsame.frame.1.trans hswept.frame.1
  refine ⟨hc.tidy.collect roots, hundo ▸ hc.ordered, fun hr => ?_⟩
  have hr' : ((h.unreached roots).foldl Heap.vacate h).Reliable stale :=
    hr.of_flags (fun hf => hsame.frame.2.2.1 ▸ hf) (fun hf => hsame.frame.2.2.2 ▸ hf)
  have hb := hc.balanced (hswept.shrinks.reliable hr')
  -- What the edges of the vacated objects owned is what the sweep releases.
  have hsum : ((h.unreached roots).flatMap h.edgesAt : List Value) +
      ((h.collect roots).2.owned + held) = h.owned + held := by
    rw [howned, ← hswept.owned]
    abel
  refine ⟨?_, fun id hid => ?_⟩
  · have hexact : ((h.unreached roots).foldl Heap.vacate h).Exact (h.owned + held) := by
      intro id o ho hp
      rw [occupant?_foldl_vacate] at ho
      split at ho
      · cases ho
      · exact hb.exact id o ho hp
    rw [← hsum] at hexact
    exact Exact.foldl_release fun id o ho hp =>
      (hexact id o ho hp).trans ((sameObjects_objects _).add_right _ id)
  · have hk : h.Known stale id :=
      hb.known id (hsum ▸ Multiset.mem_add.2 (.inr hid))
    refine hsame.known stale id (hswept.known hr' id hk fun hst hlive => ?_)
    rw [owned, hundo, Multiset.mem_add, Multiset.mem_add, Multiset.mem_coe, Multiset.mem_coe] at hid
    rcases hid with (hedge | hlog) | hheld
    · exact hc.tidy.not_mem_unreached_of_held hlive (.inl hedge)
    · exact hc.tidy.not_mem_unreached_of_held hlive (.inr (.inl hlog))
    · rcases hroots hst id hheld with h0 | hroot
      · -- An image object is persistent.
        obtain ⟨o, ho⟩ := contains_iff.1 hlive
        have hp : h.isPersistent id = true := by
          simp [isPersistent, ho, (hc.tidy.persistent_iff id o ho).2 h0]
        exact fun hmem => ((h.mem_unreached roots).1 hmem).2
          (reached_of_isRoot (.inr (.inr hp)) hlive)
      · exact hc.tidy.not_mem_unreached_of_held hlive (.inr (.inr hroot))

end Heap

end StoryMachine
