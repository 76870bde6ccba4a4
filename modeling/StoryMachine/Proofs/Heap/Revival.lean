import StoryMachine.Proofs.Heap.Occupancy

/-!
# Names after a restore

A table that is cleared leaves every slot in a later generation than any name of it. An
object that is put back sets its slot to the generation that it had, which may be long
past. From there the slot goes through the same generations once more, and the names of
objects that have been freed in the meantime come back one by one.

* `SetBack`: a slot that has not got past a name;
* `generation_through`: a slot is in the generation that its freed objects make it;
* `Ready.leads_of_empty`, `Ready.leads_of_occupant`: every later generation can be got to;
* `getElem?_restoredWith`: what is in a slot after objects have been put back;
* `spent_clear_of_issued`: what a table that is filled once leaves behind;
* `revived_iff`: which names come back after a restore.
-/

namespace StoryMachine.Heap

variable {settings : HeapSettings} {h h' : Heap} {n : UInt32} {i : Nat} {id : ObjectId} {s : Slot}
  {o : Occupant} {op : Operation} {ops : List Operation}

/-! ## The generation of a slot -/

/-- The generations of slot `i` do not start again. -/
def Lasts (h : Heap) (i : Nat) (ops : List Operation) : Prop :=
  ∀ s, h.slots[i]? = some s → s.generation.toNat + h.timesFreed i ops < 2 ^ 32

theorem timesFreed_append (h : Heap) (i : Nat) (ops ops' : List Operation) :
    h.timesFreed i (ops ++ ops') = h.timesFreed i ops + (h.through ops).timesFreed i ops' := by
  induction ops generalizing h with
  | nil => exact (Nat.zero_add _).symm
  | cons op ops ih =>
    rw [List.cons_append, timesFreed, timesFreed, ih, Nat.add_assoc]
    rfl

theorem toNat_generation_vacated (hlt : s.generation.toNat + 1 < 2 ^ 32) :
    s.vacated.generation.toNat = s.generation.toNat + 1 := by
  have hlast : s.isLast = false := Bool.eq_false_iff.2 fun hlast => by
    rw [toNat_generation_of_isLast hlast] at hlt
    exact absurd hlt (by decide)
  exact le_antisymm (toNat_generation_vacated_le s) (Slot.generation_lt_vacated hlast)

/-- What an operation does to a slot. -/
inductive Passes (h : Heap) (op : Operation) (i : Nat) (s : Slot) : Slot → Prop
  /-- The generation stays. -/
  | stays {s' : Slot} (hg : s'.generation = s.generation) (hfrees : ¬h.Frees (h.performed op) i) :
      Passes h op i s s'
  /-- The object in it is freed. -/
  | freed (hfrees : h.Frees (h.performed op) i) : Passes h op i s s.vacated

/-- A new object takes no object out of a slot, and leaves the generations alone. -/
theorem Bounded.getElem?_alloc {object : Object} (hb : h.Bounded settings)
    (hok : Heap.alloc object h = .ok id h') (hs : h.slots[i]? = some s) :
    ∃ s', h'.slots[i]? = some s' ∧ s'.generation = s.generation ∧
      (s.occupant?.isSome → s'.occupant?.isSome) := by
  have hoccupy {g : Heap} (j : Nat) (hg : g.slots[i]? = some s) :
      ∃ s', (g.occupy j object).slots[i]? = some s' ∧ s'.generation = s.generation ∧
        (s.occupant?.isSome → s'.occupant?.isSome) := by
    rw [getElem?_occupy, hg]
    split
    · exact ⟨_, rfl, rfl, fun _ => rfl⟩
    · exact ⟨s, rfl, rfl, fun hsome => hsome⟩
  have hm := hb.makes object
  rw [hok] at hm
  cases hm with
  | first _ _ => exact hoccupy _ hs
  | more _ _ =>
    have hlt := (Array.getElem?_eq_some_iff.1 hs).1
    exact hoccupy _ ((getElem?_push h _ hlt.ne).trans hs)

theorem Ready.passes (hr : h.Ready settings) (op : Operation) (hs : h.slots[i]? = some s) :
    ∃ s', (h.performed op).slots[i]? = some s' ∧ h.Passes op i s s' := by
  have hocc := isOccupied_of_getElem? hs
  by_cases hop : ∃ object, op = .alloc object
  · obtain ⟨object, rfl⟩ := hop
    obtain ⟨s', hs', hg, hsome⟩ : ∃ s', (h.performed (.alloc object)).slots[i]? = some s' ∧
        s'.generation = s.generation ∧ (s.occupant?.isSome → s'.occupant?.isSome) := by
      rcases hr.performed_alloc object with hsame | ⟨id, hok⟩
      · rw [hsame]
        exact ⟨s, hs, rfl, fun hsome => hsome⟩
      · exact hr.getElem?_alloc hok hs
    refine ⟨s', hs', .stays hg fun hfrees => ?_⟩
    obtain ⟨hbefore, hafter⟩ := hfrees
    rw [isOccupied_of_getElem? hs', hsome (hocc ▸ hbefore)] at hafter
    cases hafter
  · have hne (object : Object) : op ≠ .alloc object := fun he => hop ⟨object, he⟩
    have ha := (h.performed_touches hne).ages
    obtain ⟨s', hs'⟩ := exists_slot_of_size ha.size.symm hs
    refine ⟨s', hs', ?_⟩
    have hocc' := isOccupied_of_getElem? hs'
    cases ha.slots i s s' hs hs' with
    | stays hg hsome _ =>
      refine .stays hg fun hfrees => ?_
      obtain ⟨hbefore, hafter⟩ := hfrees
      rw [hocc', hsome, ← hocc, hbefore] at hafter
      cases hafter
    | freed hsome => exact .freed ⟨hocc ▸ hsome, hocc'⟩

theorem Ready.through (hr : h.Ready settings) (ops : List Operation) :
    (h.through ops).Ready settings :=
  List.foldlRecOn ops _ hr fun _ hr op _ => hr.performed op

/-- Each object that is freed in a slot moves it on by one generation. The induction is on
    the operations. -/
theorem generation_through (hr : h.Ready settings) (hlasts : h.Lasts i ops)
    (hs : h.slots[i]? = some s) : ∃ s', (h.through ops).slots[i]? = some s' ∧
      s'.generation.toNat = s.generation.toNat + h.timesFreed i ops := by
  induction ops generalizing h s with
  | nil => exact ⟨s, hs, rfl⟩
  | cons op ops ih =>
    have hlt := hlasts s hs
    rw [timesFreed] at hlt ⊢
    obtain ⟨s₁, hs₁, hpasses⟩ := hr.passes op hs
    have hgeneration : s₁.generation.toNat =
        s.generation.toNat + if h.Frees (h.performed op) i then 1 else 0 := by
      cases hpasses with
      | stays hg hfrees => rw [if_neg hfrees, hg, Nat.add_zero]
      | freed hfrees =>
        rw [if_pos hfrees] at hlt ⊢
        exact toNat_generation_vacated (by omega)
    have hlasts' : (h.performed op).Lasts i ops := fun t ht => by
      obtain rfl := Option.some.inj (hs₁.symm.trans ht)
      rw [hgeneration]
      omega
    obtain ⟨s', hs', hg'⟩ := ih (hr.performed op) hlasts' hs₁
    exact ⟨s', hs', by rw [hg', hgeneration, Nat.add_assoc]⟩

/-! ## Names that stay away -/

/-- A persistent object stays for good. -/
theorem Ready.isPersistent_performed (hr : h.Ready settings) (op : Operation)
    (hp : h.isPersistent id = true) : (h.performed op).isPersistent id = true := by
  by_cases hop : ∃ object, op = .alloc object
  · obtain ⟨object, rfl⟩ := hop
    rcases hr.performed_alloc object with hsame | ⟨id', hok⟩
    · rwa [hsame]
    · obtain ⟨hempty, hothers⟩ := hr.occupant?_alloc hok
      obtain ⟨o, ho⟩ := Option.isSome_iff_exists.1 (Option.isSome_of_any hp)
      have hne : id ≠ id' := fun he => by
        rw [← he, isOccupied_of_occupant? ho] at hempty
        cases hempty
      rwa [isPersistent, hothers, if_neg hne]
  · exact (h.performed_touches fun object he => hop ⟨object, he⟩).isPersistent hp

theorem Ready.isPersistent_through (hr : h.Ready settings) (ops : List Operation)
    (hp : h.isPersistent id = true) : (h.through ops).isPersistent id = true := by
  induction ops generalizing h with
  | nil => exact hp
  | cons op ops ih => exact ih (hr.performed op) (hr.isPersistent_performed op hp)

/-- The slot of a name has not got past it, and what is in it can be freed. -/
def SetBack (h : Heap) (id : ObjectId) : Prop :=
  ∃ s, h.slots[id.index.toNat]? = some s ∧ s.generation.toNat ≤ id.generation.toNat ∧
    s.occupant?.any Occupant.persistent = false

theorem occupant?_of_getElem? (id : ObjectId) (hs : h.slots[id.index.toNat]? = some s)
    (hg : s.generation = id.generation) : h.occupant? id = s.occupant? := by
  rw [occupant?, hs]
  exact if_pos hg

theorem Ready.setBack_of_contains (hr : h.Ready settings) (hs : h.slots[id.index.toNat]? = some s)
    (hgone : h.contains id = false) (hlasts : h.Lasts id.index.toNat ops)
    (hlive : (h.through ops).contains id = true) : h.SetBack id := by
  obtain ⟨s', hs', hg⟩ := generation_through hr hlasts hs
  obtain ⟨o, ho⟩ := contains_iff.1 hlive
  rw [generation_eq_of_occupant? hs' ho] at hg
  refine ⟨s, hs, hg ▸ Nat.le_add_right _ _, Bool.eq_false_iff.2 fun hp => ?_⟩
  -- A persistent object in the slot would still be there, under its own name.
  have hp' : h.isPersistent ⟨id.index, s.generation⟩ = true := by
    rwa [isPersistent, occupant?_of_getElem? ⟨id.index, s.generation⟩ hs rfl]
  obtain ⟨o', ho'⟩ := Option.isSome_iff_exists.1 (Option.isSome_of_any hp')
  obtain ⟨o'', ho''⟩ :=
    Option.isSome_iff_exists.1 (Option.isSome_of_any (hr.isPersistent_through ops hp'))
  rw [← eq_of_index_eq ho'' ho rfl, contains_iff.2 ⟨o', ho'⟩] at hgone
  cases hgone

/-- A name that has been given to a new object means it. -/
theorem Ready.exists_of_mem_issued (hr : h.Ready settings) (hid : id ∈ h.issued ops) :
    ∃ before later, ops = before ++ later ∧ (h.through before).contains id = true := by
  induction ops generalizing h with
  | nil => exact absurd hid List.not_mem_nil
  | cons op ops ih =>
    rw [issued, List.mem_append, Option.mem_toList] at hid
    rcases hid with hid | hid
    · refine ⟨[op], ops, rfl, ?_⟩
      change (h.performed op).contains id = true
      cases op with
      | alloc object =>
        rw [issues?] at hid
        split at hid
        · next id' h' hok =>
          obtain rfl := Option.some.inj hid
          rw [performed_of_ok rfl hok]
          exact contains_iff.2 ⟨_, (hr.occupant?_alloc hok).2 _ |>.trans (if_pos rfl)⟩
        · cases hid
      | _ => cases hid
    · obtain ⟨before, later, rfl, hlive⟩ := ih (hr.performed op) hid
      exact ⟨op :: before, later, rfl, hlive⟩

/-! ## Names that come back -/

/-- There are operations that free an object in the slot of a name `k` times, and after which
    the name means an object that can be freed. -/
def Leads (h : Heap) (id : ObjectId) (k : Nat) : Prop :=
  ∃ ops, h.timesFreed id.index.toNat ops = k ∧
    ∃ o, (h.through ops).occupant? id = some o ∧ o.persistent = false

theorem Leads.of_through {k : Nat} (ops : List Operation) (hl : (h.through ops).Leads id k) :
    h.Leads id (h.timesFreed id.index.toNat ops + k) := by
  obtain ⟨ops', hfreed, hlive⟩ := hl
  exact ⟨ops ++ ops', by rw [timesFreed_append, hfreed], by rwa [through_append]⟩

theorem timesFreed_singleton (h : Heap) (i : Nat) (op : Operation) :
    h.timesFreed i [op] = if h.Frees (h.performed op) i then 1 else 0 :=
  Nat.add_zero _

/-- New objects take the free slots one after the other, so each gets its turn. The induction
    is on the slots that are free before it. -/
theorem Ready.leads_of_empty (hr : h.Ready settings) (hs : h.slots[id.index.toNat]? = some s)
    (hg : s.generation = id.generation) (hmem : id.index ∈ h.free) : h.Leads id 0 := by
  induction hfree : h.free generalizing h with
  | nil => exact absurd hmem (hfree ▸ List.not_mem_nil)
  | cons n rest ih =>
    have hempty := ((hr.mem_free _).1 hmem).2.2
    have hok := alloc_of_cons hfree ⟨0, .list []⟩
    have hperformed : h.performed (.alloc ⟨0, .list []⟩) = _ := performed_of_ok rfl hok
    have hfrees : h.timesFreed id.index.toNat [.alloc ⟨0, .list []⟩] = 0 := by
      rw [timesFreed_singleton, if_neg]
      exact fun hfrees => absurd hfrees.1 (by simp [hempty])
    by_cases hn : n = id.index
    · -- It is its turn.
      have hid : id = ⟨n, (h.slots[n.toNat]?.map Slot.generation).getD 0⟩ := by
        rw [hn, hs, Option.map_some, Option.getD_some, hg]
      refine ⟨[.alloc ⟨0, .list []⟩], hfrees, ⟨⟨0, .list []⟩, 1, false⟩, ?_, rfl⟩
      change (h.performed _).occupant? id = _
      rw [hperformed, (hr.occupant?_alloc hok).2, if_pos hid]
    · have hne : n.toNat ≠ id.index.toNat := fun he => hn (UInt32.toNat_inj.1 he)
      have hrest : id.index ∈ rest :=
        (List.mem_cons.1 (hfree ▸ hmem)).resolve_left fun he => hn he.symm
      have hleads := ih (hr.alloc hok) (by rwa [getElem?_occupy, if_neg hne])
        (by rwa [Heap.occupy, modifySlot_eq]) (by rw [Heap.occupy, modifySlot_eq])
      rw [← hperformed] at hleads
      have hall := Leads.of_through [.alloc ⟨0, .list []⟩] hleads
      rwa [hfrees] at hall

/-- Nothing but a new object is put into an empty slot. -/
theorem Touches.getElem?_of_empty (ht : h.Touches h') (hs : h.slots[i]? = some s)
    (hempty : s.occupant? = none) : h'.slots[i]? = some s := by
  obtain ⟨s', hs'⟩ := exists_slot_of_size ht.ages.size.symm hs
  rw [hs', Option.some.injEq]
  cases ht.ages.slots i s s' hs hs' with
  | stays hg hsome _ =>
    rw [hempty, Option.isSome_none, Option.isSome_eq_false_iff, Option.isNone_iff_eq_none] at hsome
    cases s
    cases s'
    simp_all
  | freed hsome =>
    rw [hempty] at hsome
    cases hsome

theorem Ready.mem_free_of_empty (hr : h.Ready settings) (hs : h.slots[n.toNat]? = some s)
    (hempty : s.occupant? = none) (hn : n ≠ 0) : n ∈ h.free := by
  refine (hr.mem_free n).2 ⟨hn, (Array.getElem?_eq_some_iff.1 hs).1, ?_⟩
  rw [isOccupied_of_getElem? hs, hempty, Option.isSome_none]

/-- The last count of an object is released, and its slot is used again. -/
theorem Ready.leads_of_last (id' : ObjectId) (hr : h.Ready settings)
    (ho : h.occupant? id = some o) (hp : o.persistent = false) (hlast : o.refs ≤ 1)
    (hindex : id'.index = id.index) (hnext : id'.generation.toNat = id.generation.toNat + 1) :
    h.Leads id' 1 := by
  obtain ⟨s, hs, hg, hso⟩ := occupant?_eq_some_iff.1 ho
  have hocc := isOccupied_of_occupant? ho
  have hperformed : h.performed (.release id) = (h.vacate id.index.toNat).releaseAll
      ((Value.objects o.object.body.edges).reverse ++ []) := by
    change h.releaseAll [id] = _
    rw [releaseAll, ho]
    exact if_pos ⟨hlast, hp⟩
  -- What the object held is released too, but that leaves its slot empty.
  have hs' : (h.performed (.release id)).slots[id.index.toNat]? = some s.vacated := by
    rw [hperformed]
    refine (Touches.releaseAll _ _).getElem?_of_empty ?_ rfl
    rw [getElem?_vacate hs hso, if_pos rfl]
  have hfrees : h.Frees (h.performed (.release id)) id'.index.toNat := by
    rw [hindex]
    refine ⟨hocc, ?_⟩
    rw [isOccupied_of_getElem? hs']
    rfl
  have hgeneration : s.vacated.generation = id'.generation := by
    have hlt := id'.generation.toNat_lt
    rw [hnext, ← hg] at hlt
    rw [← UInt32.toNat_inj, toNat_generation_vacated hlt, hg, hnext]
  have hzero : id'.index ≠ 0 := fun h0 => by
    rw [← hindex, h0, UInt32.toNat_zero, hr.reserved] at hocc
    cases hocc
  rw [← hindex] at hs'
  have hr' := hr.performed (.release id)
  have hleads := hr'.leads_of_empty hs' hgeneration (hr'.mem_free_of_empty hs' rfl hzero)
  have hall := Leads.of_through [.release id] hleads
  rwa [timesFreed_singleton, if_pos hfrees] at hall

/-- An object that is released often enough is freed. The induction is on its counts. -/
theorem Ready.leads_of_release (id' : ObjectId) (hr : h.Ready settings)
    (ho : h.occupant? id = some o) (hp : o.persistent = false) (hindex : id'.index = id.index)
    (hnext : id'.generation.toNat = id.generation.toNat + 1) : h.Leads id' 1 := by
  induction hrefs : o.refs.toNat generalizing h o with
  | zero =>
    exact hr.leads_of_last id' ho hp (UInt32.le_iff_toNat_le.2 (hrefs ▸ Nat.zero_le _)) hindex hnext
  | succ r ih =>
    by_cases hlast : o.refs ≤ 1
    · exact hr.leads_of_last id' ho hp hlast hindex hnext
    · have hperformed : h.performed (.release id) = h.modifyOccupant id Occupant.release := by
        change h.releaseAll [id] = _
        rw [releaseAll, ho]
        simp only [hlast, false_and, if_false]
        rw [releaseAll]
      have ho' : (h.performed (.release id)).occupant? id = some o.release := by
        rw [hperformed, occupant?_modifyOccupant, if_pos rfl, ho, Option.map_some]
      have hstays : ¬h.Frees (h.performed (.release id)) id'.index.toNat := fun hfrees => by
        have hafter := hfrees.2
        rw [hindex, isOccupied_of_occupant? ho'] at hafter
        cases hafter
      have hleads := ih (hr.performed (.release id)) ho' hp (by
        rw [Occupant.toNat_refs_release, hrefs]
        rfl)
      have hall := Leads.of_through [.release id] hleads
      rwa [timesFreed_singleton, if_neg hstays, Nat.zero_add] at hall

/-- The slot of an object is used again under any later name. The induction is on how much
    later. -/
theorem Ready.leads_of_occupant (id' : ObjectId) {k : Nat} (hr : h.Ready settings)
    (ho : h.occupant? id = some o) (hp : o.persistent = false) (hindex : id'.index = id.index)
    (hlater : id'.generation.toNat = id.generation.toNat + k) : h.Leads id' k := by
  induction k generalizing id' with
  | zero =>
    have hid : id' = id := by
      cases id
      cases id'
      simp_all [UInt32.toNat_inj]
    exact ⟨[], rfl, o, hid ▸ ho, hp⟩
  | succ k ih =>
    have hlt := id'.generation.toNat_lt
    have hk : (id'.generation - 1).toNat = id.generation.toNat + k := by
      rw [UInt32.toNat_sub_of_le, hlater]
      · rfl
      · rw [UInt32.le_iff_toNat_le, hlater]
        exact Nat.le_add_left _ _
    obtain ⟨ops, hfreed, o', ho', hp'⟩ := ih ⟨id'.index, id'.generation - 1⟩ hindex hk
    have hleads := (hr.through ops).leads_of_release id' ho' hp' rfl (by
      rw [hlater, hk, Nat.add_assoc])
    rw [← hfreed]
    exact hleads.of_through ops

theorem Ready.leads_of_setBack (hr : h.Ready settings) (hzero : id.index ≠ 0)
    (hs : h.slots[id.index.toNat]? = some s) (hle : s.generation.toNat ≤ id.generation.toNat)
    (hp : s.occupant?.any Occupant.persistent = false) :
    h.Leads id (id.generation.toNat - s.generation.toNat) := by
  have hlater : id.generation.toNat =
      s.generation.toNat + (id.generation.toNat - s.generation.toNat) := by omega
  cases hso : s.occupant? with
  | some o =>
    have ho := (occupant?_of_getElem? ⟨id.index, s.generation⟩ hs rfl).trans hso
    exact hr.leads_of_occupant id ho (by simpa [hso] using hp) rfl hlater
  | none =>
    have hleads : h.Leads ⟨id.index, s.generation⟩ 0 :=
      hr.leads_of_empty hs rfl (hr.mem_free_of_empty hs hso hzero)
    obtain ⟨ops, hfreed, o, ho, hp⟩ := hleads
    have hall := ((hr.through ops).leads_of_occupant id ho hp rfl hlater).of_through ops
    rwa [hfreed, Nat.zero_add] at hall

/-- A name comes to mean an object again exactly if its slot has not got past it. -/
theorem Ready.exists_through_iff (hr : h.Ready settings) (hzero : id.index ≠ 0)
    (hlt : id.index.toNat < h.slots.size) (hgone : h.contains id = false) :
    (∃ ops, h.Lasts id.index.toNat ops ∧
      ((h.through ops).contains id = true ∨ id ∈ h.issued ops)) ↔ h.SetBack id := by
  have hs := Array.getElem?_eq_getElem hlt
  constructor
  · rintro ⟨ops, hlasts, hlive | hissued⟩
    · exact hr.setBack_of_contains hs hgone hlasts hlive
    · obtain ⟨before, later, rfl, hlive⟩ := hr.exists_of_mem_issued hissued
      refine hr.setBack_of_contains hs hgone (fun t ht => ?_) hlive
      have hall := hlasts t ht
      rw [timesFreed_append] at hall
      omega
  · rintro ⟨s, hs, hle, hp⟩
    obtain ⟨ops, hfreed, o, ho, -⟩ := hr.leads_of_setBack hzero hs hle hp
    refine ⟨ops, fun t ht => ?_, .inl (contains_iff.2 ⟨o, ho⟩)⟩
    obtain rfl := Option.some.inj (hs.symm.trans ht)
    have := id.generation.toNat_lt
    omega

/-! ## Slots after a restore -/

/-- The table cleared, with other objects put into it and its empty slots opened. -/
def restoredWith (h : Heap) (saved : List (ObjectId × Object × Bool)) : Heap :=
  (saved.foldl withInserted h.clear).openHoles

theorem Puts.getElem?_of_ne (hp : h.Puts id o h') (hne : id.index.toNat ≠ i)
    (hs : h.slots[i]? = some s) : h'.slots[i]? = some s := by
  cases hp with
  | refused => exact hs
  | placed _ _ _ =>
    change (h.place _ _).slots[i]? = some s
    rw [getElem?_place, if_neg hne, getElem?_grow, if_pos (Array.getElem?_eq_some_iff.1 hs).1, hs]

theorem Puts.getElem?_of_occupied (hp : h.Puts id o h') (hocc : h.isOccupied i = true)
    (hs : h.slots[i]? = some s) : h'.slots[i]? = some s := by
  by_cases hne : id.index.toNat = i
  · cases hp with
    | refused => exact hs
    | placed _ _ hempty =>
      rw [hne, hocc] at hempty
      cases hempty
  · exact hp.getElem?_of_ne hne hs

theorem getElem?_foldl_of_occupied {saved : List (ObjectId × Object × Bool)}
    (hs : h.slots[i]? = some s) (hso : s.occupant?.isSome = true) :
    (saved.foldl withInserted h).slots[i]? = some s := by
  induction saved generalizing h with
  | nil => exact hs
  | cons d saved ih =>
    exact ih ((withInserted_puts h d.1 d.2.1 d.2.2).getElem?_of_occupied
      ((isOccupied_of_getElem? hs).trans hso) hs)

/-- Of the objects that are put back, the first one for a slot gets it. The induction is on
    the objects; once the slot is occupied it stays as it is. -/
theorem getElem?_foldl_withInserted (saved : List (ObjectId × Object × Bool))
    (hb : h.Bounded settings) (hn : n ≠ 0) (hs : h.slots[n.toNat]? = some s)
    (hempty : s.occupant? = none) : (saved.foldl withInserted h).slots[n.toNat]? =
      some (match saved.find? (·.1.index == n) with
        | none => s
        | some d => ⟨d.1.generation, some ⟨d.2.1, 0, d.2.2⟩⟩) := by
  induction saved generalizing h with
  | nil => exact hs
  | cons d saved ih =>
    have hp := withInserted_puts h d.1 d.2.1 d.2.2
    rw [List.foldl_cons, List.find?_cons]
    by_cases hd : d.1.index = n
    · rw [beq_iff_eq.2 hd]
      have hlt := (Array.getElem?_eq_some_iff.1 hs).1
      have hid : h.checkRestorable d.1 = .ok () := by
        refine checkRestorable_eq_ok_iff.2 ⟨hd ▸ hn, ?_⟩
        rw [hd, hb.settings_eq]
        exact hlt.trans_le hb.size_le
      have hfree : h.isOccupied d.1.index.toNat = false := by
        rw [hd, isOccupied, hs]
        simp [hempty]
      refine getElem?_foldl_of_occupied ?_ rfl
      rw [withInserted, insertRestored_eq_ok _ _ hid hfree]
      change (h.place _ _).slots[n.toNat]? = _
      rw [getElem?_place, hd, if_pos rfl]
    · rw [beq_eq_false_iff_ne.2 hd]
      have hne : d.1.index.toNat ≠ n.toNat := fun he => hd (UInt32.toNat_inj.1 he)
      exact ih (hb.puts hp) (hp.getElem?_of_ne hne hs)

theorem Bounded.tallied_foldl (hb : h.Bounded settings) (saved : List (ObjectId × Object × Bool)) :
    (saved.foldl withInserted h.clear).Tallied settings :=
  List.foldlRecOn saved _ hb.tallied_clear fun h ht d _ =>
    ht.puts (withInserted_puts h d.1 d.2.1 d.2.2)

/-- What is in a slot after a restore. -/
theorem getElem?_restoredWith (saved : List (ObjectId × Object × Bool))
    (hb : h.Bounded settings) (hn : n ≠ 0) (hs : h.clear.slots[n.toNat]? = some s) :
    (h.restoredWith saved).slots[n.toNat]? =
      some (match saved.find? (·.1.index == n) with
        | none => s.opened
        | some d => ⟨d.1.generation, some ⟨d.2.1, 0, d.2.2⟩⟩) := by
  have hempty := occupant?_of_clear hs
  have hslot := getElem?_foldl_withInserted saved hb.clear hn hs hempty
  have hne : n.toNat ≠ 0 := fun he => hn (UInt32.toNat_inj.1 he)
  rw [restoredWith, (opened_openHoles (hb.tallied_foldl saved).size_lt).slots]
  cases hd : saved.find? (·.1.index == n) with
  | none =>
    rw [hd] at hslot
    rw [if_pos ⟨hne, by rw [isOccupied_of_getElem? hslot, hempty, Option.isSome_none]⟩, hslot,
      Option.map_some]
  | some d =>
    rw [hd] at hslot
    rw [if_neg (fun hopen => by simp [isOccupied_of_getElem? hslot] at hopen), hslot]

theorem lt_size_restoredWith (saved : List (ObjectId × Object × Bool)) (hb : h.Bounded settings)
    (hn : n ≠ 0) (hlt : n.toNat < h.slots.size) :
    n.toNat < (h.restoredWith saved).slots.size := by
  have hs := Array.getElem?_eq_getElem (h.size_clear.symm ▸ hlt)
  exact (Array.getElem?_eq_some_iff.1 (getElem?_restoredWith saved hb hn hs)).1

theorem contains_restoredWith (saved : List (ObjectId × Object × Bool)) (hb : h.Bounded settings)
    (hzero : id.index ≠ 0) (hlt : id.index.toNat < h.slots.size) (hnot : ∀ d ∈ saved, d.1 ≠ id) :
    (h.restoredWith saved).contains id = false := by
  have hs := getElem?_restoredWith saved hb hzero
    (Array.getElem?_eq_getElem (h.size_clear.symm ▸ hlt))
  refine Bool.eq_false_iff.2 fun hlive => ?_
  obtain ⟨o, ho⟩ := contains_iff.1 hlive
  obtain ⟨t, ht, hg, hto⟩ := occupant?_eq_some_iff.1 ho
  rw [hs, Option.some.injEq] at ht
  cases hd : saved.find? (·.1.index == id.index) with
  | none =>
    rw [hd] at ht
    rw [← ht, Slot.occupant?_opened, occupant?_of_clear (Array.getElem?_eq_getElem _)] at hto
    cases hto
  | some d =>
    rw [hd] at ht
    subst ht
    have hindex : d.1.index = id.index := by simpa using List.find?_some hd
    refine hnot d (List.mem_of_find?_eq_some hd) ?_
    exact (ObjectId.eq_iff_generation_eq (congrArg UInt32.toNat hindex.symm)).2 hg.symm

/-- A slot that the table leaves past a name is set back if the first object that is put back
    into it says so. -/
theorem setBack_restoredWith_iff (saved : List (ObjectId × Object × Bool))
    (hb : h.Bounded settings) (hzero : id.index ≠ 0) (hspent : h.clear.Spent id) :
    (h.restoredWith saved).SetBack id ↔ ∃ d, saved.find? (·.1.index == id.index) = some d ∧
      d.1.generation.toNat ≤ id.generation.toNat ∧ d.2.2 = false := by
  obtain ⟨s, hs, hlt⟩ := hspent
  rw [SetBack, getElem?_restoredWith saved hb hzero hs]
  cases saved.find? (·.1.index == id.index) with
  | none =>
    constructor
    · rintro ⟨t, ht, hle, -⟩
      obtain rfl := Option.some.inj ht
      exact absurd (hle.trans_lt hlt) (not_lt.2 s.generation_opened.2)
    · rintro ⟨d, hd, -⟩
      cases hd
  | some d => simp

/-- A table that has been filled once leaves its slots past all names of new objects when it is
    cleared. -/
theorem spent_clear_of_issued {image : List (UInt32 × Object)} (hsettings : settings.problem? = none)
    (hid : id ∈ (filled settings image).issued ops)
    (hwrap : ((filled settings image).through ops).clear.wrapped = false) :
    ((filled settings image).through ops).clear.Spent id := by
  have ht : (filled settings image).Tidy := (founded_foldl_withDefined settings image).tidy_openHoles
  have hr : (filled settings image).Ready settings :=
    (List.foldlRecOn image _ (tallied_new hsettings) fun h ht d _ =>
      ht.puts (withDefined_puts h d.1 d.2)).openHoles
  have hwrap' : ((filled settings image).through ops).wrapped = false :=
    (Bool.or_eq_false_iff.1 hwrap).1
  have hnew := (issued_unknown ht hwrap').2 id hid
  obtain ⟨before, later, rfl, hlive⟩ := hr.exists_of_mem_issued hid
  refine spent_clear hwrap ?_ fun h0 => hnew (.inl h0)
  rw [through_append] at hwrap' ⊢
  exact ((ht.through before).onward_through later).known hwrap' (.inr (.inl hlive))

theorem setBack_rebuildCounts (h : Heap) (roots : List Value) (id : ObjectId) :
    (h.rebuildCounts roots).SetBack id ↔ h.SetBack id := by
  have hslot := h.map_slots_rebuildCounts roots
    (g := fun s => (s.generation, s.occupant?.any Occupant.persistent))
    (fun s => by rw [Slot.uncounted, Option.any_map]) id.index.toNat
  unfold SetBack
  cases hs : h.slots[id.index.toNat]? <;>
    cases hs' : (h.rebuildCounts roots).slots[id.index.toNat]? <;> simp_all

/-- A name that meant an object before the table was cleared, and that is not put back, comes
    to mean one again exactly if its slot is set back, whether or not counts are worked out
    anew. The slots that are left past it by the clearing are set back only by an object that
    is put back into them, can be freed and is in no later generation. Nothing is said about
    slots the generations of which start again. -/
theorem revived_iff (settings : HeapSettings) (hsettings : settings.problem? = none)
    (before between : List Call) (saved : List (ObjectId × Object × Bool)) (id : ObjectId)
    (hlive : ((Heap.new settings).afterAll before).contains id = true)
    (hnot : ∀ d ∈ saved, d.1 ≠ id) :
    let h := (Heap.new settings).afterAll (before ++ between)
    ∀ h₁, h₁ = h.restoredWith saved ∨ (∃ roots, h₁ = (h.restoredWith saved).rebuildCounts roots) →
      ((∃ ops, h₁.Lasts id.index.toNat ops ∧
        ((h₁.through ops).contains id = true ∨ id ∈ h₁.issued ops)) ↔ h₁.SetBack id) ∧
      (h.clear.Spent id → (h₁.SetBack id ↔ ∃ d, saved.find? (·.1.index == id.index) = some d ∧
        d.1.generation.toNat ≤ id.generation.toNat ∧ d.2.2 = false)) := by
  intro h h₁ hh₁
  have hb₀ := (Bounded.new hsettings).afterAll before
  have happend : h = ((Heap.new settings).afterAll before).afterAll between := List.foldl_append
  have hb : h.Bounded settings := happend ▸ hb₀.afterAll between
  -- The slot of the name is there, and is not the first one.
  obtain ⟨o, ho⟩ := contains_iff.1 hlive
  obtain ⟨n, hzero, hlt₀, hn⟩ := hb₀.exists_toNat (isOccupied_of_occupant? ho)
  obtain rfl := UInt32.toNat_inj.1 hn
  have hlt : id.index.toNat < h.slots.size :=
    hlt₀.trans_le (happend ▸ hb₀.size_le_afterAll between)
  have hr : (h.restoredWith saved).Ready settings := (hb.tallied_foldl saved).openHoles
  have hgone := contains_restoredWith saved hb hzero hlt hnot
  have hspent := fun hspent => setBack_restoredWith_iff saved hb hzero hspent
  have hsize := lt_size_restoredWith saved hb hzero hlt
  rcases hh₁ with rfl | ⟨roots, rfl⟩
  · exact ⟨hr.exists_through_iff hzero hsize hgone, hspent⟩
  · rw [setBack_rebuildCounts]
    refine ⟨?_, hspent⟩
    rw [← setBack_rebuildCounts _ roots]
    refine (hr.keeps (.rebuildCounts _ roots)).exists_through_iff hzero ?_ ?_
    · rwa [size_rebuildCounts]
    · rwa [contains_rebuildCounts]

/-- Two lists in the same slot, one after the other. -/
def reused : List Call :=
  [.openHoles, .operate (.alloc ⟨0, .list []⟩), .operate (.release ⟨1, 1⟩),
    .operate (.alloc ⟨0, .list []⟩)]

/-- The first list, as it was saved. -/
def former : List (ObjectId × Object × Bool) := [(⟨1, 1⟩, ⟨0, .list []⟩, false)]

/-- The name of the second list comes back when the first one has been put back. -/
theorem revived_iff_reused :
    let h := (Heap.new {}).afterAll (reused ++ [.operate (.release ⟨1, 2⟩)])
    ∃ ops, (h.restoredWith former).Lasts 1 ops ∧
      (((h.restoredWith former).through ops).contains ⟨1, 2⟩ = true ∨
        ⟨1, 2⟩ ∈ (h.restoredWith former).issued ops) := by
  intro h
  obtain ⟨hrevived, hspent⟩ := revived_iff {} (by decide) reused [.operate (.release ⟨1, 2⟩)] former
    ⟨1, 2⟩ (by cbv) (by decide) (h.restoredWith former) (.inl rfl)
  have hslot : ((Heap.new {}).afterAll
      (reused ++ [.operate (.release ⟨1, 2⟩)])).clear.slots[1]? = some ⟨3, none⟩ := by
    cbv
  have hleft : h.clear.Spent ⟨1, 2⟩ := ⟨_, hslot, by decide⟩
  exact hrevived.2 ((hspent hleft).2 ⟨_, rfl, by decide, rfl⟩)

/-- A name that is not put back can come to mean an object again: the first of two lists in
    the same slot is put back, and when it is freed a new one gets the name of the second. -/
theorem not_forgotten_reused :
    ¬∀ (settings : HeapSettings) (calls : List Call) (saved : List (ObjectId × Object × Bool))
      (id : ObjectId), settings.problem? = none →
      ((Heap.new settings).afterAll calls).contains id = true → (∀ d ∈ saved, d.1 ≠ id) →
      ∀ ops, ((((Heap.new settings).afterAll calls).restoredWith saved).through ops).contains id =
          false ∧ id ∉ (((Heap.new settings).afterAll calls).restoredWith saved).issued ops := by
  intro hall
  have hissued : (((Heap.new {}).afterAll reused).restoredWith former).issued
      [.release ⟨1, 1⟩, .alloc ⟨0, .list []⟩] = [⟨1, 2⟩] := by
    cbv
  have hgone := (hall {} reused former ⟨1, 2⟩ (by decide) (by cbv) (by decide)
    [.release ⟨1, 1⟩, .alloc ⟨0, .list []⟩]).2
  exact hgone (hissued ▸ List.mem_singleton.2 rfl)

end StoryMachine.Heap
