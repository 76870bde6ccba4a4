import StoryMachine.Proofs.Heap.Image
import StoryMachine.Proofs.Heap.Onward

/-!
# Putting the image back

A table that has been cleared has no objects, and no name from before comes to mean
one when the image objects are defined again: those keep their slots all the time,
and in every other slot the generation has moved on.

* `imaged_clear`, `spent_clear`: a table that has been cleared;
* `Refilled.known`, `Refilled.counted`: a table that has been filled again.
-/

namespace StoryMachine.Heap

variable {stale : Bool} {h h' : Heap} {id : ObjectId} {held : Multiset Value}

/-! ## A table that has been cleared -/

theorem getElem?_clear (h : Heap) (j : Nat) : h.clear.slots[j]? =
    h.slots[j]?.map fun s => if s.occupant?.isSome then s.vacated else s := by
  rw [clear, Array.getElem?_map]

theorem occupant?_of_clear {j : Nat} {s : Slot} (hs : h.clear.slots[j]? = some s) :
    s.occupant? = none := by
  rw [getElem?_clear] at hs
  obtain ⟨s', -, rfl⟩ := Option.map_eq_some_iff.1 hs
  split
  · rfl
  · next hs' => exact Option.not_isSome_iff_eq_none.1 hs'

theorem isOccupied_clear (h : Heap) (j : Nat) : h.clear.isOccupied j = false := by
  unfold isOccupied
  split
  · rfl
  · next s hs => rw [occupant?_of_clear hs, Option.isSome_none]

theorem occupant?_clear (h : Heap) (id : ObjectId) : h.clear.occupant? id = none := by
  unfold Heap.occupant?
  split
  · rfl
  · next s hs =>
    split
    · exact occupant?_of_clear hs
    · rfl

theorem size_clear (h : Heap) : h.clear.slots.size = h.slots.size := by
  rw [clear, Array.size_map]

theorem imaged_clear (hpos : 0 < h.slots.size)
    (hle : h.slots.size ≤ max 1 h.settings.maxObjects.toNat) : h.clear.Imaged where
  size_pos := h.size_clear ▸ hpos
  size_le := h.size_clear ▸ hle
  reserved := h.isOccupied_clear 0
  closed := rfl
  persistent id o ho := by
    rw [occupant?_clear] at ho
    cases ho
  portable v hv := by
    obtain ⟨s, hs, hv⟩ := List.mem_flatMap.1 hv
    obtain ⟨j, hj⟩ := List.mem_iff_getElem?.1 hs
    rw [Slot.edges_empty (occupant?_of_clear (by simpa using hj))] at hv
    cases hv
  silent := ⟨rfl, rfl⟩

/-- No name from before means an object. -/
theorem spent_clear (hw : h.clear.wrapped = false) (hk : h.Known true id)
    (hid : id.generation ≠ 0) : h.clear.Spent id := by
  have hlast {j : Nat} {s : Slot} (hs : h.slots[j]? = some s) (ho : s.occupant?.isSome) :
      s.isLast = false := by
    have hany := (Bool.or_eq_false_iff.1 hw).2
    rw [Array.any_eq_false] at hany
    obtain ⟨hlt, rfl⟩ := Array.getElem?_eq_some_iff.1 hs
    simpa [ho] using hany j hlt
  rcases hk with h0 | hc | ⟨-, s, hs, hlt⟩
  · exact absurd h0 hid
  · obtain ⟨o, ho⟩ := Option.isSome_iff_exists.1 hc
    obtain ⟨s, hs, hg, hso⟩ := occupant?_eq_some_iff.1 ho
    have hsome : s.occupant?.isSome := by rw [hso]; rfl
    refine ⟨s.vacated, ?_, ?_⟩
    · rw [getElem?_clear, hs, Option.map_some, if_pos hsome]
    · rw [← hg]
      exact Slot.generation_lt_vacated (hlast hs hsome)
  · refine ⟨_, by rw [getElem?_clear, hs, Option.map_some], ?_⟩
    split
    · next hsome => exact hlt.trans (Slot.generation_lt_vacated (hlast hs hsome))
    · exact hlt

/-! ## A table that has been filled again -/

/-- The objects of an image, defined one after the other. -/
structure Refilled (h : Heap) (numbers : List UInt32) (h' : Heap) : Prop where
  /-- There are image objects only. -/
  imaged : h'.Imaged
  /-- Those that have been defined are there. -/
  defined : ∀ n ∈ numbers, h'.isPersistent (.ofImage n) = true
  /-- Names in other slots that have outlived their objects stay so. -/
  spent : ∀ id : ObjectId, id.index ∉ numbers → h.Spent id → h'.Spent id
  /-- Nothing else that matters is changed. -/
  frame : h'.settings = h.settings ∧ h'.saturated = h.saturated ∧ h'.wrapped = h.wrapped

theorem Imaged.refilled (hi : h.Imaged) : h.Refilled [] h where
  imaged := hi
  defined _ hn := absurd hn List.not_mem_nil
  spent _ _ hs := hs
  frame := ⟨rfl, rfl, rfl⟩

theorem Refilled.define {h₀ : Heap} {numbers : List UInt32} {n : UInt32} {object : Object}
    (hr : h₀.Refilled numbers h) (hobject : ∀ v ∈ object.body.edges, v.Portable)
    (hok : Heap.define n object h = .ok id h') : h₀.Refilled (numbers ++ [n]) h' := by
  have hd := hr.imaged.defined hobject hok
  refine ⟨hd.imaged, fun n' hn' => ?_, fun id' hid' hs => ?_, hd.frame.1.trans hr.frame.1,
    hd.frame.2.1.trans hr.frame.2.1, hd.frame.2.2.trans hr.frame.2.2⟩
  · rcases List.mem_append.1 hn' with hn' | hn'
    · exact hd.persistent _ (hr.defined n' hn')
    · rw [List.mem_singleton.1 hn']
      exact hd.new
  · rw [List.mem_append, not_or, List.mem_singleton] at hid'
    exact hd.spent id' hid'.2 (hr.spent id' hid'.1 hs)

/-- The induction is on the objects that are still to be defined. -/
theorem Refilled.foldlM {h₀ : Heap} {numbers : List UInt32} {ds : List (UInt32 × Object)}
    {f : Heap → UInt32 × Object → Except Failure Heap}
    (hf : ∀ h d h', f h d = .ok h' → ∃ id, Heap.define d.1 d.2 h = .ok id h')
    (hr : h₀.Refilled numbers h) (hds : ∀ d ∈ ds, ∀ v ∈ d.2.body.edges, v.Portable)
    (hok : ds.foldlM f h = .ok h') : h₀.Refilled (numbers ++ ds.map Prod.fst) h' := by
  induction ds generalizing h numbers with
  | nil =>
    obtain rfl := Except.ok.inj hok
    simpa using hr
  | cons d ds ih =>
    rw [List.foldlM_cons] at hok
    obtain ⟨h₁, hd, hok⟩ := Except.bind_eq_ok.1 hok
    obtain ⟨id, hid⟩ := hf h d h₁ hd
    have := ih (hr.define (hds d List.mem_cons_self) hid)
      (fun d' hd' => hds d' (List.mem_cons_of_mem _ hd')) hok
    simpa using this

/-- A name that may be held is not that of an object in an image object's slot,
    unless it is the image object's. -/
theorem Known.index_ne {n : UInt32} (hk : h.Known true id) (hid : id.generation ≠ 0)
    (hp : h.isPersistent (.ofImage n) = true) : id.index ≠ n := by
  rintro rfl
  obtain ⟨o, ho⟩ := Option.isSome_iff_exists.1 (Option.isSome_of_any hp)
  obtain ⟨s, hs, hg, -⟩ := occupant?_eq_some_iff.1 ho
  have hg0 : s.generation = 0 := hg
  have hs' : h.slots[id.index.toNat]? = some s := hs
  rcases hk with h0 | hc | ⟨-, s', hs'', hlt⟩
  · exact hid h0
  · obtain ⟨o', ho'⟩ := Option.isSome_iff_exists.1 hc
    obtain ⟨s', hs'', hg', -⟩ := occupant?_eq_some_iff.1 ho'
    rw [hs', Option.some.injEq] at hs''
    exact hid (by rw [← hg', ← hs'', hg0])
  · rw [hs', Option.some.injEq] at hs''
    rw [← hs'', hg0] at hlt
    exact absurd hlt (Nat.not_lt_zero _)

/-- No name that was known comes to mean another object, because the objects of the
    image have been in their slots all the time. -/
theorem Refilled.known {numbers : List UInt32} (hr : h.clear.Refilled numbers h')
    (hthere : ∀ n ∈ numbers, h.isPersistent (.ofImage n) = true) (hw : h'.wrapped = false)
    (hk : h.Known true id) : h'.Known true id := by
  by_cases h0 : id.generation = 0
  · exact .inl h0
  · refine .inr (.inr ⟨rfl, hr.spent id (fun hmem => ?_) (spent_clear (hr.frame.2.2 ▸ hw) hk h0)⟩)
    exact hk.index_ne h0 (hthere _ hmem) rfl

theorem Refilled.counted {numbers : List UInt32} (hr : h.clear.Refilled numbers h')
    (hthere : ∀ n ∈ numbers, h.isPersistent (.ofImage n) = true)
    (hk : h.Reliable stale → ∀ id, .obj id ∈ held → h.Known stale id)
    (hheld : stale = false → held = 0) : h'.openHoles.Counted stale held := by
  refine hr.imaged.openHoles fun hrel id hid => ?_
  cases stale with
  | false =>
    rw [hheld rfl] at hid
    exact absurd hid (Multiset.notMem_zero _)
  | true =>
    have hrel' : h.Reliable true := hrel.of_flags (hr.frame.2.1 ▸ ·) fun hw =>
      (Bool.or_eq_false_iff.1 (hr.frame.2.2 ▸ hw : h.clear.wrapped = false)).1
    exact hr.known hthere (hrel.2 rfl) (hk hrel' id hid)

end StoryMachine.Heap
