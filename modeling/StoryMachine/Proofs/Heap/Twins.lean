import StoryMachine.Proofs.Heap.Names
import StoryMachine.Proofs.Heap.Rename

/-!
# Tables with a past

A table in which slots have been used before hands out other generations than a new one,
and it has empty slots where the new one has to grow. Nothing else tells the two apart:
whatever is asked of both, they answer alike, up to generations.

* `laterGeneration`, `ObjectId.later`: names in a slot that has been used before;
* `Heap.Twins`: a new table and one with a past;
* `Twins.releaseAll`, `Twins.alloc`, `Twins.collect`, …: operations keep them twins.
-/

namespace StoryMachine

/-! ## Generations -/

/-- The generation after a given one. -/
def nextGeneration (g : UInt32) : UInt32 := if g == 0xFFFFFFFF then 1 else g + 1

/-- The generation so many steps after a given one. That of image objects stays. -/
def laterGeneration (k : Nat) (g : UInt32) : UInt32 := if g = 0 then 0 else nextGeneration^[k] g

/-- The name that stands for `id` where each slot has been used as often as said before. -/
def ObjectId.later (ages : Nat → Nat) (id : ObjectId) : ObjectId :=
  { id with generation := laterGeneration (ages id.index.toNat) id.generation }

section Generations

variable {k : Nat} {g g' x : UInt32} {ages : Nat → Nat}

theorem nextGeneration_ne_zero (g : UInt32) : nextGeneration g ≠ 0 :=
  Slot.generation_vacated_ne_zero { generation := g }

theorem nextGeneration_inj (hg : g ≠ 0) (hx : x ≠ 0) (h : nextGeneration g = nextGeneration x) :
    g = x := by
  unfold nextGeneration at h
  split at h <;> split at h <;> grind

theorem iterate_nextGeneration_ne_zero (k : Nat) (hg : g ≠ 0) : nextGeneration^[k] g ≠ 0 := by
  cases k with
  | zero => exact hg
  | succ k =>
    rw [Function.iterate_succ_apply']
    exact nextGeneration_ne_zero _

theorem laterGeneration_injective (k : Nat) : Function.Injective (laterGeneration k) := by
  have hiterate {g x : UInt32} (hg : g ≠ 0) (hx : x ≠ 0)
      (h : nextGeneration^[k] g = nextGeneration^[k] x) : g = x := by
    induction k with
    | zero => exact h
    | succ k ih =>
      rw [Function.iterate_succ_apply', Function.iterate_succ_apply'] at h
      exact ih (nextGeneration_inj (iterate_nextGeneration_ne_zero k hg)
        (iterate_nextGeneration_ne_zero k hx) h)
  intro g x h
  unfold laterGeneration at h
  split at h <;> split at h
  · simp_all
  · exact absurd h.symm (iterate_nextGeneration_ne_zero k ‹_›)
  · exact absurd h (iterate_nextGeneration_ne_zero k ‹_›)
  · exact hiterate ‹_› ‹_› h

theorem ObjectId.later_injective (ages : Nat → Nat) : Function.Injective (later ages) := by
  rintro ⟨i, g⟩ ⟨j, x⟩ h
  obtain ⟨rfl, hg⟩ := ObjectId.mk.inj h
  exact congrArg (mk i) (laterGeneration_injective _ hg)

/-- The names of image objects stay. -/
theorem ObjectId.later_eq_self {id : ObjectId} (h : id.generation = 0) (ages : Nat → Nat) :
    id.later ages = id := by
  obtain ⟨i, g⟩ := id
  cases h
  rfl

/-- Of two slots with one number, one has been used so often before. A slot with an
    image object never has been. -/
def Aged (k : Nat) (g g' : UInt32) : Prop := g' = laterGeneration k g ∧ (g = 0 → k = 0)

theorem Aged.next (h : Aged k g g') : Aged k (nextGeneration g) (nextGeneration g') := by
  refine ⟨?_, fun hg => absurd hg (nextGeneration_ne_zero g)⟩
  rw [laterGeneration, if_neg (nextGeneration_ne_zero g), h.1, laterGeneration]
  split
  · next hg => rw [h.2 hg, hg, Function.iterate_zero_apply]
  · exact (Function.iterate_succ_apply' nextGeneration k g).symm.trans
      (Function.iterate_succ_apply nextGeneration k g)

theorem Aged.eq_iff (h : Aged k g g') : g' = laterGeneration k x ↔ g = x := by
  rw [h.1]
  exact (laterGeneration_injective k).eq_iff

end Generations

namespace Heap

/-! ## Slots by number -/

/-- The slot with a number, which is as good as empty if it does not exist. -/
def slot (h : Heap) (i : Nat) : Slot := (h.slots[i]?).getD {}

section Slot

variable {h : Heap} {i : Nat} {id : ObjectId} {o : Occupant}

theorem occupant?_eq_slot (h : Heap) (id : ObjectId) : h.occupant? id =
    if (h.slot id.index.toNat).generation = id.generation
      then (h.slot id.index.toNat).occupant? else none := by
  unfold occupant? slot
  cases h.slots[id.index.toNat]? with
  | none => simp
  | some s => rfl

theorem isOccupied_eq_slot (h : Heap) (i : Nat) : h.isOccupied i = (h.slot i).occupant?.isSome := by
  unfold isOccupied slot
  cases h.slots[i]? <;> rfl

theorem idAt?_eq_slot (h : Heap) (i : Nat) :
    h.idAt? i = (h.slot i).occupant?.map fun _ => ⟨UInt32.ofNat i, (h.slot i).generation⟩ := by
  unfold idAt? slot
  cases h.slots[i]? <;> rfl

theorem edgesAt_eq_slot (h : Heap) (i : Nat) : h.edgesAt i = (h.slot i).edges := by
  unfold edgesAt slot
  cases h.slots[i]? <;> rfl

theorem slot_of_size_le (hi : h.slots.size ≤ i) : h.slot i = {} := by
  rw [slot, Array.getElem?_eq_none hi, Option.getD_none]

theorem lt_size_of_slot (ho : (h.slot i).occupant? ≠ none) : i < h.slots.size := by
  by_contra hi
  rw [slot_of_size_le (not_lt.1 hi)] at ho
  exact ho rfl

theorem slot_congr {h' : Heap} (hslots : h'.slots = h.slots) (i : Nat) : h'.slot i = h.slot i := by
  rw [slot, slot, hslots]

theorem slot_modifySlot (h : Heap) (i : Nat) (f : Slot → Slot) (j : Nat) :
    (h.modifySlot i f).slot j = if i = j ∧ j < h.slots.size then f (h.slot j) else h.slot j := by
  unfold slot
  rw [getElem?_modifySlot]
  by_cases hj : j < h.slots.size
  · rw [Array.getElem?_eq_getElem hj]
    simp only [hj, and_true]
    split <;> rfl
  · rw [Array.getElem?_eq_none (not_lt.1 hj)]
    simp [hj]

theorem slot_modifyOccupant (h : Heap) (id : ObjectId) (f : Occupant → Occupant) (j : Nat) :
    (h.modifyOccupant id f).slot j =
      if id.index.toNat = j ∧ (h.slot j).generation = id.generation
        then { h.slot j with occupant? := (h.slot j).occupant?.map f } else h.slot j := by
  rw [modifyOccupant, slot_modifySlot]
  by_cases hj : j < h.slots.size
  · simp only [hj, and_true]
    split_ifs <;> simp_all
  · have hempty : (h.slot j).occupant? = none := by rw [slot_of_size_le (not_lt.1 hj)]
    simp only [hj, and_false, if_false, hempty, Option.map_none]
    rw [slot_of_size_le (not_lt.1 hj), ite_self]

theorem slot_vacate (hi : h.isOccupied i = true) (j : Nat) :
    (h.vacate i).slot j = if i = j then (h.slot j).vacated else h.slot j := by
  have hlt : i < h.slots.size := by
    rw [isOccupied_eq_slot, Option.isSome_iff_ne_none] at hi
    exact lt_size_of_slot hi
  have hslots : (h.vacate i).slots = (h.modifySlot i Slot.vacated).slots := by
    rw [vacate, if_pos hi]
  rw [slot_congr hslots, slot_modifySlot]
  by_cases hij : i = j
  · subst hij
    rw [if_pos ⟨rfl, hlt⟩, if_pos rfl]
  · rw [if_neg fun hc => hij hc.1, if_neg hij]

end Slot

/-! ## Twins -/

/-- A table and one that has a past: a slot that is in use or open in the first has been
    used before in the second as often as `ages` says, and the second has slots to spare
    where the first one has to grow. -/
structure Twins (ages : Nat → Nat) (h h' : Heap) : Prop where
  /-- The limits are the same. -/
  settings : h'.settings = h.settings
  /-- There are equally many objects. -/
  live : h'.live = h.live
  /-- The logs are the same. -/
  undo : h'.undo = h.undo.rename (.later ages)
  /-- There is a first slot. -/
  pos : 0 < h.slots.size
  /-- The second has at least as many slots. -/
  size_le : h.slots.size ≤ h'.slots.size
  /-- It has no more than there may be. -/
  room : h'.slots.size ≤ max 1 h.settings.maxObjects.toNat
  /-- The objects are the same. -/
  occupants : ∀ i, (h'.slot i).occupant? = (h.slot i).occupant?.map (Occupant.rename (.later ages))
  /-- Slots with objects have aged as said. -/
  taken : ∀ i, (h.slot i).occupant? ≠ none →
    Aged (ages i) (h.slot i).generation (h'.slot i).generation
  /-- So have the slots that are open. -/
  opened : ∀ n ∈ h.free, n.toNat < h.slots.size ∧
    Aged (ages n.toNat) (h.slot n.toNat).generation (h'.slot n.toNat).generation
  /-- After those come the slots to spare. -/
  free : h'.free = h.free ++
    (List.range' h.slots.size (h'.slots.size - h.slots.size)).map UInt32.ofNat
  /-- A slot to spare has aged as said since it was new. -/
  spare : ∀ i, h.slots.size ≤ i →
    Aged (ages i) 1 (if i < h'.slots.size then (h'.slot i).generation else 1)

namespace Twins

variable {ages : Nat → Nat} {h h' : Heap} {i : Nat} {id : ObjectId}

theorem size_lt (ht : h.Twins ages h') : h'.slots.size < 2 ^ 32 :=
  ht.room.trans_lt (max_lt (by decide) h.settings.maxObjects.toNat_lt)

/-- Changes that leave the number of slots alone. -/
theorem resumed {k k' : Heap} (ht : h.Twins ages h')
    (hk : k.slots.size = h.slots.size ∧ k.settings = h.settings)
    (hk' : k'.slots.size = h'.slots.size ∧ k'.settings = h'.settings)
    (hlive : k'.live = k.live) (hundo : k'.undo = k.undo.rename (.later ages))
    (hoccupants : ∀ i, (k'.slot i).occupant? = (k.slot i).occupant?.map (Occupant.rename (.later ages)))
    (htaken : ∀ i, (k.slot i).occupant? ≠ none →
      Aged (ages i) (k.slot i).generation (k'.slot i).generation)
    (hopened : ∀ n ∈ k.free, n.toNat < h.slots.size ∧
      Aged (ages n.toNat) (k.slot n.toNat).generation (k'.slot n.toNat).generation)
    (hfree : k'.free = k.free ++
      (List.range' h.slots.size (h'.slots.size - h.slots.size)).map UInt32.ofNat)
    (hspare : ∀ i, h.slots.size ≤ i → (k'.slot i).generation = (h'.slot i).generation) :
    k.Twins ages k' where
  settings := by rw [hk'.2, hk.2, ht.settings]
  live := hlive
  undo := hundo
  pos := hk.1 ▸ ht.pos
  size_le := by
    rw [hk.1, hk'.1]
    exact ht.size_le
  room := by
    rw [hk'.1, hk.2]
    exact ht.room
  occupants := hoccupants
  taken := htaken
  opened n hn := by
    rw [hk.1]
    exact hopened n hn
  free := by
    rw [hk.1, hk'.1]
    exact hfree
  spare i hi := by
    rw [hk.1] at hi
    rw [hk'.1, hspare i hi]
    exact ht.spare i hi

/-- Changes that leave the slots alone. -/
theorem congr {k k' : Heap} (ht : h.Twins ages h')
    (hk : k.slots = h.slots ∧ k.free = h.free ∧ k.settings = h.settings)
    (hk' : k'.slots = h'.slots ∧ k'.free = h'.free ∧ k'.settings = h'.settings)
    (hlive : k'.live = k.live) (hundo : k'.undo = k.undo.rename (.later ages)) : k.Twins ages k' := by
  obtain ⟨hslots, hfree, hsettings⟩ := hk
  obtain ⟨hslots', hfree', hsettings'⟩ := hk'
  refine ht.resumed ⟨by rw [hslots], hsettings⟩ ⟨by rw [hslots'], hsettings'⟩ hlive hundo (fun i => ?_)
    (fun i => ?_) (fun n => ?_) ?_ fun i _ => by rw [slot_congr hslots']
  · rw [slot_congr hslots, slot_congr hslots']
    exact ht.occupants i
  · rw [slot_congr hslots, slot_congr hslots']
    exact ht.taken i
  · rw [hfree, slot_congr hslots, slot_congr hslots']
    exact ht.opened n
  · rw [hfree', hfree]
    exact ht.free

theorem isOccupied (ht : h.Twins ages h') (i : Nat) : h'.isOccupied i = h.isOccupied i := by
  rw [isOccupied_eq_slot, isOccupied_eq_slot, ht.occupants, Option.isSome_map]

/-- Names mean the same. -/
theorem named (ht : h.Twins ages h') (ho : (h.slot id.index.toNat).occupant? ≠ none) :
    (h'.slot id.index.toNat).generation = (id.later ages).generation ↔
      (h.slot id.index.toNat).generation = id.generation :=
  (ht.taken _ ho).eq_iff

theorem occupant? (ht : h.Twins ages h') (id : ObjectId) :
    h'.occupant? (id.later ages) = (h.occupant? id).map (Occupant.rename (.later ages)) := by
  rw [occupant?_eq_slot, occupant?_eq_slot]
  change (if (h'.slot id.index.toNat).generation = _ then (h'.slot id.index.toNat).occupant? else none) = _
  rw [ht.occupants]
  by_cases ho : (h.slot id.index.toNat).occupant? = none
  · simp [ho]
  · simp only [ht.named ho]
    split <;> rfl

/-- An object is changed in the same way in both. -/
theorem modifyOccupant (ht : h.Twins ages h') (id : ObjectId) {f f' : Occupant → Occupant}
    (hf : ∀ o, f' (o.rename (.later ages)) = (f o).rename (.later ages)) :
    (h.modifyOccupant id f).Twins ages (h'.modifyOccupant (id.later ages) f') := by
  have hgeneration (k : Heap) (id : ObjectId) (f : Occupant → Occupant) (i : Nat) :
      ((k.modifyOccupant id f).slot i).generation = (k.slot i).generation := by
    rw [slot_modifyOccupant]
    split <;> rfl
  have hsize (k : Heap) (id : ObjectId) (f : Occupant → Occupant) :
      (k.modifyOccupant id f).slots.size = k.slots.size := size_modifySlot ..
  have hframe (k : Heap) (id : ObjectId) (f : Occupant → Occupant) :
      (k.modifyOccupant id f).settings = k.settings ∧ (k.modifyOccupant id f).live = k.live ∧
        (k.modifyOccupant id f).undo = k.undo ∧ (k.modifyOccupant id f).free = k.free := by
    rw [Heap.modifyOccupant, modifySlot_eq]
    exact ⟨rfl, rfl, rfl, rfl⟩
  obtain ⟨hsettings, hlive, hundo, hfree⟩ := hframe h id f
  obtain ⟨hsettings', hlive', hundo', hfree'⟩ := hframe h' (id.later ages) f'
  refine ht.resumed ⟨hsize .., hsettings⟩ ⟨hsize .., hsettings'⟩ ?_ ?_ (fun i => ?_) (fun i ho => ?_)
    (fun n hn => ?_) ?_ fun i _ => hgeneration ..
  · rw [hlive', hlive, ht.live]
  · rw [hundo', hundo, ht.undo]
  · rw [slot_modifyOccupant, slot_modifyOccupant]
    by_cases ho : (h.slot i).occupant? = none
    · -- A slot that is empty in one is empty in the other, where there is nothing to change.
      have ho' : (h'.slot i).occupant? = none := by rw [ht.occupants, ho, Option.map_none]
      split <;> split <;> simp [ho, ho']
    by_cases hi : id.index.toNat = i
    · subst hi
      have hindex : (id.later ages).index = id.index := rfl
      simp only [hindex, ht.named ho, true_and]
      split
      · dsimp only
        rw [ht.occupants, Option.map_map, Option.map_map]
        exact congrArg (Option.map · _) (funext hf)
      · exact ht.occupants _
    · rw [if_neg fun hc => hi hc.1, if_neg fun hc => hi hc.1]
      exact ht.occupants i
  · rw [hgeneration, hgeneration]
    refine ht.taken i fun hnone => ho ?_
    rw [slot_modifyOccupant]
    split <;> simp [hnone]
  · rw [hgeneration, hgeneration]
    exact ht.opened n (hfree ▸ hn)
  · rw [hfree', hfree]
    exact ht.free

/-- A slot that is given up in both has aged as before. -/
theorem vacate (ht : h.Twins ages h') (i : Nat) : (h.vacate i).Twins ages (h'.vacate i) := by
  cases hi : h.isOccupied i with
  | false =>
    have hsame : h.vacate i = h := by rw [Heap.vacate, hi]; rfl
    have hsame' : h'.vacate i = h' := by rw [Heap.vacate, ht.isOccupied, hi]; rfl
    rwa [hsame, hsame']
  | true =>
    have hi' : h'.isOccupied i = true := (ht.isOccupied i).trans hi
    have ho : (h.slot i).occupant? ≠ none := by
      rwa [isOccupied_eq_slot, Option.isSome_iff_ne_none] at hi
    have hlt : i < h.slots.size := lt_size_of_slot ho
    have hindex : (UInt32.ofNat i).toNat = i :=
      UInt32.toNat_ofNat_of_lt ((hlt.trans_le ht.size_le).trans ht.size_lt)
    have hframe {k : Heap} (hk : k.isOccupied i = true) :
        (k.vacate i).live = k.live - 1 ∧ (k.vacate i).free = UInt32.ofNat i :: k.free := by
      rw [Heap.vacate, hk, modifySlot_eq]
      exact ⟨rfl, rfl⟩
    have haged : Aged (ages i) (h.slot i).vacated.generation (h'.slot i).vacated.generation :=
      (ht.taken i ho).next
    refine ht.resumed ⟨h.size_vacate i, h.settings_vacate i⟩ ⟨h'.size_vacate i, h'.settings_vacate i⟩
      ?_ ?_ (fun j => ?_) (fun j hj => ?_) (fun n hn => ?_) ?_ fun j hj => ?_
    · rw [(hframe hi').1, (hframe hi).1, ht.live]
    · rw [undo_vacate, undo_vacate, ht.undo]
    · rw [slot_vacate hi, slot_vacate hi']
      split
      · rfl
      · exact ht.occupants j
    · rw [slot_vacate hi] at hj ⊢
      rw [slot_vacate hi']
      split
      · next hij => exact hij ▸ haged
      · next hij =>
        rw [if_neg hij] at hj
        exact ht.taken j hj
    · rw [slot_vacate hi, slot_vacate hi']
      rw [(hframe hi).2] at hn
      split
      · next hij => exact ⟨hij ▸ hlt, hij ▸ haged⟩
      · next hij =>
        rcases List.mem_cons.1 hn with rfl | hn
        · exact absurd hindex.symm hij
        · exact ht.opened n hn
    · rw [(hframe hi').2, (hframe hi).2, ht.free, List.cons_append]
    · rw [slot_vacate hi', if_neg (hlt.trans_le hj).ne]

/-! ## New objects -/

/-- An object gets an open slot in both. -/
theorem occupy (ht : h.Twins ages h') {n : UInt32} {rest rest' : List UInt32}
    (hfree : h.free = n :: rest) (hfree' : h'.free = n :: rest') (object : Object) :
    Twins ages ({ h with free := rest }.occupy n.toNat object)
      ({ h' with free := rest' }.occupy n.toNat (object.rename (.later ages))) := by
  obtain ⟨hlt, haged⟩ := ht.opened n (hfree ▸ List.mem_cons_self)
  have hlt' := hlt.trans_le ht.size_le
  have hslot {k : Heap} {rest : List UInt32} (hk : n.toNat < k.slots.size) (object : Object) (j : Nat) :
      ({ k with free := rest }.occupy n.toNat object).slot j =
        if n.toNat = j then { k.slot j with occupant? := some ⟨object, 1, false⟩ } else k.slot j := by
    refine (slot_modifySlot { k with free := rest } n.toNat _ j).trans ?_
    by_cases hj : n.toNat = j
    · rw [if_pos ⟨hj, hj ▸ hk⟩, if_pos hj]
      rfl
    · rw [if_neg fun hc => hj hc.1, if_neg hj]
      rfl
  have hgeneration {k : Heap} {rest : List UInt32} (hk : n.toNat < k.slots.size) (object : Object) (j : Nat) :
      (({ k with free := rest }.occupy n.toNat object).slot j).generation = (k.slot j).generation := by
    rw [hslot hk]
    split <;> rfl
  have hframe (k : Heap) (rest : List UInt32) (object : Object) :
      ({ k with free := rest }.occupy n.toNat object).live = k.live + 1 ∧
      ({ k with free := rest }.occupy n.toNat object).undo = k.undo ∧
      ({ k with free := rest }.occupy n.toNat object).free = rest ∧
      ({ k with free := rest }.occupy n.toNat object).settings = k.settings ∧
      ({ k with free := rest }.occupy n.toNat object).slots.size = k.slots.size := by
    rw [Heap.occupy, modifySlot_eq]
    exact ⟨rfl, rfl, rfl, rfl, Array.size_modify⟩
  obtain ⟨hlive, hundo, hrest, hsettings, hsize⟩ := hframe h rest object
  obtain ⟨hlive', hundo', hrest', hsettings', hsize'⟩ := hframe h' rest' (object.rename (.later ages))
  refine ht.resumed ⟨hsize, hsettings⟩ ⟨hsize', hsettings'⟩ ?_ ?_ (fun j => ?_) (fun j hj => ?_)
    (fun m hm => ?_) ?_ fun j _ => hgeneration hlt' _ j
  · rw [hlive', hlive, ht.live]
  · rw [hundo', hundo, ht.undo]
  · rw [hslot hlt, hslot hlt']
    split
    · rfl
    · exact ht.occupants j
  · rw [hgeneration hlt, hgeneration hlt']
    by_cases hnj : n.toNat = j
    · exact hnj ▸ haged
    · rw [hslot hlt, if_neg hnj] at hj
      exact ht.taken j hj
  · rw [hgeneration hlt, hgeneration hlt']
    rw [hrest] at hm
    exact ht.opened m (hfree ▸ List.mem_cons_of_mem n hm)
  · rw [hrest', hrest]
    -- The slot is the first free one in both.
    have hsplit := ht.free
    rw [hfree', hfree, List.cons_append] at hsplit
    exact List.tail_eq_of_cons_eq hsplit

end Twins

/-- A table with one more slot, which is open. -/
def widened (h : Heap) : Heap :=
  { h with slots := h.slots.push { generation := 1 }, free := [UInt32.ofNat h.slots.size] }

section Widened

variable {h : Heap} {i : Nat}

theorem slot_widened (h : Heap) (i : Nat) :
    h.widened.slot i = if i = h.slots.size then { generation := 1 } else h.slot i := by
  unfold slot widened
  rw [Array.getElem?_push]
  split <;> rfl

theorem size_widened (h : Heap) : h.widened.slots.size = h.slots.size + 1 := Array.size_push ..

/-- The new slot is empty. -/
theorem slot_widened_of_occupied (ho : (h.widened.slot i).occupant? ≠ none) :
    h.widened.slot i = h.slot i ∧ i ≠ h.slots.size := by
  rw [slot_widened] at ho ⊢
  by_cases hi : i = h.slots.size
  · rw [if_pos hi] at ho
    exact absurd rfl ho
  · exact ⟨if_neg hi, hi⟩

/-- A new object gets the slot that it would have made. -/
theorem alloc_widened (hfree : h.free = []) (hroom : ¬h.settings.maxObjects ≤ UInt32.ofNat h.slots.size)
    (hsize : h.slots.size < 2 ^ 32) (object : Object) :
    Heap.alloc object h = Heap.alloc object h.widened := by
  have hindex : (UInt32.ofNat h.slots.size).toNat = h.slots.size := UInt32.toNat_ofNat_of_lt hsize
  have hgeneration :
      (h.widened.slots[(UInt32.ofNat h.slots.size).toNat]?.map Slot.generation).getD 0 = 1 := by
    rw [hindex, widened, Array.getElem?_push_size]
    rfl
  have hsame : { h with slots := h.slots.push { generation := 1 } } = { h.widened with free := [] } := by
    rw [widened, ← hfree]
  rw [alloc_of_nil hfree hroom, alloc_of_cons (h := h.widened) rfl, hgeneration, hsame]

end Widened

namespace Twins

variable {ages : Nat → Nat} {h h' : Heap} {id : ObjectId} {object : Object}

/-- Both tables grow by the same slot. -/
theorem widened_of_size_eq (ht : h.Twins ages h') (hroom : h.slots.size < h.settings.maxObjects.toNat)
    (heq : h'.slots.size = h.slots.size) : h.widened.Twins ages h'.widened := by
  have hindex : (UInt32.ofNat h.slots.size).toNat = h.slots.size :=
    UInt32.toNat_ofNat_of_lt (ht.size_le.trans_lt ht.size_lt)
  have hspare (i : Nat) (hi : h.slots.size ≤ i) : Aged (ages i) 1 1 := by
    have haged := ht.spare i hi
    rwa [heq, if_neg (not_lt.2 hi)] at haged
  refine ⟨ht.settings, ht.live, ht.undo, ?_, ?_, ?_, fun i => ?_, fun i ho => ?_, fun n hn => ?_,
    ?_, fun i hi => ?_⟩
  · rw [size_widened]
    exact Nat.succ_pos _
  · rw [size_widened, size_widened, heq]
  · rw [size_widened, heq]
    exact le_max_of_le_right hroom
  · rw [slot_widened, slot_widened, heq]
    split
    · rfl
    · exact ht.occupants i
  · obtain ⟨hslot, hi⟩ := slot_widened_of_occupied ho
    rw [hslot] at ho ⊢
    rw [slot_widened, if_neg (heq.symm ▸ hi)]
    exact ht.taken i ho
  · obtain rfl := List.mem_singleton.1 hn
    rw [hindex, size_widened, slot_widened, slot_widened, heq, if_pos rfl, if_pos rfl]
    exact ⟨Nat.lt_succ_self _, hspare _ le_rfl⟩
  · rw [size_widened, size_widened, heq, Nat.sub_self, Heap.widened, Heap.widened, heq]
    rfl
  · rw [size_widened] at hi
    rw [size_widened, heq, if_neg (not_lt.2 hi)]
    exact hspare i (Nat.le_of_succ_le hi)

/-- The slot that a new table makes is the first of those that the other one has to spare. -/
theorem widened_of_size_lt (ht : h.Twins ages h') (hfree : h.free = [])
    (hlt : h.slots.size < h'.slots.size) : h.widened.Twins ages h' := by
  have hindex : (UInt32.ofNat h.slots.size).toNat = h.slots.size :=
    UInt32.toNat_ofNat_of_lt (ht.size_le.trans_lt ht.size_lt)
  have hspare := ht.spare h.slots.size le_rfl
  rw [if_pos hlt] at hspare
  have hempty : (h'.slot h.slots.size).occupant? = none := by
    rw [ht.occupants, slot_of_size_le le_rfl]
    rfl
  refine ⟨ht.settings, ht.live, ht.undo, ?_, ?_, ht.room, fun i => ?_, fun i ho => ?_,
    fun n hn => ?_, ?_, fun i hi => ?_⟩
  · rw [size_widened]
    exact Nat.succ_pos _
  · rw [size_widened]
    exact hlt
  · rw [slot_widened]
    split
    · next hi => rw [hi, hempty, Option.map_none]
    · exact ht.occupants i
  · obtain ⟨hslot, -⟩ := slot_widened_of_occupied ho
    rw [hslot] at ho ⊢
    exact ht.taken i ho
  · obtain rfl := List.mem_singleton.1 hn
    rw [hindex, size_widened, slot_widened, if_pos rfl]
    exact ⟨Nat.lt_succ_self _, hspare⟩
  · -- One slot less is left to spare.
    obtain ⟨k, hk⟩ := Nat.exists_eq_add_of_lt hlt
    rw [ht.free, hfree, List.nil_append, size_widened, hk,
      show h.slots.size + k + 1 - h.slots.size = k + 1 by omega,
      show h.slots.size + k + 1 - (h.slots.size + 1) = k by omega, List.range'_succ, List.map_cons]
    rfl
  · rw [size_widened] at hi
    exact ht.spare i (Nat.le_of_succ_le hi)

/-- Where a new table has to grow, the other one has a slot to spare, or grows as well. -/
theorem widened (ht : h.Twins ages h') (hfree : h.free = [])
    (hroom : h.slots.size < h.settings.maxObjects.toNat) :
    h.widened.Twins ages (if h'.free = [] then h'.widened else h') := by
  have hsplit := ht.free
  rw [hfree, List.nil_append] at hsplit
  split
  · next hfree' =>
    rw [hfree', eq_comm, List.map_eq_nil_iff, List.range'_eq_nil_iff] at hsplit
    exact ht.widened_of_size_eq hroom (le_antisymm (Nat.le_of_sub_eq_zero hsplit) ht.size_le)
  · next hfree' =>
    refine ht.widened_of_size_lt hfree (lt_of_le_of_ne ht.size_le fun heq => hfree' ?_)
    rw [hsplit, heq, Nat.sub_self]
    rfl

end Twins

end Heap

/-! ## Answers -/

/-- An error with other names in it. -/
def HeapError.rename (f : ObjectId → ObjectId) : HeapError → HeapError
  | invalidObject id => .invalidObject (f id)
  | wrongKind id expected => .wrongKind (f id) expected
  | e => e

namespace Heap

/-- The answers are the same where `g` says what has another name, and what is left are
    twins. -/
def Agree {α : Type} (ages : Nat → Nat) (g : α → α) (r r' : EStateM.Result HeapError Heap α) : Prop :=
  match r, r' with
  | .ok a h, .ok a' h' => a' = g a ∧ h.Twins ages h'
  | .error e h, .error e' h' => e' = e.rename (.later ages) ∧ h.Twins ages h'
  | _, _ => False

/-- Twins that are asked for the same agree. -/
def Alike {α : Type} (ages : Nat → Nat) (g : α → α) (x x' : HeapM α) : Prop :=
  ∀ h h', h.Twins ages h' → Agree ages g (x h) (x' h')

section Alike

variable {α β : Type} {ages : Nat → Nat} {g : α → α} {k : β → β} {x x' : HeapM α}
  {f f' : α → HeapM β}

theorem Alike.pure {a a' : α} (ha : a' = g a) : Alike ages g (pure a) (pure a') := fun _ _ ht => ⟨ha, ht⟩

theorem Alike.bind (hx : Alike ages g x x') (hf : ∀ a, Alike ages k (f a) (f' (g a))) :
    Alike ages k (x >>= f) (x' >>= f') := fun h h' ht => by
  have hagree := hx h h' ht
  change Agree ages k (EStateM.bind x f h) (EStateM.bind x' f' h')
  unfold EStateM.bind
  cases hr : x h with
  | ok a h₁ =>
    cases hr' : x' h' with
    | ok a' h₁' =>
      rw [hr, hr'] at hagree
      obtain ⟨rfl, ht₁⟩ := hagree
      exact hf a h₁ h₁' ht₁
    | error e' h₁' =>
      rw [hr, hr'] at hagree
      exact hagree.elim
  | error e h₁ =>
    cases hr' : x' h' with
    | ok a' h₁' =>
      rw [hr, hr'] at hagree
      exact hagree.elim
    | error e' h₁' =>
      rw [hr, hr'] at hagree
      exact hagree

theorem Alike.modify {u u' : Heap → Heap} (hu : ∀ h h', h.Twins ages h' → (u h).Twins ages (u' h')) :
    Alike ages id (modify u) (modify u') := fun _ _ ht => ⟨rfl, hu _ _ ht⟩

theorem Alike.modifyGet {u u' : Heap → α × Heap}
    (hu : ∀ h h', h.Twins ages h' → (u' h').1 = g (u h).1 ∧ (u h).2.Twins ages (u' h').2) :
    Alike ages g (modifyGet u) (modifyGet u') := fun _ _ ht => hu _ _ ht

end Alike

namespace Twins

variable {ages : Nat → Nat} {h h' : Heap} {id : ObjectId} {object : Object}

/-- There is an open slot. -/
theorem alloc_of_cons (ht : h.Twins ages h') {n : UInt32} {rest : List UInt32} (hfree : h.free = n :: rest)
    (object : Object) :
    Agree ages (.later ages) (Heap.alloc object h) (Heap.alloc (object.rename (.later ages)) h') := by
  have hfree' := ht.free
  rw [hfree, List.cons_append] at hfree'
  have hgeneration (k : Heap) :
      (k.slots[n.toNat]?.map Slot.generation).getD 0 = (k.slot n.toNat).generation := by
    unfold slot
    cases k.slots[n.toNat]? <;> rfl
  rw [Heap.alloc_of_cons hfree, Heap.alloc_of_cons hfree', hgeneration, hgeneration]
  refine ⟨?_, ht.occupy hfree hfree' object⟩
  rw [(ht.opened n (hfree ▸ List.mem_cons_self)).2.1]
  rfl

/-- A new object gets the same slot in both, and where there is none for it in one, there is
    none in the other. -/
theorem alloc (ht : h.Twins ages h') (object : Object) :
    Agree ages (.later ages) (Heap.alloc object h) (Heap.alloc (object.rename (.later ages)) h') := by
  cases hfree : h.free with
  | cons n rest => exact ht.alloc_of_cons hfree object
  | nil =>
    have hsize := ht.size_le
    have hsize' := ht.size_lt
    have hindex {k : Nat} (hk : k < 2 ^ 32) :
        h.settings.maxObjects ≤ UInt32.ofNat k ↔ h.settings.maxObjects.toNat ≤ k := by
      have hindex : (UInt32.ofNat k).toNat = k := UInt32.toNat_ofNat_of_lt hk
      rw [UInt32.le_iff_toNat_le, hindex]
    by_cases hfull : h.settings.maxObjects ≤ UInt32.ofNat h.slots.size
    · -- There may be no more slots, so the other table has none to spare.
      have hlimit := (hindex (hsize.trans_lt hsize')).1 hfull
      have heq : h'.slots.size = h.slots.size :=
        le_antisymm (ht.room.trans (max_le ht.pos hlimit)) hsize
      have hfree' : h'.free = [] := by
        rw [ht.free, hfree, heq, Nat.sub_self]
        rfl
      rw [alloc_of_full hfree hfull,
        alloc_of_full hfree' (ht.settings.symm ▸ heq.symm ▸ hfull), ht.settings]
      exact ⟨rfl, ht⟩
    · -- To grow is to get the slot first and then to fill it, so that there is a free one.
      have hroom := not_le.1 (mt (hindex (hsize.trans_lt hsize')).2 hfull)
      have hwidened := ht.widened hfree hroom
      have hsame : Heap.alloc (object.rename (.later ages)) h' =
          Heap.alloc (object.rename (.later ages)) (if h'.free = [] then h'.widened else h') := by
        split
        · next hfree' =>
          have heq : h'.slots.size = h.slots.size := by
            have hsplit := ht.free
            rw [hfree, hfree', List.nil_append, eq_comm, List.map_eq_nil_iff,
              List.range'_eq_nil_iff] at hsplit
            exact le_antisymm (Nat.le_of_sub_eq_zero hsplit) hsize
          exact alloc_widened hfree' (ht.settings.symm ▸ heq.symm ▸ hfull) hsize' _
        · rfl
      rw [alloc_widened hfree hfull (hsize.trans_lt hsize'), hsame]
      exact hwidened.alloc_of_cons rfl object

end Twins

end Heap

end StoryMachine
