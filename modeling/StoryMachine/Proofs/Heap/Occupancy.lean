import StoryMachine.Proofs.Heap.Garbage
import StoryMachine.Proofs.Heap.Names

/-!
# Which slots are occupied

A table goes through phases. While it is filled, objects are put under given names; then
its empty slots are opened, and a caller does with it what it likes, until it is cleared to
be filled again. The number of objects is counted on the way and never taken anew, and so
is the list of free slots once they are open; both stay true to the slots.

* `Heap.Call`, `Heap.Phase`: what a table is asked to do, and when;
* `Bounded`, `Tallied`, `Ready`: what is true of a table at all times, while objects are
  counted, and once its slots are open;
* `Touch.ready`, `Ready.alloc`: what one change keeps of it;
* `Ready.length_free`: every slot but the first is occupied or free;
* `slots_accounted`: what this says about every run.
-/

namespace StoryMachine.Heap

variable {settings : HeapSettings} {h h' : Heap} {i : Nat} {id : ObjectId} {s : Slot}
  {op : Operation}

/-! ## Calls -/

/-- What a table can be asked to do, also while it is filled. -/
inductive Call where
  /-- An object of an image. -/
  | define (n : UInt32) (object : Object)
  /-- An object under the name that it had. -/
  | insert (id : ObjectId) (object : Object) (persistent : Bool)
  /-- The empty slots are opened. -/
  | openHoles
  /-- Counts are worked out anew. -/
  | rebuildCounts (roots : List Value)
  /-- An operation of a caller. -/
  | operate (op : Operation)
  /-- Everything is dropped. -/
  | clear
deriving DecidableEq

/-- The table with one more object put back, unless it cannot be. -/
def withInserted (h : Heap) (d : ObjectId × Object × Bool) : Heap :=
  match insertRestored d.1 d.2.1 d.2.2 h with
  | .ok _ h' => h'
  | .error _ h' => h'

/-- The table after a call, also after one that fails. -/
def after (h : Heap) : Call → Heap
  | .define n object => h.withDefined (n, object)
  | .insert id object persistent => h.withInserted (id, object, persistent)
  | .openHoles => h.openHoles
  | .rebuildCounts roots => h.rebuildCounts roots
  | .operate op => h.performed op
  | .clear => h.clear

/-- The table after some calls. -/
def afterAll (h : Heap) (calls : List Call) : Heap := calls.foldl after h

/-- Whether a table is being filled. -/
inductive Phase where
  /-- Objects are put under given names. -/
  | filling
  /-- The slots are open to new objects. -/
  | ready
deriving DecidableEq

namespace Phase

/-- The phase after a call, if the call is made in the one before. -/
def after? : Phase → Call → Option Phase
  | filling, .define _ _ => some filling
  | filling, .insert _ _ _ => some filling
  | filling, .openHoles => some ready
  | ready, .operate _ => some ready
  | ready, .rebuildCounts _ => some ready
  | ready, .clear => some filling
  | _, _ => none

/-- The phase after some calls. -/
def afterAll? (phase : Phase) (calls : List Call) : Option Phase := calls.foldlM after? phase

end Phase

/-! ## Objects put into slots -/

/-- An object goes under a name into a slot that is empty, or nothing is changed. -/
inductive Puts (h : Heap) (id : ObjectId) (o : Occupant) : Heap → Prop
  /-- The name cannot be given. -/
  | refused : Puts h id o h
  /-- The object is there. -/
  | placed (hzero : id.index ≠ 0) (hlt : id.index.toNat < h.settings.maxObjects.toNat)
      (hempty : h.isOccupied id.index.toNat = false) :
      Puts h id o { h.place id.index.toNat ⟨id.generation, some o⟩ with live := h.live + 1 }

theorem withDefined_puts (h : Heap) (n : UInt32) (object : Object) :
    h.Puts (.ofImage n) ⟨object, 0, true⟩ (h.withDefined (n, object)) := by
  rcases h.define_cases n object with ⟨e, herr⟩ | ⟨hzero, hlt, hempty, hok⟩
  · rw [withDefined, herr]
    exact .refused
  · rw [withDefined, hok]
    exact .placed hzero hlt hempty

theorem grow_eq_self (hocc : h.isOccupied i = true) : h.grow i = h := by
  obtain ⟨s, -, hs, -⟩ := isOccupied_iff.1 hocc
  rw [grow, if_pos (Array.getElem?_eq_some_iff.1 hs).1]

theorem withInserted_puts (h : Heap) (id : ObjectId) (object : Object) (persistent : Bool) :
    h.Puts id ⟨object, 0, persistent⟩ (h.withInserted (id, object, persistent)) := by
  cases hid : h.checkRestorable id with
  | error e =>
    have herr : insertRestored id object persistent h = .error e h := by
      simp only [insertRestored, bind, EStateM.bind, get, getThe, MonadStateOf.get, EStateM.get,
        hid, throw, throwThe, MonadExceptOf.throw, EStateM.throw]
    rw [withInserted, herr]
    exact .refused
  | ok _ =>
    cases hocc : h.isOccupied id.index.toNat with
    | true =>
      have herr : insertRestored id object persistent h = .error (.duplicateObject id.index) h := by
        simp only [insertRestored, bind, EStateM.bind, get, getThe, MonadStateOf.get, EStateM.get,
          hid, modify, modifyGet, MonadStateOf.modifyGet, EStateM.modifyGet,
          grow_eq_self hocc, hocc, if_true, throw, throwThe, MonadExceptOf.throw, EStateM.throw]
      rw [withInserted, herr]
      exact .refused
    | false =>
      obtain ⟨hzero, hlt⟩ := checkRestorable_eq_ok_iff.1 hid
      rw [withInserted, insertRestored_eq_ok object persistent hid hocc]
      exact .placed hzero hlt hocc

/-! ## Slots after a change -/

theorem isOccupied_vacate (h : Heap) (i j : Nat) :
    (h.vacate i).isOccupied j = (h.isOccupied j && i != j) := by
  cases hocc : h.isOccupied i with
  | false =>
    rw [vacate, if_neg (by simp [hocc])]
    by_cases hij : i = j
    · rw [← hij, hocc, Bool.false_and]
    · rw [bne_iff_ne.2 hij, Bool.and_true]
  | true =>
    obtain ⟨s, o, hs, hso⟩ := isOccupied_iff.1 hocc
    unfold isOccupied
    rw [getElem?_vacate hs hso]
    by_cases hij : i = j
    · simp [hij]
    · rw [if_neg hij, bne_iff_ne.2 hij, Bool.and_true]

theorem isOccupied_occupy (hs : h.slots[i]? = some s) (object : Object) (j : Nat) :
    (h.occupy i object).isOccupied j = (h.isOccupied j || i == j) := by
  unfold isOccupied
  rw [getElem?_occupy]
  by_cases hij : i = j
  · rw [if_pos hij, ← hij, hs]
    simp
  · rw [if_neg hij, beq_false_of_ne hij, Bool.or_false]

theorem size_occupy (h : Heap) (i : Nat) (object : Object) :
    (h.occupy i object).slots.size = h.slots.size :=
  size_modifySlot h i _

theorem occupied_occupy (hs : h.slots[i]? = some s) (hso : s.occupant? = none) (object : Object) :
    (h.occupy i object).occupied = h.occupied + 1 := by
  obtain ⟨hlt, rfl⟩ := Array.getElem?_eq_some_iff.1 hs
  have hslots : (h.occupy i object).slots =
      (h.modifySlot i fun s => { s with occupant? := some ⟨object, 1, false⟩ }).slots := rfl
  rw [occupied, hslots, modifySlot, hs, occupied]
  simp [Array.setIfInBounds, hlt, Array.countP_set, hso]

/-- A slot more, which is empty. -/
def push (h : Heap) : Heap := { h with slots := h.slots.push { generation := 1 } }

theorem isOccupied_push (h : Heap) (j : Nat) : h.push.isOccupied j = h.isOccupied j := by
  unfold isOccupied push
  rw [Array.getElem?_push]
  by_cases hj : j = h.slots.size
  · rw [if_pos hj, hj, Array.getElem?_eq_none (Nat.le_refl _)]
    rfl
  · rw [if_neg hj]

/-- The objects may have changed, but none has come or gone. -/
structure Keeps (h h' : Heap) : Prop where
  /-- The slots are in their generations and occupied as before. -/
  slots : ∀ j : Nat, h'.slots[j]?.map (fun s => (s.generation, s.occupant?.isSome)) =
    h.slots[j]?.map fun s => (s.generation, s.occupant?.isSome)
  /-- The settings are for good. -/
  settings : h'.settings = h.settings
  /-- The free slots are the same. -/
  free : h'.free = h.free
  /-- So is the number of objects. -/
  live : h'.live = h.live

namespace Keeps

theorem of_slots (hslots : h'.slots = h.slots) (hsettings : h'.settings = h.settings)
    (hfree : h'.free = h.free) (hlive : h'.live = h.live) : h.Keeps h' :=
  ⟨fun _ => by rw [hslots], hsettings, hfree, hlive⟩

theorem isSome (hk : h.Keeps h') (j : Nat) :
    h'.slots[j]?.map (·.occupant?.isSome) = h.slots[j]?.map (·.occupant?.isSome) := by
  have hj := congrArg (Option.map Prod.snd) (hk.slots j)
  rwa [Option.map_map, Option.map_map] at hj

theorem generation (hk : h.Keeps h') (j : Nat) :
    h'.slots[j]?.map Slot.generation = h.slots[j]?.map Slot.generation := by
  have hj := congrArg (Option.map Prod.fst) (hk.slots j)
  rwa [Option.map_map, Option.map_map] at hj

theorem isOccupied (hk : h.Keeps h') (j : Nat) : h'.isOccupied j = h.isOccupied j :=
  isOccupied_congr (hk.isSome j)

theorem size (hk : h.Keeps h') : h'.slots.size = h.slots.size := by
  have hmap : h'.slots.map (·.occupant?.isSome) = h.slots.map (·.occupant?.isSome) := by
    apply Array.ext_getElem?
    intro j
    simpa using hk.isSome j
  simpa using congrArg Array.size hmap

theorem modifyOccupant (h : Heap) (id : ObjectId) (f : Occupant → Occupant) :
    h.Keeps (h.modifyOccupant id f) where
  slots j := by
    rw [Heap.modifyOccupant, getElem?_modifySlot]
    split
    · rw [Option.map_map]
      congr 1
      funext s
      rw [Function.comp_apply]
      split
      · rw [Option.isSome_map]
      · rfl
    · rfl
  settings := by rw [Heap.modifyOccupant, modifySlot_eq]
  free := by rw [Heap.modifyOccupant, modifySlot_eq]
  live := by rw [Heap.modifyOccupant, modifySlot_eq]

theorem rebuildCounts (h : Heap) (roots : List Value) : h.Keeps (h.rebuildCounts roots) := by
  obtain ⟨hsettings, hfree, hlive, -⟩ := h.frame_rebuildCounts roots
  refine ⟨h.map_slots_rebuildCounts roots fun s => ?_, hsettings, hfree, hlive⟩
  rw [Slot.uncounted, Option.isSome_map]

end Keeps

/-- A change that makes no object frees one or keeps them all. -/
theorem Touch.keeps_or_vacates (ht : h.Touch h') :
    h.Keeps h' ∨ ∃ i, h.isOccupied i = true ∧ h' = h.vacate i := by
  cases ht with
  | vacate i hocc _ => exact .inr ⟨i, hocc, rfl⟩
  | modify id _ _ => exact .inl (.modifyOccupant h id _)
  | aside hslots hsettings hfree hlive _ _ => exact .inl (.of_slots hslots hsettings hfree hlive)

/-! ## At all times -/

/-- What is true of a table whatever has been asked of it, and in whichever order. -/
structure Bounded (settings : HeapSettings) (h : Heap) : Prop where
  /-- The settings are for good. -/
  settings_eq : h.settings = settings
  /-- The first slot is always there. -/
  size_pos : 0 < h.slots.size
  /-- There are no more slots than the settings allow. -/
  size_le : h.slots.size ≤ settings.maxObjects.toNat
  /-- The first slot is never used. -/
  reserved : h.isOccupied 0 = false
  /-- Only slots that are there are free, and not the first one. -/
  free_lt : ∀ n ∈ h.free, n ≠ 0 ∧ n.toNat < h.slots.size

namespace Bounded

/-- A table with room for an object. -/
theorem new_of_room (hroom : HeapSettings.reserved < settings.maxObjects) :
    (Heap.new settings).Bounded settings := by
  have hslots : (Heap.new settings).slots = #[{}] := rfl
  rw [UInt32.lt_iff_toNat_lt] at hroom
  refine ⟨rfl, by simp [hslots], ?_, by simp [isOccupied, hslots], fun n hn => ?_⟩
  · rw [hslots]
    exact hroom.le
  · exact absurd hn List.not_mem_nil

theorem new (hsettings : settings.problem? = none) : (Heap.new settings).Bounded settings := by
  refine new_of_room (UInt32.not_le.1 fun hle => ?_)
  rw [HeapSettings.problem?, if_pos hle] at hsettings
  cases hsettings

theorem size_lt (hb : h.Bounded settings) : h.slots.size < 2 ^ 32 :=
  hb.size_le.trans_lt settings.maxObjects.toNat_lt

theorem keeps (hb : h.Bounded settings) (hk : h.Keeps h') : h'.Bounded settings where
  settings_eq := hk.settings.trans hb.settings_eq
  size_pos := hk.size ▸ hb.size_pos
  size_le := hk.size ▸ hb.size_le
  reserved := (hk.isOccupied 0).trans hb.reserved
  free_lt := by
    rw [hk.free, hk.size]
    exact hb.free_lt

/-- An object is in a slot that has a number, and not in the first one. -/
theorem exists_toNat (hb : h.Bounded settings) (hocc : h.isOccupied i = true) :
    ∃ n : UInt32, n ≠ 0 ∧ n.toNat < h.slots.size ∧ n.toNat = i := by
  obtain ⟨s, -, hs, -⟩ := isOccupied_iff.1 hocc
  have hi := (Array.getElem?_eq_some_iff.1 hs).1
  have hn : (UInt32.ofNat i).toNat = i := UInt32.toNat_ofNat_of_lt (hi.trans hb.size_lt)
  refine ⟨.ofNat i, fun h0 => ?_, hn.symm ▸ hi, hn⟩
  rw [← hn, h0, UInt32.toNat_zero, hb.reserved] at hocc
  cases hocc

theorem vacate (hb : h.Bounded settings) (hocc : h.isOccupied i = true) :
    (h.vacate i).Bounded settings := by
  obtain ⟨s, o, hs, hso⟩ := isOccupied_iff.1 hocc
  obtain ⟨n, hn0, hlt, rfl⟩ := hb.exists_toNat hocc
  refine ⟨(settings_vacate h _).trans hb.settings_eq, ?_, ?_, ?_, fun m hm => ?_⟩
  · exact (size_vacate h _).symm ▸ hb.size_pos
  · exact (size_vacate h _).symm ▸ hb.size_le
  · rw [isOccupied_vacate, hb.reserved, Bool.false_and]
  · rw [size_vacate]
    rw [free_vacate hs hso, UInt32.ofNat_toNat, List.mem_cons] at hm
    rcases hm with rfl | hm
    · exact ⟨hn0, hlt⟩
    · exact hb.free_lt m hm

theorem touch (hb : h.Bounded settings) (ht : h.Touch h') : h'.Bounded settings := by
  rcases ht.keeps_or_vacates with hk | ⟨i, hocc, rfl⟩
  · exact hb.keeps hk
  · exact hb.vacate hocc

theorem touches (hb : h.Bounded settings) (ht : h.Touches h') : h'.Bounded settings := by
  induction ht with
  | refl => exact hb
  | tail _ ht ih => exact ih.touch ht

theorem puts {o : Occupant} (hb : h.Bounded settings) (hp : h.Puts id o h') :
    h'.Bounded settings := by
  cases hp with
  | refused => exact hb
  | placed hzero hlt hempty =>
    have hne : id.index.toNat ≠ 0 := fun he => hzero (UInt32.toNat_inj.1 he)
    have hsize := size_place h id.index.toNat ⟨id.generation, some o⟩
    have hle := hb.size_le
    rw [hb.settings_eq] at hlt
    refine ⟨(settings_place ..).trans hb.settings_eq, ?_, ?_, ?_, fun n hn => ?_⟩
    · change 0 < (h.place _ _).slots.size
      omega
    · change (h.place _ _).slots.size ≤ _
      omega
    · change (h.place _ _).isOccupied 0 = false
      rw [isOccupied_place, if_neg hne]
      exact hb.reserved
    · change n ≠ 0 ∧ n.toNat < (h.place _ _).slots.size
      obtain ⟨hn0, hnlt⟩ := hb.free_lt n (free_place h _ _ ▸ hn)
      exact ⟨hn0, hsize ▸ hnlt.trans_le (le_max_left _ _)⟩

theorem openHoles (hb : h.Bounded settings) : h.openHoles.Bounded settings := by
  have hop := opened_openHoles hb.size_lt
  refine ⟨hop.frame.2.1.trans hb.settings_eq, ?_, ?_, ?_, fun n hn => ?_⟩
  · exact hop.size ▸ hb.size_pos
  · exact hop.size ▸ hb.size_le
  · exact (hop.isOccupied 0).trans hb.reserved
  · obtain ⟨hn0, hnlt, -⟩ := (hop.free n).1 hn
    exact ⟨hn0, hop.size ▸ hnlt⟩

theorem clear (hb : h.Bounded settings) : h.clear.Bounded settings where
  settings_eq := hb.settings_eq
  size_pos := h.size_clear ▸ hb.size_pos
  size_le := h.size_clear ▸ hb.size_le
  reserved := h.isOccupied_clear 0
  free_lt _ hn := absurd hn List.not_mem_nil

/-- A new object takes a slot that is there. -/
theorem occupy (hb : h.Bounded settings) (hs : h.slots[i]? = some s) (hi : i ≠ 0)
    (object : Object) : (h.occupy i object).Bounded settings := by
  have hsize := h.size_occupy i object
  refine ⟨?_, hsize ▸ hb.size_pos, hsize ▸ hb.size_le, ?_, ?_⟩
  · rw [Heap.occupy, modifySlot_eq]
    exact hb.settings_eq
  · rw [isOccupied_occupy hs, hb.reserved, Bool.false_or, beq_eq_false_iff_ne]
    exact hi
  · rw [hsize, Heap.occupy, modifySlot_eq]
    exact hb.free_lt

theorem withFree (hb : h.Bounded settings) {free : List UInt32} (hfree : ∀ n ∈ free, n ∈ h.free) :
    Bounded settings { h with free } :=
  ⟨hb.settings_eq, hb.size_pos, hb.size_le, hb.reserved, fun n hn => hb.free_lt n (hfree n hn)⟩

theorem push (hb : h.Bounded settings) (hroom : h.slots.size < settings.maxObjects.toNat) :
    h.push.Bounded settings := by
  have hsize : h.push.slots.size = h.slots.size + 1 := Array.size_push ..
  refine ⟨hb.settings_eq, by omega, by omega, (isOccupied_push h 0).trans hb.reserved,
    fun n hn => ?_⟩
  obtain ⟨hn0, hnlt⟩ := hb.free_lt n hn
  exact ⟨hn0, by omega⟩

end Bounded

/-! ## New objects -/

/-- What comes of asking for a new object. -/
inductive Makes (h : Heap) (object : Object) : EStateM.Result HeapError Heap ObjectId → Prop
  /-- It takes the first free slot. -/
  | first {n : UInt32} {rest : List UInt32} {s : Slot} (hfree : h.free = n :: rest)
      (hs : h.slots[n.toNat]? = some s) :
      Makes h object (.ok ⟨n, s.generation⟩ ({ h with free := rest }.occupy n.toNat object))
  /-- There is no slot for it. -/
  | none (hfree : h.free = []) (hfull : h.slots.size = h.settings.maxObjects.toNat) :
      Makes h object (.error (.outOfMemory h.settings.maxObjects) h)
  /-- It gets a slot of its own. -/
  | more (hfree : h.free = []) (hroom : h.slots.size < h.settings.maxObjects.toNat) :
      Makes h object (.ok ⟨UInt32.ofNat h.slots.size, 1⟩ (h.push.occupy h.slots.size object))

theorem Bounded.makes (hb : h.Bounded settings) (object : Object) :
    h.Makes object (alloc object h) := by
  have hsize : (UInt32.ofNat h.slots.size).toNat = h.slots.size :=
    UInt32.toNat_ofNat_of_lt hb.size_lt
  cases hfree : h.free with
  | cons n rest =>
    have hs := Array.getElem?_eq_getElem (hb.free_lt n (hfree ▸ List.mem_cons_self)).2
    rw [alloc_of_cons hfree, hs]
    exact .first hfree hs
  | nil =>
    by_cases hfull : h.settings.maxObjects ≤ UInt32.ofNat h.slots.size
    · rw [alloc_of_full hfree hfull]
      refine .none hfree (le_antisymm ?_ ?_)
      · rw [hb.settings_eq]
        exact hb.size_le
      · rwa [UInt32.le_iff_toNat_le, hsize] at hfull
    · rw [alloc_of_nil hfree hfull, hsize]
      refine .more hfree ?_
      rwa [UInt32.le_iff_toNat_le, hsize, not_le] at hfull

/-- Nothing is changed, or there is a new object. -/
theorem Bounded.performed_alloc (hb : h.Bounded settings) (object : Object) :
    h.performed (.alloc object) = h ∨ ∃ id, alloc object h = .ok id (h.performed (.alloc object)) := by
  have hm := hb.makes object
  cases hok : Heap.alloc object h with
  | ok id h' => exact .inr ⟨id, by rw [performed_of_ok rfl hok]⟩
  | error e h' =>
    rw [hok] at hm
    cases hm
    exact .inl (performed_of_error rfl hok)

theorem getElem?_push_size (h : Heap) : h.push.slots[h.slots.size]? = some { generation := 1 } :=
  Array.getElem?_push_size

protected theorem Bounded.alloc {object : Object} (hb : h.Bounded settings)
    (hok : Heap.alloc object h = .ok id h') : h'.Bounded settings := by
  have hm := hb.makes object
  rw [hok] at hm
  cases hm with
  | @first n rest s hfree hs =>
    have hn0 := (hb.free_lt n (hfree ▸ List.mem_cons_self)).1
    have hrest : ∀ m ∈ rest, m ∈ h.free := fun m hm => hfree ▸ List.mem_cons_of_mem n hm
    exact (hb.withFree hrest).occupy hs (fun he => hn0 (UInt32.toNat_inj.1 he)) object
  | more _ hroom =>
    rw [hb.settings_eq] at hroom
    exact (hb.push hroom).occupy h.getElem?_push_size hb.size_pos.ne' object

theorem Bounded.size_le_alloc {object : Object} (hb : h.Bounded settings)
    (hok : Heap.alloc object h = .ok id h') : h.slots.size ≤ h'.slots.size := by
  have hm := hb.makes object
  rw [hok] at hm
  cases hm with
  | @first n rest _ _ _ => exact (size_occupy { h with free := rest } n.toNat object).ge
  | more _ _ =>
    rw [size_occupy, Heap.push, Array.size_push]
    exact Nat.le_succ _

theorem Bounded.after (hb : h.Bounded settings) (call : Call) :
    (h.after call).Bounded settings := by
  cases call with
  | define n object => exact hb.puts (withDefined_puts h n object)
  | insert id object persistent => exact hb.puts (withInserted_puts h id object persistent)
  | openHoles => exact hb.openHoles
  | rebuildCounts roots => exact hb.keeps (.rebuildCounts h roots)
  | clear => exact hb.clear
  | operate op =>
    by_cases hop : ∃ object, op = .alloc object
    · obtain ⟨object, rfl⟩ := hop
      change (h.performed (.alloc object)).Bounded settings
      rcases hb.performed_alloc object with hsame | ⟨id, hok⟩
      · rwa [hsame]
      · exact hb.alloc hok
    · exact hb.touches (performed_touches fun object he => hop ⟨object, he⟩)

/-- No slot is ever given back. -/
theorem Bounded.size_le_after (hb : h.Bounded settings) (call : Call) :
    h.slots.size ≤ (h.after call).slots.size := by
  have hputs {id : ObjectId} {o : Occupant} {h' : Heap} (hp : h.Puts id o h') :
      h.slots.size ≤ h'.slots.size := by
    cases hp with
    | refused => exact le_rfl
    | placed _ _ _ => exact (size_place ..).symm ▸ le_max_left _ _
  cases call with
  | define n object => exact hputs (withDefined_puts h n object)
  | insert id object persistent => exact hputs (withInserted_puts h id object persistent)
  | openHoles => exact (opened_openHoles hb.size_lt).size.ge
  | rebuildCounts roots => exact (size_rebuildCounts h roots).ge
  | clear => exact h.size_clear.ge
  | operate op =>
    by_cases hop : ∃ object, op = .alloc object
    · obtain ⟨object, rfl⟩ := hop
      change h.slots.size ≤ (h.performed (.alloc object)).slots.size
      rcases hb.performed_alloc object with hsame | ⟨id, hok⟩
      · rw [hsame]
      · exact hb.size_le_alloc hok
    · exact (performed_touches fun object he => hop ⟨object, he⟩).ages.size.ge

theorem Bounded.afterAll (hb : h.Bounded settings) (calls : List Call) :
    (h.afterAll calls).Bounded settings :=
  List.foldlRecOn calls _ hb fun _ hb call _ => hb.after call

theorem Bounded.size_le_afterAll (hb : h.Bounded settings) (calls : List Call) :
    h.slots.size ≤ (h.afterAll calls).slots.size := by
  induction calls generalizing h with
  | nil => exact le_rfl
  | cons call calls ih => exact (hb.size_le_after call).trans (ih (hb.after call))

/-! ## While objects are counted -/

/-- A table whose objects are counted. -/
structure Tallied (settings : HeapSettings) (h : Heap) : Prop extends h.Bounded settings where
  /-- The number of objects is that of occupied slots. -/
  live_eq : h.live = h.occupied

namespace Tallied

theorem puts {o : Occupant} (ht : h.Tallied settings) (hp : h.Puts id o h') :
    h'.Tallied settings := by
  refine ⟨ht.toBounded.puts hp, ?_⟩
  cases hp with
  | refused => exact ht.live_eq
  | placed _ _ hempty =>
    change h.live + 1 = (h.place _ _).occupied
    rw [occupied_place hempty rfl, ht.live_eq]

theorem keeps (ht : h.Tallied settings) (hk : h.Keeps h') : h'.Tallied settings :=
  ⟨ht.toBounded.keeps hk, by rw [hk.live, ht.live_eq, occupied_congr hk.isSome]⟩

theorem vacate (ht : h.Tallied settings) (hocc : h.isOccupied i = true) :
    (h.vacate i).Tallied settings :=
  ⟨ht.toBounded.vacate hocc, live_vacate ht.live_eq i⟩

end Tallied

theorem occupied_of_forall (hempty : ∀ i, h.isOccupied i = false) : h.occupied = 0 := by
  rw [occupied_eq_countP, List.countP_eq_zero]
  exact fun i _ => by simp [hempty i]

theorem Bounded.tallied_clear (hb : h.Bounded settings) : h.clear.Tallied settings :=
  ⟨hb.clear, (occupied_of_forall h.isOccupied_clear).symm⟩

theorem tallied_new (hsettings : settings.problem? = none) : (Heap.new settings).Tallied settings :=
  ⟨.new hsettings, rfl⟩

/-! ## Once slots are open -/

/-- A table that is open to new objects. -/
structure Ready (settings : HeapSettings) (h : Heap) : Prop extends h.Tallied settings where
  /-- No slot is free twice. -/
  nodup : h.free.Nodup
  /-- The free slots are the empty ones, but for the first. -/
  mem_free : ∀ n, n ∈ h.free ↔ n ≠ 0 ∧ n.toNat < h.slots.size ∧ h.isOccupied n.toNat = false
  /-- None of them is in the generation of image objects. -/
  generation : ∀ n ∈ h.free, ∀ s, h.slots[n.toNat]? = some s → s.generation ≠ 0

theorem Tallied.openHoles (ht : h.Tallied settings) : h.openHoles.Ready settings := by
  have hop := opened_openHoles ht.size_lt
  refine ⟨⟨ht.toBounded.openHoles, ?_⟩, hop.nodup, fun n => ?_, fun n hn s hs => ?_⟩
  · rw [live_openHoles, hop.occupied, ht.live_eq]
  · rw [hop.free, hop.size, hop.isOccupied]
  · obtain ⟨hn0, -, hempty⟩ := (hop.free n).1 hn
    have hne : n.toNat ≠ 0 := fun he => hn0 (UInt32.toNat_inj.1 he)
    rw [hop.slots, if_pos ⟨hne, hempty⟩] at hs
    obtain ⟨s, -, rfl⟩ := Option.map_eq_some_iff.1 hs
    exact s.generation_opened.1

namespace Ready

theorem keeps (hr : h.Ready settings) (hk : h.Keeps h') : h'.Ready settings := by
  refine ⟨hr.toTallied.keeps hk, hk.free ▸ hr.nodup, fun n => ?_, fun n hn s' hs' => ?_⟩
  · rw [hk.free, hk.size, hk.isOccupied]
    exact hr.mem_free n
  · have hgeneration := hk.generation n.toNat
    rw [hs', Option.map_some] at hgeneration
    obtain ⟨s, hs, hg⟩ := Option.map_eq_some_iff.1 hgeneration.symm
    exact hg ▸ hr.generation n (hk.free ▸ hn) s hs

theorem vacate (hr : h.Ready settings) (hocc : h.isOccupied i = true) :
    (h.vacate i).Ready settings := by
  obtain ⟨s, o, hs, hso⟩ := isOccupied_iff.1 hocc
  obtain ⟨n, hn0, hlt, rfl⟩ := hr.exists_toNat hocc
  have hfree : (h.vacate n.toNat).free = n :: h.free := by
    rw [free_vacate hs hso, UInt32.ofNat_toNat]
  have hnew : n ∉ h.free := fun hmem => by
    rw [((hr.mem_free n).1 hmem).2.2] at hocc
    cases hocc
  refine ⟨hr.toTallied.vacate hocc, ?_, fun m => ?_, fun m hm t ht => ?_⟩
  · rw [hfree]
    exact List.nodup_cons.2 ⟨hnew, hr.nodup⟩
  · rw [hfree, size_vacate, isOccupied_vacate, List.mem_cons, hr.mem_free]
    by_cases hmn : m = n
    · simp [hmn, hn0, hlt]
    · have hne : n.toNat ≠ m.toNat := fun he => hmn (UInt32.toNat_inj.1 he.symm)
      simp [hmn, hne]
  · rw [getElem?_vacate hs hso] at ht
    split at ht
    · rw [← Option.some.inj ht]
      exact s.generation_vacated_ne_zero
    · next hne =>
      rw [hfree, List.mem_cons] at hm
      exact hr.generation m (hm.resolve_left fun he => hne (he ▸ rfl)) t ht

theorem touch (hr : h.Ready settings) (ht : h.Touch h') : h'.Ready settings := by
  rcases ht.keeps_or_vacates with hk | ⟨i, hocc, rfl⟩
  · exact hr.keeps hk
  · exact hr.vacate hocc

theorem touches (hr : h.Ready settings) (ht : h.Touches h') : h'.Ready settings := by
  induction ht with
  | refl => exact hr
  | tail _ ht ih => exact ih.touch ht

/-- An object is put into a slot that is open and no longer free. -/
theorem occupy (ht : h.Tallied settings) (hs : h.slots[i]? = some s) (hso : s.occupant? = none)
    (hi : i ≠ 0) (hnodup : h.free.Nodup)
    (hmem : ∀ n, n ∈ h.free ↔
      n ≠ 0 ∧ n.toNat < h.slots.size ∧ h.isOccupied n.toNat = false ∧ n.toNat ≠ i)
    (hgeneration : ∀ n ∈ h.free, ∀ s, h.slots[n.toNat]? = some s → s.generation ≠ 0)
    (object : Object) : (h.occupy i object).Ready settings := by
  have hfree : (h.occupy i object).free = h.free := by rw [Heap.occupy, modifySlot_eq]
  have hsize := h.size_occupy i object
  refine ⟨⟨ht.toBounded.occupy hs hi object, ?_⟩, hfree ▸ hnodup, fun n => ?_, fun n hn t ht' => ?_⟩
  · rw [occupied_occupy hs hso, ← ht.live_eq, Heap.occupy, modifySlot_eq]
  · rw [hfree, hmem, hsize, isOccupied_occupy hs, Bool.or_eq_false_iff, beq_eq_false_iff_ne,
      ne_comm (a := i)]
  · rw [hfree] at hn
    have hne : i ≠ n.toNat := ((hmem n).1 hn).2.2.2.symm
    rw [getElem?_occupy, if_neg hne] at ht'
    exact hgeneration n hn t ht'

protected theorem alloc {object : Object} (hr : h.Ready settings)
    (hok : Heap.alloc object h = .ok id h') : h'.Ready settings := by
  have hm := hr.makes object
  rw [hok] at hm
  cases hm with
  | @first n rest s hfree hs =>
    obtain ⟨hn0, hlt, hempty⟩ := (hr.mem_free n).1 (hfree ▸ List.mem_cons_self)
    have hso := occupant?_eq_none_of_isOccupied hempty hs
    have hnodup := hr.nodup
    rw [hfree, List.nodup_cons] at hnodup
    -- No slot is on the list twice, so the one that is filled is no longer on it.
    have hrest (m : UInt32) : m ∈ rest ↔ m ∈ h.free ∧ m ≠ n := by
      rw [hfree, List.mem_cons]
      refine ⟨fun hm => ⟨.inr hm, fun he => hnodup.1 (he ▸ hm)⟩, fun hm => hm.1.resolve_left hm.2⟩
    refine occupy (h := { h with free := rest }) ?_ hs hso
      (fun he => hn0 (UInt32.toNat_inj.1 he)) hnodup.2 (fun m => ?_) (fun m hm => ?_) object
    · exact ⟨hr.toBounded.withFree fun m hm => ((hrest m).1 hm).1, hr.live_eq⟩
    · change m ∈ rest ↔ m ≠ 0 ∧ m.toNat < h.slots.size ∧ h.isOccupied m.toNat = false ∧ _
      have hne : m ≠ n ↔ m.toNat ≠ n.toNat := UInt32.toNat_inj.not.symm
      rw [hrest, hr.mem_free, hne, and_assoc, and_assoc]
    · exact hr.generation m ((hrest m).1 hm).1
  | more hfree hroom =>
    rw [hr.settings_eq] at hroom
    have hlive : h.push.live = h.push.occupied := by
      refine hr.live_eq.trans ?_
      simp [occupied, push]
    refine occupy ⟨hr.toBounded.push hroom, hlive⟩ h.getElem?_push_size rfl hr.size_pos.ne' ?_
      (fun m => ?_) (fun m hm => ?_) object
    · exact hr.nodup
    · -- There was no other empty slot.
      have hnone : m ∉ h.free := hfree ▸ List.not_mem_nil
      have hsize : h.push.slots.size = h.slots.size + 1 := Array.size_push ..
      rw [isOccupied_push, hsize]
      refine ⟨fun hm => absurd hm hnone, fun hm => ?_⟩
      obtain ⟨hm0, hlt, hempty, hne⟩ := hm
      exact absurd ((hr.mem_free m).2 ⟨hm0, by omega, hempty⟩) hnone
    · exact absurd hm (hfree ▸ List.not_mem_nil)

protected theorem performed (hr : h.Ready settings) (op : Operation) :
    (h.performed op).Ready settings := by
  by_cases hop : ∃ object, op = .alloc object
  · obtain ⟨object, rfl⟩ := hop
    rcases hr.performed_alloc object with hsame | ⟨id, hok⟩
    · rwa [hsame]
    · exact hr.alloc hok
  · exact hr.touches (performed_touches fun object he => hop ⟨object, he⟩)

/-! ## How many slots are free -/

/-- Every slot but the first is occupied or free. -/
theorem length_free (hr : h.Ready settings) : h.occupied + h.free.length + 1 = h.slots.size := by
  have hzero : 0 ∉ h.free.map UInt32.toNat := fun hmem => by
    obtain ⟨n, hn, hn0⟩ := List.mem_map.1 hmem
    exact (hr.free_lt n hn).1 (UInt32.toNat_inj.1 hn0)
  have hnodup : (0 :: h.free.map UInt32.toNat).Nodup :=
    List.nodup_cons.2 ⟨hzero, hr.nodup.map fun _ _ => UInt32.toNat_inj.1⟩
  have hempty : ((List.range h.slots.size).filter (fun i => !h.isOccupied i)).Perm
      (0 :: h.free.map UInt32.toNat) := by
    refine (List.perm_ext_iff_of_nodup (List.nodup_range.filter _) hnodup).2 fun i => ?_
    rw [List.mem_filter, List.mem_range, List.mem_cons, List.mem_map, Bool.not_eq_true']
    constructor
    · rintro ⟨hlt, hi⟩
      by_cases hi0 : i = 0
      · exact .inl hi0
      · have hn : (UInt32.ofNat i).toNat = i := UInt32.toNat_ofNat_of_lt (hlt.trans hr.size_lt)
        refine .inr ⟨.ofNat i, (hr.mem_free _).2 ⟨fun h0 => hi0 ?_, hn.symm ▸ hlt, hn.symm ▸ hi⟩, hn⟩
        rw [← hn, h0, UInt32.toNat_zero]
    · rintro (rfl | ⟨n, hn, rfl⟩)
      · exact ⟨hr.size_pos, hr.reserved⟩
      · exact ((hr.mem_free n).1 hn).2
  have hcount := (List.range h.slots.size).length_eq_countP_add_countP h.isOccupied
  have hrest : (List.range h.slots.size).countP (fun i => decide ¬h.isOccupied i = true) =
      h.free.length + 1 := by
    have hlength := hempty.length_eq
    rw [← List.countP_eq_length_filter, List.length_cons, List.length_map] at hlength
    simpa using hlength
  rw [List.length_range, ← occupied_eq_countP, hrest] at hcount
  exact hcount.symm

/-- A new object can be made unless all slots but the first hold one. -/
theorem alloc_eq_error_iff (hr : h.Ready settings) (object : Object) :
    (∃ e h', alloc object h = .error e h') ↔ h.live = settings.maxObjects.toNat - 1 := by
  have hlength := hr.length_free
  have hle := hr.size_le
  have hm := hr.makes object
  rw [hr.live_eq]
  cases hok : Heap.alloc object h with
  | error e h' =>
    rw [hok] at hm
    cases hm with
    | none hfree hfull =>
      rw [hfree, List.length_nil, hfull, hr.settings_eq] at hlength
      refine ⟨fun _ => ?_, fun _ => ⟨_, _, rfl⟩⟩
      omega
  | ok id h' =>
    rw [hok] at hm
    refine ⟨fun ⟨e, h'', he⟩ => (nomatch he), fun hfull => ?_⟩
    cases hm with
    | first hfree hs =>
      rw [hfree, List.length_cons] at hlength
      omega
    | more hfree hroom =>
      rw [hfree, List.length_nil] at hlength
      rw [hr.settings_eq] at hroom
      omega

/-- A new object is put where there was none, and the others stay. -/
theorem occupant?_alloc {object : Object} (hr : h.Ready settings)
    (hok : alloc object h = .ok id h') : h.isOccupied id.index.toNat = false ∧
      ∀ id', h'.occupant? id' = if id' = id then some ⟨object, 1, false⟩ else h.occupant? id' := by
  have hm := hr.makes object
  rw [hok] at hm
  cases hm with
  | @first n rest s hfree hs =>
    refine ⟨((hr.mem_free n).1 (hfree ▸ List.mem_cons_self)).2.2, fun id' => ?_⟩
    exact occupant?_occupy (h := { h with free := rest }) hs rfl rfl object id'
  | more hfree hroom =>
    have hsize : (UInt32.ofNat h.slots.size).toNat = h.slots.size :=
      UInt32.toNat_ofNat_of_lt hr.size_lt
    refine ⟨?_, fun id' => ?_⟩
    · rw [hsize, isOccupied, Array.getElem?_eq_none (Nat.le_refl _)]
    · rw [← occupant?_push h (s := { generation := 1 }) rfl id']
      exact occupant?_occupy h.getElem?_push_size hsize rfl object id'

/-- Where there is an object, at least one is counted. -/
theorem live_pos (hr : h.Ready settings) (hocc : h.isOccupied i = true) : 0 < h.live := by
  obtain ⟨n, -, hlt, rfl⟩ := hr.exists_toNat hocc
  rw [hr.live_eq, occupied_eq_countP, List.countP_pos_iff]
  exact ⟨_, List.mem_range.2 hlt, hocc⟩

end Ready

/-! ## Runs -/

/-- What is true of a table in a phase. -/
def Phase.Fits (settings : HeapSettings) (h : Heap) : Phase → Prop
  | filling => h.Tallied settings
  | ready => h.Ready settings

theorem Phase.Fits.after {phase phase' : Phase} {call : Call} (hf : phase.Fits settings h)
    (hcall : phase.after? call = some phase') : phase'.Fits settings (h.after call) := by
  cases phase with
  | filling =>
    have ht : h.Tallied settings := hf
    cases call with
    | define n object =>
      obtain rfl := Option.some.inj hcall
      exact ht.puts (withDefined_puts h n object)
    | insert id object persistent =>
      obtain rfl := Option.some.inj hcall
      exact ht.puts (withInserted_puts h id object persistent)
    | openHoles =>
      obtain rfl := Option.some.inj hcall
      exact ht.openHoles
    | _ => cases hcall
  | ready =>
    have hr : h.Ready settings := hf
    cases call with
    | operate op =>
      obtain rfl := Option.some.inj hcall
      exact hr.performed op
    | rebuildCounts roots =>
      obtain rfl := Option.some.inj hcall
      exact hr.keeps (.rebuildCounts h roots)
    | clear =>
      obtain rfl := Option.some.inj hcall
      exact hr.tallied_clear
    | _ => cases hcall

/-- The induction is on the calls that are left. -/
theorem Phase.Fits.afterAll {phase phase' : Phase} {calls : List Call} (hf : phase.Fits settings h)
    (hcalls : phase.afterAll? calls = some phase') : phase'.Fits settings (h.afterAll calls) := by
  induction calls generalizing h phase with
  | nil => exact Option.some.inj hcalls ▸ hf
  | cons call calls ih =>
    rw [Phase.afterAll?, List.foldlM_cons] at hcalls
    obtain ⟨phase₁, hcall, hcalls⟩ := Option.bind_eq_some_iff.1 hcalls
    exact ih (hf.after hcall) hcalls

/-- In every phase objects are counted right, and there are no more slots than allowed. When
    slots are open, the free ones are the empty ones. So whenever an object is freed it has
    been counted, a new object is refused exactly if all slots are taken, and it never takes
    the place of another. -/
theorem slots_accounted (settings : HeapSettings) (hsettings : settings.problem? = none)
    (calls : List Call) (phase : Phase) (hphase : Phase.filling.afterAll? calls = some phase) :
    let h := (Heap.new settings).afterAll calls
    h.Tallied settings ∧ (phase = .ready → h.Ready settings ∧
      (∀ op, (∀ object, op ≠ .alloc object) → h.Touches (h.performed op)) ∧
      (∀ g, h.Touches g → ∀ i, g.isOccupied i = true → 0 < g.live) ∧
      ∀ object,
        ((∃ e h', alloc object h = .error e h') ↔ h.live = settings.maxObjects.toNat - 1) ∧
        ∀ id h', alloc object h = .ok id h' → h.isOccupied id.index.toNat = false ∧
          ∀ id', id' ≠ id → h'.occupant? id' = h.occupant? id') := by
  intro h
  have hstart : Phase.filling.Fits settings (Heap.new settings) := tallied_new hsettings
  have hfits : phase.Fits settings h := hstart.afterAll hphase
  cases phase with
  | filling => exact ⟨hfits, fun hready => nomatch hready⟩
  | ready =>
    have hr : h.Ready settings := hfits
    refine ⟨hr.toTallied, fun _ => ⟨hr, fun op hop => performed_touches hop,
      fun g hg i hocc => (hr.touches hg).live_pos hocc, fun object => ⟨hr.alloc_eq_error_iff object,
        fun id h' hok => ?_⟩⟩⟩
    obtain ⟨hempty, hothers⟩ := hr.occupant?_alloc hok
    exact ⟨hempty, fun id' hne => by rw [hothers, if_neg hne]⟩

/-- A table for three objects is filled, used until it is full, cleared and filled again. The
    second time an object is put back under a name of the first time. -/
def refilling : List Call :=
  [.define 2 ⟨0, .list []⟩, .openHoles, .operate (.alloc ⟨0, .list []⟩),
    .operate (.alloc ⟨0, .vector [.obj ⟨1, 1⟩]⟩), .operate (.release ⟨3, 1⟩), .clear,
    .insert ⟨1, 1⟩ ⟨0, .list []⟩ false, .define 3 ⟨0, .list []⟩, .openHoles, .rebuildCounts [],
    .operate (.alloc ⟨0, .list []⟩)]

/-- The table is full again. -/
theorem slots_accounted_refilling :
    let h := (Heap.new { maxObjects := 4 }).afterAll refilling
    h.live = 3 ∧ h.contains ⟨1, 1⟩ = true ∧
      ∃ e h', alloc ⟨0, .list []⟩ h = .error e h' := by
  have hrun := slots_accounted { maxObjects := 4 } (by decide) refilling .ready (by decide)
  refine ⟨by cbv, by cbv, ?_⟩
  exact ((hrun.2 rfl).2.2.2 ⟨0, .list []⟩).1.2 (by cbv)

end StoryMachine.Heap
