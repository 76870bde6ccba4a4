import StoryMachine.Proofs.Heap.Counted
import StoryMachine.Proofs.Value.Portable

/-!
# Tables of image objects

A table is filled with the objects of an image before anything else happens to it.
All of them are persistent, and what they hold are constants and each other.

* `occupant?_place`, `edges_place`: an object put into an empty slot, whether the
  slot exists or not;
* `Heap.Imaged`: a table that holds image objects only;
* `Imaged.define`, `Imaged.openHoles`: how it comes about, and that it is counted
  in the end.
-/

namespace StoryMachine

namespace Heap

variable {stale : Bool} {h h' : Heap} {i j : Nat} {id : ObjectId} {s : Slot} {held : Multiset Value}

/-! ## Placing an object -/

theorem getElem?_grow (h : Heap) (i j : Nat) :
    (h.grow i).slots[j]? =
      if j < h.slots.size then h.slots[j]? else if j ≤ i then some {} else none := by
  unfold grow
  split
  · next hi =>
    split
    · rfl
    · next hj => rw [if_neg (by omega), Array.getElem?_eq_none (not_lt.1 hj)]
  · next hi =>
    simp only [Array.getElem?_append, Array.getElem?_replicate]
    split
    · rfl
    · split_ifs <;> first | rfl | omega

theorem size_grow (h : Heap) (i : Nat) : (h.grow i).slots.size = max h.slots.size (i + 1) := by
  unfold grow
  split
  · omega
  · simp only [Array.size_append, Array.size_replicate]
    omega

theorem edges_grow (h : Heap) (i : Nat) : (h.grow i).edges = h.edges := by
  unfold grow
  split
  · rfl
  · simp [edges]

theorem isOccupied_grow (h : Heap) (i j : Nat) : (h.grow i).isOccupied j = h.isOccupied j := by
  unfold isOccupied
  rw [getElem?_grow]
  split_ifs with hj hij
  · rfl
  · rw [Array.getElem?_eq_none (not_lt.1 hj)]
    rfl
  · rw [Array.getElem?_eq_none (not_lt.1 hj)]

/-- Puts slot `s` in place of slot `i`, which is made to exist. -/
def place (h : Heap) (i : Nat) (s : Slot) : Heap := (h.grow i).modifySlot i fun _ => s

theorem getElem?_place (h : Heap) (i : Nat) (s : Slot) (j : Nat) :
    (h.place i s).slots[j]? = if i = j then some s else (h.grow i).slots[j]? := by
  rw [place, getElem?_modifySlot]
  split
  · next hij =>
    rw [← hij, getElem?_grow]
    split_ifs with hi
    · rw [Array.getElem?_eq_getElem hi, Option.map_some]
    · rfl
    · omega
  · rfl

theorem isOccupied_place_of_ne (h : Heap) (s : Slot) (hne : i ≠ j) :
    (h.place i s).isOccupied j = h.isOccupied j :=
  (isOccupied_eq_of_slot (by rw [getElem?_place, if_neg hne])).trans (isOccupied_grow h i j)

theorem occupant?_place (id : ObjectId) (hempty : h.isOccupied id.index.toNat = false)
    (hg : s.generation = id.generation) (id' : ObjectId) :
    (h.place id.index.toNat s).occupant? id' =
      if id' = id then s.occupant? else h.occupant? id' := by
  unfold occupant?
  rw [getElem?_place]
  by_cases hindex : id.index.toNat = id'.index.toNat
  · rw [if_pos hindex]
    simp only [ObjectId.eq_iff_generation_eq hindex, hg]
    split
    · rfl
    · cases hs : h.slots[id'.index.toNat]? with
      | none => rfl
      | some s' => simp [occupant?_eq_none_of_isOccupied (hindex ▸ hempty) hs]
  · have hne : id' ≠ id := fun he => hindex (he ▸ rfl)
    rw [if_neg hindex, if_neg hne, getElem?_grow]
    split_ifs with hj hij
    · rfl
    · rw [Array.getElem?_eq_none (not_lt.1 hj)]
      simp
    · rw [Array.getElem?_eq_none (not_lt.1 hj)]

theorem edges_place (hempty : h.isOccupied i = false) (s : Slot) :
    ((h.place i s).edges : Multiset Value) = h.edges + s.edges := by
  have hsize : i < (h.grow i).slots.size := by
    rw [size_grow]
    omega
  have hs := Array.getElem?_eq_getElem hsize
  have hso : (h.grow i).slots[i].occupant? = none :=
    occupant?_eq_none_of_isOccupied ((isOccupied_grow h i i).trans hempty) hs
  have := edges_modifySlot hs fun _ => s
  rwa [Slot.edges_empty hso, Multiset.coe_nil, add_zero, edges_grow] at this

/-! ## Filling a table -/

/-- A table with image objects only. -/
structure Imaged (h : Heap) : Prop where
  /-- The first slot is always there. -/
  size_pos : 0 < h.slots.size
  /-- There are no more slots than the settings allow. -/
  size_le : h.slots.size ≤ max 1 h.settings.maxObjects.toNat
  /-- The first slot is never used. -/
  reserved : h.isOccupied 0 = false
  /-- No slot is open to new objects yet. -/
  closed : h.free = []
  /-- Every object is one of the image. -/
  persistent : ∀ id o, h.occupant? id = some o → o.persistent = true ∧ id.generation = 0
  /-- Objects hold constants and image objects. -/
  portable : ∀ v ∈ h.edges, v.Portable
  /-- Nothing is recorded. -/
  silent : h.undo.records = #[] ∧ h.undo.savepoints = []

theorem imaged_new (settings : HeapSettings) : (Heap.new settings).Imaged := by
  have hslots : (Heap.new settings).slots = #[{}] := rfl
  have hempty (id : ObjectId) : (Heap.new settings).occupant? id = none := by
    unfold occupant?
    rw [hslots]
    rcases hi : id.index.toNat with _ | n <;> simp
  refine ⟨?_, ?_, ?_, rfl, fun id o ho => ?_, fun v hv => ?_, rfl, rfl⟩
  · simp [hslots]
  · simp [hslots]
  · simp [isOccupied, hslots]
  · rw [hempty] at ho
    cases ho
  · simp [edges, hslots, Slot.edges] at hv

/-- An object is placed under a number that is free and within the limits. -/
theorem define_eq_ok {h : Heap} {n : UInt32} (hn : n ≠ 0)
    (hlt : n.toNat < h.settings.maxObjects.toNat) (hempty : h.isOccupied n.toNat = false)
    (object : Object) : define n object h = .ok (.ofImage n)
      { h.place n.toNat ⟨0, some ⟨object, 0, true⟩⟩ with live := h.live + 1 } := by
  have hreserved : ¬n < HeapSettings.reserved := fun hlt =>
    hn (UInt32.toNat_inj.1 (Nat.lt_one_iff.1 (UInt32.lt_iff_toNat_lt.1 hlt)))
  have hmax : ¬h.settings.maxObjects ≤ n := fun hle =>
    absurd hlt (not_lt.2 (UInt32.le_iff_toNat_le.1 hle))
  have hlive : (h.place n.toNat ⟨0, some ⟨object, 0, true⟩⟩).live = h.live := by
    simp only [place, modifySlot_eq, grow]
    split <;> rfl
  simp only [Heap.define, bind, EStateM.bind, get, getThe, MonadStateOf.get, EStateM.get,
    hreserved, hmax, if_false, pure, EStateM.pure, modify, modifyGet, MonadStateOf.modifyGet,
    EStateM.modifyGet, isOccupied_grow, hempty, Bool.false_eq_true, ← hlive]
  rfl

/-- A definition fails and changes nothing, or places the object. -/
theorem define_cases (h : Heap) (n : UInt32) (object : Object) :
    (∃ e, define n object h = .error e h) ∨
      (n ≠ 0 ∧ n.toNat < h.settings.maxObjects.toNat ∧ h.isOccupied n.toNat = false ∧
        define n object h = .ok (.ofImage n)
          { h.place n.toNat ⟨0, some ⟨object, 0, true⟩⟩ with live := h.live + 1 }) := by
  by_cases hn : n < HeapSettings.reserved
  · refine .inl ⟨.invalidObject (.ofImage n), ?_⟩
    simp only [Heap.define, bind, EStateM.bind, get, getThe, MonadStateOf.get, EStateM.get, hn,
      if_true, throw, throwThe, MonadExceptOf.throw, EStateM.throw]
  by_cases hmax : h.settings.maxObjects ≤ n
  · refine .inl ⟨.outOfMemory h.settings.maxObjects, ?_⟩
    simp only [Heap.define, bind, EStateM.bind, get, getThe, MonadStateOf.get, EStateM.get, hn,
      hmax, if_true, if_false, pure, throw, throwThe, MonadExceptOf.throw,
      EStateM.throw]
  cases hocc : h.isOccupied n.toNat with
  | true =>
    have hgrow : h.grow n.toNat = h := by
      obtain ⟨s, -, hs, -⟩ := isOccupied_iff.1 hocc
      rw [grow, if_pos (Array.getElem?_eq_some_iff.1 hs).1]
    refine .inl ⟨.duplicateObject n, ?_⟩
    simp only [Heap.define, bind, EStateM.bind, get, getThe, MonadStateOf.get, EStateM.get, hn,
      hmax, if_true, if_false, pure, modify, modifyGet, MonadStateOf.modifyGet,
      EStateM.modifyGet, hgrow, hocc, throw, throwThe, MonadExceptOf.throw, EStateM.throw]
  | false =>
    have hzero : n ≠ 0 := by
      rintro rfl
      exact hn (by decide)
    have hlt : n.toNat < h.settings.maxObjects.toNat :=
      not_le.1 fun hle => hmax (UInt32.le_iff_toNat_le.2 hle)
    exact .inr ⟨hzero, hlt, rfl, define_eq_ok hzero hlt hocc object⟩

@[simp] theorem settings_place (h : Heap) (i : Nat) (s : Slot) :
    (h.place i s).settings = h.settings := by
  simp only [place, modifySlot_eq, grow]
  split <;> rfl

@[simp] theorem undo_place (h : Heap) (i : Nat) (s : Slot) : (h.place i s).undo = h.undo := by
  simp only [place, modifySlot_eq, grow]
  split <;> rfl

@[simp] theorem free_place (h : Heap) (i : Nat) (s : Slot) : (h.place i s).free = h.free := by
  simp only [place, modifySlot_eq, grow]
  split <;> rfl

@[simp] theorem saturated_place (h : Heap) (i : Nat) (s : Slot) :
    (h.place i s).saturated = h.saturated := by
  simp only [place, modifySlot_eq, grow]
  split <;> rfl

@[simp] theorem wrapped_place (h : Heap) (i : Nat) (s : Slot) :
    (h.place i s).wrapped = h.wrapped := by
  simp only [place, modifySlot_eq, grow]
  split <;> rfl

theorem size_place (h : Heap) (i : Nat) (s : Slot) :
    (h.place i s).slots.size = max h.slots.size (i + 1) := by
  rw [place, size_modifySlot, size_grow]

theorem Imaged.define {n : UInt32} {object : Object} (hi : h.Imaged) (hn : n ≠ 0)
    (hlt : n.toNat < h.settings.maxObjects.toNat) (hempty : h.isOccupied n.toNat = false)
    (hobject : ∀ v ∈ object.body.edges, v.Portable) (live : Nat) :
    Imaged { h.place n.toNat ⟨0, some ⟨object, 0, true⟩⟩ with live } where
  size_pos := by
    change 0 < (h.place _ _).slots.size
    rw [size_place]
    omega
  size_le := by
    change (h.place _ _).slots.size ≤ max 1 (h.place _ _).settings.maxObjects.toNat
    have := hi.size_le
    rw [size_place, settings_place]
    omega
  reserved := by
    have hne : n.toNat ≠ 0 := fun he => hn (UInt32.toNat_inj.1 he)
    exact (isOccupied_place_of_ne h _ hne).trans hi.reserved
  closed := (free_place h _ _).trans hi.closed
  persistent id o ho := by
    have hocc := (occupant?_place (.ofImage n) hempty rfl id).symm.trans ho
    split at hocc
    · next hid =>
      rw [← Option.some.inj hocc, hid]
      exact ⟨rfl, rfl⟩
    · exact hi.persistent id o hocc
  portable v hv := by
    have hv' : v ∈ ((h.place n.toNat ⟨0, some ⟨object, 0, true⟩⟩).edges : Multiset Value) := hv
    rw [edges_place hempty, Multiset.mem_add] at hv'
    rcases hv' with hv' | hv'
    · exact hi.portable v hv'
    · exact hobject v hv'
  silent := by
    change (h.place _ _).undo.records = #[] ∧ (h.place _ _).undo.savepoints = []
    rw [undo_place]
    exact hi.silent

/-- What it means that a table has got the image object with a number. -/
structure Defined (h : Heap) (n : UInt32) (h' : Heap) : Prop where
  /-- It has image objects only. -/
  imaged : h'.Imaged
  /-- The new object is there. -/
  new : h'.isPersistent (.ofImage n) = true
  /-- And so are the others. -/
  persistent : ∀ id, h.isPersistent id = true → h'.isPersistent id = true
  /-- Other names that have outlived their objects stay so. -/
  spent : ∀ id : ObjectId, id.index ≠ n → h.Spent id → h'.Spent id
  /-- Nothing else that matters is changed. -/
  frame : h'.settings = h.settings ∧ h'.saturated = h.saturated ∧ h'.wrapped = h.wrapped

theorem Imaged.defined {n : UInt32} {object : Object} (hi : h.Imaged)
    (hobject : ∀ v ∈ object.body.edges, v.Portable) (hok : Heap.define n object h = .ok id h') :
    h.Defined n h' := by
  rcases h.define_cases n object with ⟨e, herr⟩ | ⟨hn, hlt, hempty, hok'⟩
  · rw [herr] at hok
    cases hok
  rw [hok'] at hok
  obtain ⟨-, rfl⟩ := EStateM.Result.ok.inj hok
  have hocc (id' : ObjectId) : (h.place n.toNat ⟨0, some ⟨object, 0, true⟩⟩).occupant? id' =
      if id' = .ofImage n then some ⟨object, 0, true⟩ else h.occupant? id' :=
    occupant?_place (.ofImage n) hempty rfl id'
  refine ⟨hi.define hn hlt hempty hobject _, ?_, fun id' hp => ?_, fun id' hne hs => ?_,
    settings_place .., saturated_place .., wrapped_place ..⟩
  · change (h.place _ _).isPersistent _ = true
    rw [isPersistent, hocc, if_pos rfl]
    rfl
  · change (h.place _ _).isPersistent _ = true
    rw [isPersistent, hocc]
    split
    · rfl
    · exact hp
  · obtain ⟨s, hs, hlt'⟩ := hs
    have hne' : n.toNat ≠ id'.index.toNat := fun he => hne (UInt32.toNat_inj.1 he.symm)
    refine ⟨s, ?_, hlt'⟩
    change (h.place _ _).slots[_]? = _
    rw [getElem?_place, if_neg hne', getElem?_grow, if_pos (Array.getElem?_eq_some_iff.1 hs).1, hs]

/-! ## The slots that are left -/

theorem foldl_opened_eq (h : Heap) (holes : List Nat) :
    ∃ slots : Array Slot,
      holes.foldl (fun h i => h.modifySlot i Slot.opened) h = { h with slots } ∧
      ∀ j : Nat, slots[j]? =
        if j ∈ holes then h.slots[j]?.map Slot.opened else h.slots[j]? := by
  induction holes generalizing h with
  | nil => exact ⟨h.slots, rfl, fun j => by simp⟩
  | cons i holes ih =>
    obtain ⟨slots, heq, hslots⟩ := ih (h.modifySlot i Slot.opened)
    refine ⟨slots, ?_, fun j => ?_⟩
    · rw [List.foldl_cons, heq, modifySlot_eq]
    · rw [hslots, getElem?_modifySlot]
      by_cases hij : i = j
      · cases h.slots[j]? <;> simp [hij, Slot.opened_opened]
      · simp [hij, Ne.symm hij]

theorem edges_congr (hslots : ∀ j : Nat, h'.slots[j]?.map Slot.edges = h.slots[j]?.map Slot.edges) :
    h'.edges = h.edges := by
  have : h'.slots.map Slot.edges = h.slots.map Slot.edges := by
    apply Array.ext_getElem?
    intro j
    simpa using hslots j
  have := congrArg (fun a => (Array.toList a).flatten) this
  simpa [edges, List.flatMap] using this

/-- What is true of a table whose empty slots have been opened. -/
structure Opened (h h' : Heap) : Prop where
  /-- A slot is open if it was empty. -/
  slots : ∀ j : Nat, h'.slots[j]? = if j ≠ 0 ∧ h.isOccupied j = false
    then h.slots[j]?.map Slot.opened else h.slots[j]?
  /-- The open slots are free. -/
  free : ∀ i : UInt32, i ∈ h'.free ↔ i ≠ 0 ∧ i.toNat < h.slots.size ∧ h.isOccupied i.toNat = false
  /-- No slot is free twice. -/
  nodup : h'.free.Nodup
  /-- Nothing else that matters is changed. -/
  frame : h'.undo = h.undo ∧ h'.settings = h.settings ∧ h'.saturated = h.saturated ∧
    h'.wrapped = h.wrapped

theorem opened_openHoles (hsize : h.slots.size < 2 ^ 32) : h.Opened h.openHoles := by
  generalize hholes : (List.range h.slots.size).filter (fun i =>
    HeapSettings.reserved.toNat ≤ i && !h.isOccupied i) = holes
  have hmem (j : Nat) : j ∈ holes ↔ j < h.slots.size ∧ j ≠ 0 ∧ h.isOccupied j = false := by
    rw [← hholes, List.mem_filter, List.mem_range]
    have : HeapSettings.reserved.toNat = 1 := rfl
    simp [this, Nat.one_le_iff_ne_zero]
  obtain ⟨slots, heq, hslots⟩ := foldl_opened_eq h holes
  have hopen : h.openHoles = { h with slots, free := holes.map UInt32.ofNat } := by
    simp only [openHoles, hholes, heq]
  have hofNat {j : Nat} (hj : j ∈ holes) : (UInt32.ofNat j).toNat = j :=
    UInt32.toNat_ofNat_of_lt (((hmem j).1 hj).1.trans hsize)
  rw [hopen]
  refine ⟨fun j => ?_, fun i => ?_, ?_, rfl, rfl, rfl, rfl⟩
  · rw [hslots]
    by_cases hj : j < h.slots.size
    · simp [hmem, hj]
    · simp [Array.getElem?_eq_none (not_lt.1 hj)]
  · rw [List.mem_map]
    constructor
    · rintro ⟨j, hj, rfl⟩
      obtain ⟨hlt, hne, hempty⟩ := (hmem j).1 hj
      rw [hofNat hj]
      refine ⟨fun h0 => hne ?_, hlt, hempty⟩
      rw [← hofNat hj, h0]
      rfl
    · rintro ⟨hne, hlt, hempty⟩
      refine ⟨i.toNat, (hmem _).2 ⟨hlt, fun h0 => hne (UInt32.toNat_inj.1 h0), hempty⟩, ?_⟩
      exact UInt32.ofNat_toNat
  · refine List.Nodup.map_on (fun j hj k hk hjk => ?_) (hholes ▸ List.nodup_range.filter _)
    rw [← hofNat hj, ← hofNat hk, hjk]

theorem Opened.occupant? (hop : h.Opened h') (id : ObjectId) :
    h'.occupant? id = h.occupant? id := by
  unfold Heap.occupant?
  rw [hop.slots]
  by_cases hj : id.index.toNat ≠ 0 ∧ h.isOccupied id.index.toNat = false
  · rw [if_pos hj]
    cases hs : h.slots[id.index.toNat]? with
    | none => rfl
    | some s => simp [occupant?_eq_none_of_isOccupied hj.2 hs]
  · rw [if_neg hj]

theorem Opened.edges (hop : h.Opened h') : h'.edges = h.edges :=
  edges_congr fun j => by
    rw [hop.slots]
    split
    · rw [Option.map_map]
      congr 1
      funext s
      simp [Slot.edges]
    · rfl

theorem Opened.known (hop : h.Opened h') (hk : h.Known stale id) : h'.Known stale id := by
  refine hk.mono (fun hc => ?_) fun s hs => ?_
  · rw [contains, hop.occupant?]
    exact hc
  · rw [hop.slots]
    split
    · exact ⟨s.opened, by rw [hs, Option.map_some], s.generation_opened.2⟩
    · exact ⟨s, hs, le_rfl⟩

theorem Opened.size (hop : h.Opened h') : h'.slots.size = h.slots.size := by
  have hslot (j : Nat) : (h'.slots[j]?).isSome = (h.slots[j]?).isSome := by
    rw [hop.slots]
    split
    · exact Option.isSome_map
    · rfl
  refine le_antisymm (not_lt.1 fun hlt => ?_) (not_lt.1 fun hlt => ?_)
  · have := hslot h.slots.size
    simp [hlt] at this
  · have := hslot h'.slots.size
    simp [hlt] at this

/-- A table whose empty slots have been opened is in order if the objects in it are. -/
theorem Opened.tidy (hop : h.Opened h') (hpos : 0 < h.slots.size)
    (hle : h.slots.size ≤ max 1 h.settings.maxObjects.toNat) (hreserved : h.isOccupied 0 = false)
    (hpersistent : ∀ id o, h.occupant? id = some o → (o.persistent = true ↔ id.generation = 0)) :
    h'.Tidy where
  size_pos := hop.size ▸ hpos
  size_le := by
    rw [hop.size, hop.frame.2.1]
    exact hle
  reserved := (isOccupied_eq_of_slot (by rw [hop.slots, if_neg (by simp)])).trans hreserved
  zero_not_free hmem := ((hop.free 0).1 hmem).1 rfl
  free_nodup := hop.nodup
  free_open i hmem := by
    obtain ⟨hne, hlt, hempty⟩ := (hop.free i).1 hmem
    have hs := Array.getElem?_eq_getElem hlt
    have hne' : i.toNat ≠ 0 := fun h0 => hne (UInt32.toNat_inj.1 h0)
    refine ⟨h.slots[i.toNat].opened, ?_, ?_, (Slot.generation_opened _).1⟩
    · rw [hop.slots, if_pos ⟨hne', hempty⟩, hs, Option.map_some]
    · rw [Slot.occupant?_opened, occupant?_eq_none_of_isOccupied hempty hs]
  persistent_iff id o ho := hpersistent id o (hop.occupant? id ▸ ho)

theorem Imaged.opened (hi : h.Imaged) : h.Opened h.openHoles :=
  opened_openHoles (hi.size_le.trans_lt (max_lt (by decide) h.settings.maxObjects.toNat_lt))

/-- A table of image objects is counted, whatever the caller holds: none of the
    objects can be freed. -/
theorem Imaged.openHoles (hi : h.Imaged)
    (hk : h.Reliable stale → ∀ id, .obj id ∈ held → h.Known stale id) :
    h.openHoles.Counted stale held := by
  have hop := hi.opened
  obtain ⟨hundo, -, hsat, hwrap⟩ := hop.frame
  have htidy : h.openHoles.Tidy := hop.tidy hi.size_pos hi.size_le hi.reserved fun id o ho =>
    ⟨fun _ => (hi.persistent id o ho).2, fun _ => (hi.persistent id o ho).1⟩
  refine ⟨htidy, ⟨?_, ?_⟩, fun hr => ⟨fun id o ho hp => ?_, ?_⟩⟩
  · rw [hundo, hi.silent.2]
    exact fun s hs => absurd hs List.not_mem_nil
  · rw [hundo, hi.silent.2]
    exact .nil
  · rw [hop.occupant?] at ho
    rw [(hi.persistent id o ho).1] at hp
    cases hp
  · intro id hid
    rw [owned, hop.edges, hundo, UndoLog.values, hi.silent.1, Multiset.mem_add,
      Multiset.mem_add] at hid
    rcases hid with (hedge | hlog) | hheld
    · exact .inl (hi.portable _ hedge id rfl)
    · cases hlog
    · exact hop.known (hk (hr.of_flags (hsat ▸ ·) (hwrap ▸ ·)) id hheld)

end Heap

end StoryMachine
