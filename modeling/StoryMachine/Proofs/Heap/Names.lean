import StoryMachine.Proofs.Heap.Ages
import StoryMachine.Proofs.Heap.Rewind

/-!
# Names that do not come back

A table is filled with the objects of an image, and then a caller does with it what it
likes; it need not even own the counts that it gives up. The names of its new objects
are all different, also from those of the image objects, and a name that has outlived
its object never means one again. It takes `2 ^ 32 - 1` objects that are freed in the
same slot to bring a name back.

* `Heap.through`, `Heap.issued`, `Heap.timesFreed`: a run, the names it hands out, and
  how often it frees the object in a slot;
* `Heap.Founded`: a table while it is filled;
* `wrapped_through`: no generation comes again where few objects are freed;
* `issued_unknown`: new names are new;
* `names_never_return`: what this says about every run.
-/

namespace StoryMachine.Heap

variable {h h' : Heap} {op : Operation} {ops : List Operation} {i : Nat} {id : ObjectId}

/-! ## Runs -/

/-- The table after an operation, also after one that fails. -/
def performed (h : Heap) (op : Operation) : Heap :=
  match op.perform h with
  | .ok _ h' => h'
  | .error _ h' => h'

section Performed

variable {α : Type} {x : HeapM α} {f : α → List Value} {a : α} {e : HeapError}

theorem performed_of_ok (hop : op.perform = do return f (← x)) (hok : x h = .ok a h') :
    h.performed op = h' := by
  simp only [performed, hop, bind, EStateM.bind, hok, pure, EStateM.pure]

theorem performed_of_error (hop : op.perform = do return f (← x)) (herr : x h = .error e h') :
    h.performed op = h' := by
  simp only [performed, hop, bind, EStateM.bind, herr]

end Performed

/-- All operations but one make no object. -/
theorem performed_touches (hop : ∀ object, op ≠ .alloc object) : h.Touches (h.performed op) := by
  rcases op.performs_of_ne_alloc hop with ⟨e, herr⟩ | ⟨taken, h', hok, hd⟩
  · rw [performed, herr]
  · rw [performed, hok]
    exact hd.touches hop

/-- The table after some operations. -/
def through (h : Heap) (ops : List Operation) : Heap := ops.foldl performed h

/-- The name that an operation gives to a new object. -/
def issues? (h : Heap) : Operation → Option ObjectId
  | .alloc object =>
    match alloc object h with
    | .ok id _ => some id
    | .error _ _ => none
  | _ => none

/-- The names that some operations give to new objects, in order. -/
def issued (h : Heap) : List Operation → List ObjectId
  | [] => []
  | op :: ops => (h.issues? op).toList ++ (h.performed op).issued ops

/-- How many of the operations free the object in slot `i`. -/
def timesFreed (h : Heap) (i : Nat) : List Operation → Nat
  | [] => 0
  | op :: ops => (if h.Frees (h.performed op) i then 1 else 0) + (h.performed op).timesFreed i ops

/-- An operation frees an object in a slot at most once. -/
theorem timesFreed_le_length (h : Heap) (i : Nat) (ops : List Operation) :
    h.timesFreed i ops ≤ ops.length := by
  induction ops generalizing h with
  | nil => exact Nat.le_refl _
  | cons op ops ih =>
    have := ih (h.performed op)
    rw [timesFreed, List.length_cons]
    split <;> omega

theorem through_append (h : Heap) (ops ops' : List Operation) :
    h.through (ops ++ ops') = (h.through ops).through ops' :=
  List.foldl_append

/-! ## One operation -/

/-- What an operation does to names: it makes an object, or lets the slots age. -/
inductive Turns (h : Heap) (op : Operation) : Prop
  /-- There is a new object. -/
  | makes {object : Object} {id : ObjectId} (hissues : h.issues? op = some id)
      (ha : h.Allocated object id (h.performed op))
      (hnew : ∀ i s, h.slots.size ≤ i → (h.performed op).slots[i]? = some s → s.generation = 1)
  /-- There is none. -/
  | ages (hissues : h.issues? op = none) (ha : h.Ages (h.performed op))
      (hon : h.Onward (h.performed op))

theorem generation_alloc {object : Object} (ht : h.Tidy) (ha : alloc object h = .ok id h')
    {s : Slot} (hi : h.slots.size ≤ i) (hs : h'.slots[i]? = some s) : s.generation = 1 := by
  cases hfree : h.free with
  | cons n rest =>
    rw [alloc_of_cons hfree] at ha
    obtain ⟨-, rfl⟩ := EStateM.Result.ok.inj ha
    have hlt := (Array.getElem?_eq_some_iff.1 hs).1
    simp only [occupy, size_modifySlot] at hlt
    omega
  | nil =>
    by_cases hfull : h.settings.maxObjects ≤ UInt32.ofNat h.slots.size
    · rw [alloc_of_full hfree hfull] at ha
      cases ha
    · rw [alloc_of_nil hfree hfull] at ha
      obtain ⟨-, rfl⟩ := EStateM.Result.ok.inj ha
      have hlt := (Array.getElem?_eq_some_iff.1 hs).1
      simp only [occupy, size_modifySlot, Array.size_push] at hlt
      obtain rfl : i = h.slots.size := by omega
      rw [getElem?_occupy, if_pos ht.toNat_size] at hs
      obtain ⟨s', hs', rfl⟩ := Option.map_eq_some_iff.1 hs
      simp at hs'
      rw [← hs']

/-- An operation that fails does nothing. -/
theorem turns_of_error {e : HeapError} (hissues : h.issues? op = none)
    (herr : op.perform h = .error e h) : h.Turns op := by
  have hsame : h.performed op = h := by rw [performed, herr]
  refine .ages hissues ?_ ?_
  · rw [hsame]
    exact .refl h
  · rw [hsame]
    exact .refl h

theorem Tidy.turns (ht : h.Tidy) (op : Operation) : h.Turns op := by
  by_cases hop : ∃ object, op = .alloc object
  · obtain ⟨object, rfl⟩ := hop
    rcases ht.alloc object with ⟨id, h', hok, ha⟩ | herr
    · have hissues : h.issues? (.alloc object) = some id := by rw [issues?, hok]
      have hperformed : h.performed (.alloc object) = h' := performed_of_ok rfl hok
      refine .makes hissues (hperformed ▸ ha) fun i s hi hs => ?_
      exact generation_alloc ht hok hi (hperformed ▸ hs)
    · have hissues : h.issues? (.alloc object) = none := by rw [issues?, herr]
      refine turns_of_error (e := .outOfMemory h.settings.maxObjects) hissues ?_
      simp only [Operation.perform, bind, EStateM.bind, herr]
  · have hne (object : Object) : op ≠ .alloc object := fun he => hop ⟨object, he⟩
    -- Only a new object gets a name.
    have hissues : h.issues? op = none := by
      cases op <;> first | rfl | exact absurd rfl (hne _)
    rcases op.performs ht with ⟨e, herr⟩ | ⟨taken, h', hok, hd⟩
    · exact turns_of_error hissues herr
    · have hperformed : h.performed op = h' := by rw [performed, hok]
      exact .ages hissues (hperformed ▸ (hd.touches hne).ages) (hperformed ▸ hd.onward ht)

theorem Tidy.performed (ht : h.Tidy) (op : Operation) : (h.performed op).Tidy := by
  cases ht.turns op with
  | makes _ ha _ => exact ha.tidy
  | ages _ ha _ => exact ha.tidy ht

theorem Tidy.onward_performed (ht : h.Tidy) (op : Operation) : h.Onward (h.performed op) := by
  cases ht.turns op with
  | makes _ ha _ => exact ha.onward
  | ages _ _ hon => exact hon

theorem Tidy.through (ht : h.Tidy) (ops : List Operation) : (h.through ops).Tidy :=
  List.foldlRecOn ops _ ht fun _ ht op _ => ht.performed op

theorem Tidy.onward_through (ht : h.Tidy) (ops : List Operation) : h.Onward (h.through ops) := by
  induction ops generalizing h with
  | nil => exact .refl h
  | cons op ops ih => exact (ht.onward_performed op).trans (ih (ht.performed op))

/-! ## Generations -/

/-- No slot is in a later generation than it has got to by the objects that were freed
    in it. -/
def AgedBy (h : Heap) (freed : Nat → Nat) : Prop :=
  ∀ (i : Nat) (s : Slot), h.slots[i]? = some s → s.generation.toNat ≤ freed i + 1

/-- The generation moves on by one. -/
theorem toNat_generation_vacated_le (s : Slot) :
    s.vacated.generation.toNat ≤ s.generation.toNat + 1 := by
  have hlt := s.generation.toNat_lt
  rw [Slot.vacated]
  split
  · simp
  · rw [UInt32.toNat_add, UInt32.toNat_one]
    exact Nat.mod_le _ _

theorem toNat_generation_of_isLast {s : Slot} (hs : s.isLast = true) :
    s.generation.toNat = 2 ^ 32 - 1 := by
  rw [eq_of_beq hs]
  rfl

/-- One operation keeps the account, and does not start generations again if there is
    not enough on it. -/
theorem Turns.agedBy {freed : Nat → Nat} (hturns : h.Turns op) (haged : h.AgedBy freed)
    (hwrap : h.wrapped = false)
    (hfew : ∀ i, freed i + (if h.Frees (h.performed op) i then 1 else 0) < 2 ^ 32 - 1) :
    (h.performed op).wrapped = false ∧ (h.performed op).AgedBy fun i =>
      freed i + if h.Frees (h.performed op) i then 1 else 0 := by
  cases hturns with
  | makes _ ha hnew =>
    refine ⟨ha.frame.2.2.1.trans hwrap, fun i s hs => ?_⟩
    change _ ≤ freed i + (if _ then 1 else 0) + 1
    by_cases hi : i < h.slots.size
    · obtain ⟨s', hs', hg⟩ := ha.generation i _ (Array.getElem?_eq_getElem hi)
      obtain rfl : s = s' := Option.some.inj (hs.symm.trans hs')
      have := haged i _ (Array.getElem?_eq_getElem hi)
      rw [← hg] at this
      omega
    · rw [hnew i s (not_lt.1 hi) hs, UInt32.toNat_one]
      omega
  | ages _ ha _ =>
    refine ⟨Bool.eq_false_iff.2 fun hw => ?_, fun i s' hs' => ?_⟩
    · -- A slot in the last generation has been freed more often than it may have been.
      rcases ha.wrapped hw with hw | ⟨i, s, hfrees, hs, hlast⟩
      · rw [hwrap] at hw
        cases hw
      · have hgen := haged i s hs
        have hfew := hfew i
        rw [toNat_generation_of_isLast hlast] at hgen
        rw [if_pos hfrees] at hfew
        omega
    · change _ ≤ freed i + (if _ then 1 else 0) + 1
      obtain ⟨s, hs⟩ := exists_slot_of_size ha.size hs'
      have hgen := haged i s hs
      cases ha.slots i s s' hs hs' with
      | stays hg _ _ =>
        rw [hg]
        omega
      | freed ho =>
        have hfrees : h.Frees (h.performed op) i := by
          unfold Frees isOccupied
          rw [hs, hs']
          exact ⟨ho, rfl⟩
        have := toNat_generation_vacated_le s
        rw [if_pos hfrees]
        omega

/-- The induction is on the operations that are left, of which the account still has to
    bear those that free objects. -/
theorem wrapped_through {freed : Nat → Nat} (ht : h.Tidy) (haged : h.AgedBy freed)
    (hwrap : h.wrapped = false) (hfew : ∀ i, freed i + h.timesFreed i ops < 2 ^ 32 - 1) :
    (h.through ops).wrapped = false := by
  induction ops generalizing h freed with
  | nil => exact hwrap
  | cons op ops ih =>
    have hfew' (i : Nat) : freed i + ((if h.Frees (h.performed op) i then 1 else 0) +
        (h.performed op).timesFreed i ops) < 2 ^ 32 - 1 := hfew i
    obtain ⟨hwrap', haged'⟩ := (ht.turns op).agedBy haged hwrap fun i =>
      (Nat.add_le_add_left (Nat.le_add_right _ _) _).trans_lt (hfew' i)
    refine ih (ht.performed op) haged' hwrap' fun i => ?_
    rw [add_assoc]
    exact hfew' i

/-! ## Names -/

/-- New names are different from one another and from all that were known before. The
    induction is on the operations: a name is known once it is handed out, and names that
    are known stay so. -/
theorem issued_unknown (ht : h.Tidy) (hwrap : (h.through ops).wrapped = false) :
    (h.issued ops).Nodup ∧ ∀ id ∈ h.issued ops, ¬h.Known true id := by
  induction ops generalizing h with
  | nil => exact ⟨.nil, fun id hid => absurd hid List.not_mem_nil⟩
  | cons op ops ih =>
    obtain ⟨hnodup, hunknown⟩ := ih (ht.performed op) hwrap
    have hwrap' : (h.performed op).wrapped = false :=
      ((ht.performed op).onward_through ops).wrapped hwrap
    have hlater (id : ObjectId) (hid : id ∈ (h.performed op).issued ops) : ¬h.Known true id :=
      fun hk => hunknown id hid ((ht.onward_performed op).known hwrap' hk)
    rw [issued]
    cases ht.turns op with
    | ages hissues _ _ =>
      rw [hissues]
      exact ⟨hnodup, hlater⟩
    | @makes object id hissues ha _ =>
      have hknown : (h.performed op).Known true id := by
        refine .inr (.inl (contains_iff.2 ⟨⟨object, 1, false⟩, ?_⟩))
        rw [ha.occupant, if_pos rfl]
      rw [hissues]
      refine ⟨List.nodup_cons.2 ⟨fun hid => hunknown id hid hknown, hnodup⟩, fun id' hid' => ?_⟩
      rcases List.mem_cons.1 hid' with rfl | hid'
      · exact ha.fresh
      · exact hlater id' hid'

/-- A name that has outlived its object never means one again. -/
theorem get?_through_eq_none {before between later : List Operation} (ht : h.Tidy)
    (hwrap : (h.through (before ++ between ++ later)).wrapped = false)
    (hlive : (h.through before).contains id = true)
    (hgone : (h.through (before ++ between)).contains id = false) :
    (h.through (before ++ between ++ later)).get? id = none := by
  have ht' := ht.through before
  rw [through_append] at hgone
  rw [through_append, through_append] at hwrap ⊢
  have hlater := (ht'.through between).onward_through later
  -- Once the object is gone its name is spent, and spent names stay so.
  have hspent : ((h.through before).through between).Spent id :=
    ((ht'.onward_through between).live (hlater.wrapped hwrap) id hlive).resolve_left
      (by simp [hgone])
  have hdead := (hlater.spent hwrap id hspent).not_contains
  rw [contains_eq_isSome_get?] at hdead
  exact Option.not_isSome_iff_eq_none.1 (by simp [hdead])

/-! ## Tables with the objects of an image -/

/-- A table while image objects are defined, whatever they hold. -/
structure Founded (h : Heap) : Prop where
  /-- The first slot is always there. -/
  size_pos : 0 < h.slots.size
  /-- There are no more slots than the settings allow. -/
  size_le : h.slots.size ≤ max 1 h.settings.maxObjects.toNat
  /-- The first slot is never used. -/
  reserved : h.isOccupied 0 = false
  /-- Slots are in the generation of image objects. -/
  generation : ∀ (i : Nat) (s : Slot), h.slots[i]? = some s → s.generation = 0
  /-- And these are all that there are. -/
  persistent : ∀ id o, h.occupant? id = some o → o.persistent = true
  /-- No generation has come again. -/
  wrapped : h.wrapped = false

theorem founded_new (settings : HeapSettings) : (Heap.new settings).Founded := by
  have hslots : (Heap.new settings).slots = #[{}] := rfl
  have hempty (i : Nat) (s : Slot) (hs : (Heap.new settings).slots[i]? = some s) : s = {} := by
    rw [hslots] at hs
    rcases i with _ | i <;> simp at hs
    exact hs.symm
  refine ⟨by simp [hslots], by simp [hslots], by simp [isOccupied, hslots], fun i s hs => ?_,
    fun id o ho => ?_, rfl⟩
  · rw [hempty i s hs]
  · obtain ⟨s, hs, -, hso⟩ := occupant?_eq_some_iff.1 ho
    rw [hempty _ s hs] at hso
    cases hso

theorem Founded.define {n : UInt32} {object : Object} (hf : h.Founded) (hn : n ≠ 0)
    (hlt : n.toNat < h.settings.maxObjects.toNat) (hempty : h.isOccupied n.toNat = false)
    (live : Nat) : Founded { h.place n.toNat ⟨0, some ⟨object, 0, true⟩⟩ with live } where
  size_pos := by
    change 0 < (h.place _ _).slots.size
    rw [size_place]
    omega
  size_le := by
    change (h.place _ _).slots.size ≤ max 1 (h.place _ _).settings.maxObjects.toNat
    have := hf.size_le
    rw [size_place, settings_place]
    omega
  reserved := by
    have hne : n.toNat ≠ 0 := fun he => hn (UInt32.toNat_inj.1 he)
    exact (isOccupied_place_of_ne h _ hne).trans hf.reserved
  generation i s hs := by
    have hs' : (h.place n.toNat ⟨0, some ⟨object, 0, true⟩⟩).slots[i]? = some s := hs
    rw [getElem?_place, getElem?_grow] at hs'
    split_ifs at hs'
    · rw [← Option.some.inj hs']
    · exact hf.generation i s hs'
    · rw [← Option.some.inj hs']
  persistent id o ho := by
    have hocc := (occupant?_place (.ofImage n) hempty rfl id).symm.trans ho
    split at hocc
    · rw [← Option.some.inj hocc]
    · exact hf.persistent id o hocc
  wrapped := (wrapped_place h _ _).trans hf.wrapped

theorem Founded.withDefined (hf : h.Founded) (d : UInt32 × Object) : (h.withDefined d).Founded := by
  unfold Heap.withDefined
  rcases h.define_cases d.1 d.2 with ⟨e, herr⟩ | ⟨hn, hlt, hempty, hok⟩
  · rw [herr]
    exact hf
  · rw [hok]
    exact hf.define hn hlt hempty _

theorem Founded.opened (hf : h.Founded) : h.Opened h.openHoles :=
  opened_openHoles (hf.size_le.trans_lt (max_lt (by decide) h.settings.maxObjects.toNat_lt))

theorem Founded.tidy_openHoles (hf : h.Founded) : h.openHoles.Tidy := by
  have hgeneration (id : ObjectId) (o : Occupant) (ho : h.occupant? id = some o) :
      id.generation = 0 := by
    obtain ⟨s, hs, hg, -⟩ := occupant?_eq_some_iff.1 ho
    rw [← hg, hf.generation _ s hs]
  exact hf.opened.tidy hf.size_pos hf.size_le hf.reserved fun id o ho =>
    ⟨fun _ => hgeneration id o ho, fun _ => hf.persistent id o ho⟩

/-- An empty slot is opened in the first generation after that of image objects. -/
theorem Founded.agedBy_openHoles (hf : h.Founded) : h.openHoles.AgedBy fun _ => 0 := by
  intro i s hs
  have hop := hf.opened
  rw [hop.slots] at hs
  split at hs
  · obtain ⟨s', hs', rfl⟩ := Option.map_eq_some_iff.1 hs
    have h0 := hf.generation i s' hs'
    simp [Slot.opened, h0]
  · rw [hf.generation i s hs]
    simp

/-- A table with the objects of an image, ready for others. An object that cannot be
    defined is left out. -/
def filled (settings : HeapSettings) (image : List (UInt32 × Object)) : Heap :=
  (image.foldl withDefined (Heap.new settings)).openHoles

theorem founded_foldl_withDefined (settings : HeapSettings) (image : List (UInt32 × Object)) :
    (image.foldl withDefined (Heap.new settings)).Founded :=
  List.foldlRecOn image _ (founded_new settings) fun _ hf d _ => hf.withDefined d

/-- In every run that frees the objects in no slot as often as there are generations,
    all names of new objects are different, also from the names of image objects, and a
    name that has outlived its object means none ever after. -/
theorem names_never_return (settings : HeapSettings) (image : List (UInt32 × Object))
    (ops : List Operation)
    (hfew : ∀ i, (filled settings image).timesFreed i ops < 2 ^ 32 - 1) :
    let h := filled settings image
    (h.issued ops).Nodup ∧ (∀ id ∈ h.issued ops, ∀ n, id ≠ .ofImage n) ∧
      ∀ before between later, ops = before ++ between ++ later → ∀ id,
        (h.through before).contains id = true →
        (h.through (before ++ between)).contains id = false →
        (h.through ops).get? id = none := by
  intro h
  have hf := founded_foldl_withDefined settings image
  have ht : h.Tidy := hf.tidy_openHoles
  have hwrap : (h.through ops).wrapped = false := by
    refine wrapped_through ht hf.agedBy_openHoles ?_ fun i => by simpa using hfew i
    exact hf.opened.frame.2.2.2.trans hf.wrapped
  obtain ⟨hnodup, hunknown⟩ := issued_unknown ht hwrap
  refine ⟨hnodup, fun id hid n he => hunknown id hid (.inl (he ▸ rfl)), ?_⟩
  rintro before between later rfl id hlive hgone
  exact get?_through_eq_none ht hwrap hlive hgone

/-- A list takes the hole between two image objects and is released, and another one gets
    its slot; the savepoint is gone back to and all that nothing holds is collected. -/
def reusing : List Operation :=
  [.alloc ⟨0, .list []⟩, .release ⟨2, 1⟩, .beginSavepoint, .alloc ⟨0, .vector [.obj ⟨1, 0⟩]⟩,
    .setProp ⟨1, 0⟩ 5 (.obj ⟨2, 2⟩), .undoLast, .collect [], .alloc ⟨0, .list []⟩,
    .alloc ⟨0, .list []⟩]

/-- The slot is used three times, each time under another name. -/
theorem names_never_return_reusing :
    let h := filled {} [(1, ⟨0, .program [] .empty⟩), (3, ⟨0, .program [] .empty⟩)]
    h.issued reusing = [⟨2, 1⟩, ⟨2, 2⟩, ⟨2, 3⟩, ⟨4, 1⟩] ∧ (h.issued reusing).Nodup ∧
      (h.through reusing).get? ⟨2, 1⟩ = none := by
  have hrun := names_never_return {} [(1, ⟨0, .program [] .empty⟩), (3, ⟨0, .program [] .empty⟩)]
    reusing fun i => (timesFreed_le_length _ i reusing).trans_lt (by decide)
  refine ⟨by cbv, hrun.1, ?_⟩
  exact hrun.2.2 (reusing.take 1) ((reusing.drop 1).take 1) (reusing.drop 2) rfl ⟨2, 1⟩
    (by cbv) (by cbv)

end StoryMachine.Heap
