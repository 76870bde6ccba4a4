import StoryMachine.Proofs.Heap.Restored
import StoryMachine.Proofs.SavedState.Format
import StoryMachine.SavedState

/-!
# Restoring

The objects of a machine are gone before those of the state come back, so that it
would be too late to find fault with them then. Nothing can go wrong any more: what
has been accepted as a state fits into a table that has been cleared.

* `Filled`: a table with the objects of a state;
* `replaceState_eq_ok`: a state that has been checked replaces that of the machine;
* `restore_atomic`: a machine is restored as a whole or not at all;
* `Machine.WellFormed`, `wellFormed_of_restore`: the parts of a machine that has
  been restored fit each other.
-/

namespace StoryMachine

/-- A table that has got the objects of a state, and before that had none. -/
structure Heap.Filled (h₀ : Heap) (os : List SavedObject) (h : Heap) : Prop where
  /-- Its objects are those of the state, and have no counts. -/
  occupant : ∀ id o, h.occupant? id = some o ↔
    ∃ saved ∈ os, saved.id = id ∧ ⟨saved.object, 0, saved.persistent⟩ = o
  /-- They are in the slots that their names say. -/
  occupied : ∀ i, h.isOccupied i = true ↔ ∃ saved ∈ os, saved.id.index.toNat = i
  /-- They hold what they held. -/
  edges : (h.edges : Multiset Value) = os.flatMap (·.object.body.edges)
  /-- They have been counted. -/
  live : h.live = h.occupied
  /-- There are no more slots than there may be. -/
  size_le : h.slots.size ≤ max h₀.slots.size h₀.settings.maxObjects.toNat
  /-- Nothing else is changed. -/
  frame : h.settings = h₀.settings ∧ h.free = h₀.free ∧ h.undo = h₀.undo

/-- A table that has been filled with the objects of a state, and in which what they
    and the roots name has been counted. -/
structure Heap.Restored (os : List SavedObject) (roots : List Value) (h : Heap) : Prop where
  /-- Its objects are those of the state. -/
  contains : ∀ id, h.contains id = true ↔ id ∈ os.map (·.id)
  /-- They are what they were. Their counts are the places in which their names occur,
      up to the largest number of counts there is. -/
  occupant : ∀ id o, h.occupant? id = some o → ∃ saved ∈ os, saved.id = id ∧
    o.object = saved.object ∧ o.persistent = saved.persistent ∧
    o.refs.toNat = min ((h.edges ++ roots).count (.obj id)) 0xFFFFFFFF
  /-- They hold what they held. -/
  edges : (h.edges : Multiset Value) = os.flatMap (·.object.body.edges)
  /-- They have been counted. -/
  live : h.live = h.occupied
  /-- The free slots are the empty ones, apart from the first. -/
  free : ∀ i, i ∈ h.free ↔ i ≠ 0 ∧ i.toNat < h.slots.size ∧ h.isOccupied i.toNat = false
  /-- No slot is free twice. -/
  nodup : h.free.Nodup
  /-- No free slot is left at the generation of image objects. -/
  generation : ∀ i ∈ h.free, ∀ s, h.slots[i.toNat]? = some s → s.generation ≠ 0
  /-- There is nothing to go back to. -/
  undo : h.undo.savepoints = [] ∧ h.undo.records = #[]

namespace Heap

variable {h h₀ : Heap} {os : List SavedObject} {saved : SavedObject} {t : MetaclassTable}

theorem filled_clear (h : Heap) : Filled h.clear [] h.clear where
  occupant id o := by simp [occupant?_clear]
  occupied i := by simp [isOccupied_clear]
  edges := by
    refine congrArg _ (List.flatMap_eq_nil_iff.2 fun s hs => Slot.edges_empty ?_)
    obtain ⟨j, hj⟩ := List.mem_iff_getElem?.1 hs
    exact occupant?_of_clear (by simpa using hj)
  live := by
    refine (Array.countP_eq_zero.2 fun s hs => ?_).symm
    obtain ⟨j, hj⟩ := Array.mem_iff_getElem?.1 hs
    simp [occupant?_of_clear hj]
  size_le := le_max_left _ _
  frame := ⟨rfl, rfl, rfl⟩

/-- One more object is put back. -/
theorem Filled.insert (hf : h₀.Filled os h) (hid : h₀.checkRestorable saved.id = .ok ())
    (hnew : saved.id.index ∉ os.map (·.id.index)) :
    ∃ h', insertRestored saved.id saved.object saved.persistent h = .ok () h' ∧
      h₀.Filled (os ++ [saved]) h' := by
  have hid' := checkRestorable_eq_ok_iff.1 hid
  have hempty : h.isOccupied saved.id.index.toNat = false := by
    refine Bool.eq_false_iff.2 fun hocc => hnew ?_
    obtain ⟨saved', hsaved', hindex⟩ := (hf.occupied _).1 hocc
    exact List.mem_map.2 ⟨saved', hsaved', UInt32.toNat_inj.1 hindex⟩
  refine ⟨_, insertRestored_eq_ok _ _ ?_ hempty, ?_, ?_, ?_, ?_, ?_, ?_, ?_, ?_⟩
  · exact checkRestorable_eq_ok_iff.2 (hf.frame.1 ▸ hid')
  · -- The new object is found under its name, and the others under theirs.
    intro id o
    refine (Eq.congr_left (occupant?_place saved.id hempty rfl id)).trans ?_
    by_cases hself : id = saved.id
    · -- No other object has this slot, let alone this name.
      have hother (saved' : SavedObject) (hmem : saved' ∈ os) : saved'.id ≠ saved.id :=
        fun he => hnew (List.mem_map.2 ⟨saved', hmem, congrArg _ he⟩)
      subst hself
      simp only [if_true, Option.some.injEq, List.mem_append, List.mem_singleton, or_and_right,
        exists_or, exists_eq_left, true_and, iff_or_self, forall_exists_index, and_imp]
      exact fun saved' hmem he => absurd he (hother saved' hmem)
    · rw [if_neg hself, hf.occupant]
      simp [or_and_right, exists_or, Ne.symm hself]
  · intro i
    refine (Eq.congr_left (isOccupied_place h _ _ i)).trans ?_
    by_cases hi : saved.id.index.toNat = i
    · simp [hi]
    · rw [if_neg hi, hf.occupied]
      simp [or_and_right, exists_or, hi]
  · refine (edges_place hempty _).trans ?_
    rw [hf.edges, Slot.edges_occupied rfl, List.flatMap_append, Multiset.coe_add,
      List.flatMap_singleton]
  · change h.live + 1 = (h.place _ _).occupied
    rw [occupied_place hempty rfl, hf.live]
  · change (h.place _ _).slots.size ≤ _
    have := hf.size_le
    rw [size_place]
    omega
  · exact (settings_place ..).trans hf.frame.1
  · exact (free_place ..).trans hf.frame.2.1
  · exact (undo_place ..).trans hf.frame.2.2

/-! ## The table in the end -/

/-- The empty slots are opened, and the counts are worked out. -/
theorem Filled.restored (hf : h₀.clear.Filled os h) (hsize : h₀.slots.size < 2 ^ 32)
    (roots : List Value) : Restored os roots (h.openHoles.rebuildCounts roots) := by
  have hop : h.Opened h.openHoles := opened_openHoles <| by
    have hmax := h₀.settings.maxObjects.toNat_lt
    have hle : h.slots.size ≤ max h₀.clear.slots.size h₀.settings.maxObjects.toNat := hf.size_le
    rw [size_clear] at hle
    omega
  obtain ⟨-, hfree, hlive, hundo⟩ := h.openHoles.frame_rebuildCounts roots
  have hundo : (h.openHoles.rebuildCounts roots).undo = h₀.clear.undo :=
    hundo.trans (hop.frame.1.trans hf.frame.2.2)
  have hopen (i : UInt32) : i ∈ (h.openHoles.rebuildCounts roots).free ↔
      i ≠ 0 ∧ i.toNat < h.slots.size ∧ h.isOccupied i.toNat = false := by
    rw [hfree]
    exact hop.free i
  refine ⟨fun id => ?_, fun id o ho => ?_, ?_, ?_, fun i => ?_, ?_, fun i hi s hs => ?_, ?_⟩
  · rw [contains_rebuildCounts, contains, hop.occupant?, ← contains, contains_iff]
    simp only [hf.occupant, List.mem_map]
    constructor
    · rintro ⟨o, saved, hmem, hid, -⟩
      exact ⟨saved, hmem, hid⟩
    · rintro ⟨saved, hmem, hid⟩
      exact ⟨_, saved, hmem, hid, rfl⟩
  · rw [occupant?_rebuildCounts, hop.occupant?] at ho
    obtain ⟨o', ho', rfl⟩ := Option.map_eq_some_iff.1 ho
    obtain ⟨saved, hmem, hid, rfl⟩ := (hf.occupant id o').1 ho'
    refine ⟨saved, hmem, hid, by simp, by simp, ?_⟩
    -- The log has been cleared, so that it owns no counts.
    have hlog : h.openHoles.undo.values = [] := by
      rw [hop.frame.1, hf.frame.2.2]
      rfl
    rw [Occupant.toNat_refs_iterate_retain, hlog, List.append_nil, edges_rebuildCounts]
    simp
  · rw [edges_rebuildCounts, hop.edges, hf.edges]
  · rw [hlive, live_openHoles, hf.live, occupied_rebuildCounts, hop.occupied]
  · rw [hopen, size_rebuildCounts, hop.size, isOccupied_rebuildCounts, hop.isOccupied]
  · rw [hfree]
    exact hop.nodup
  · -- A slot that is free has been opened, since it was empty.
    obtain ⟨hne, hlt, hempty⟩ := (hopen i).1 hi
    have hne' : i.toNat ≠ 0 := fun h0 => hne (UInt32.toNat_inj.1 h0)
    have hgen := h.openHoles.map_slots_rebuildCounts roots (g := Slot.generation) (fun _ => rfl)
      i.toNat
    rw [hs, hop.slots, if_pos ⟨hne', hempty⟩, Array.getElem?_eq_getElem hlt, Option.map_some,
      Option.map_some, Option.map_some, Option.some.injEq] at hgen
    exact hgen ▸ (Slot.generation_opened _).1
  · rw [hundo]
    exact ⟨rfl, rfl⟩

end Heap

namespace Machine

variable {m m' : Machine} {h₀ : Heap} {os os' : List SavedObject} {s : SavedState} {bs : Bytes}

theorem insertSaved_eq_ok {o : SavedObject} {h : Heap}
    (hok : Heap.insertRestored o.id o.object o.persistent m.heap = .ok () h) :
    insertSaved o m = .ok () { m with heap := h } := by
  simp only [insertSaved, hok]

/-- The induction is on the objects that are still to be put back. -/
theorem forM_insertSaved (hf : h₀.Filled os m.heap)
    (hrestorable : ∀ o ∈ os', h₀.checkRestorable o.id = .ok ())
    (hdistinct : ((os ++ os').map (·.id.index)).Nodup) :
    ∃ h, os'.forM insertSaved m = .ok () { m with heap := h } ∧ h₀.Filled (os ++ os') h := by
  induction os' generalizing os m with
  | nil => exact ⟨m.heap, rfl, by simpa using hf⟩
  | cons o os' ih =>
    obtain ⟨ho, hos'⟩ := List.forall_mem_cons.1 hrestorable
    rw [List.append_cons] at hdistinct ⊢
    have hnew : o.id.index ∉ os.map (·.id.index) := by
      simp only [List.map_append, List.nodup_append, List.map_cons, List.map_nil] at hdistinct
      exact fun hmem => hdistinct.1.2.2 _ hmem _ (List.mem_singleton.2 rfl) rfl
    obtain ⟨h, hok, hf'⟩ := hf.insert ho hnew
    obtain ⟨h', hok', hf''⟩ := ih (m := { m with heap := h }) hf' hos' hdistinct
    refine ⟨h', ?_, hf''⟩
    change EStateM.bind (insertSaved o) (fun _ => os'.forM insertSaved) m = _
    rw [EStateM.bind, insertSaved_eq_ok hok]
    exact hok'

/-- A state that has been checked replaces that of the machine. -/
theorem replaceState_eq_ok (hs : s.Admissible m.heap m.image.metaclasses) :
    ∃ h, m.heap.clear.Filled s.objects h ∧
      replaceState s m = .ok () ({ m with heap := h }.adopt s.globals) := by
  obtain ⟨h, hok, hf⟩ := forM_insertSaved (m := { m with heap := m.heap.clear })
    m.heap.filled_clear (fun o ho => hs.placeable.restorable o ho)
    (by simpa using hs.placeable.distinct)
  refine ⟨h, by simpa using hf, ?_⟩
  change EStateM.bind (s.objects.forM insertSaved) _ { m with heap := m.heap.clear } = _
  rw [EStateM.bind, hok]
  rfl

theorem restore_of_parse_error {f : Failure}
    (hparse : SavedState.parse m.heap m.image.metaclasses m.image.identity bs = .error f) :
    restore bs m = .error f m := by
  simp only [restore, bind, EStateM.bind, get, getThe, MonadStateOf.get, EStateM.get, hparse]
  rfl

theorem restore_of_parse_ok
    (hparse : SavedState.parse m.heap m.image.metaclasses m.image.identity bs = .ok s) :
    restore bs m = replaceState s m := by
  simp only [restore, bind, EStateM.bind, get, getThe, MonadStateOf.get, EStateM.get, hparse]

/-- Once the bytes have been accepted, nothing can go wrong any more. -/
theorem exists_restore_eq_ok_iff : (∃ m', restore bs m = .ok () m') ↔
    ∃ s, SavedState.parse m.heap m.image.metaclasses m.image.identity bs = .ok s := by
  constructor
  · rintro ⟨m', hok⟩
    cases hparse : SavedState.parse m.heap m.image.metaclasses m.image.identity bs with
    | error f =>
      rw [restore_of_parse_error hparse] at hok
      cases hok
    | ok s => exact ⟨s, rfl⟩
  · rintro ⟨s, hparse⟩
    obtain ⟨h, -, hok⟩ := replaceState_eq_ok (SavedState.admissible_of_parse hparse)
    exact ⟨_, (restore_of_parse_ok hparse).trans hok⟩

/-- A machine that cannot be put back to what some bytes hold stays as it is: the
    bytes are at fault before anything is changed. Once they have been accepted, every
    object of the state goes back into the table that has been cleared for it. -/
theorem restore_atomic (m : Machine) (bs : Bytes) :
    (∀ f m', restore bs m = .error f m' → m' = m) ∧
      ∀ s, SavedState.parse m.heap m.image.metaclasses m.image.identity bs = .ok s →
        ∃ m', replaceState s m = .ok () m' := by
  constructor
  · intro f m' herr
    cases hparse : SavedState.parse m.heap m.image.metaclasses m.image.identity bs with
    | error f =>
      rw [restore_of_parse_error hparse] at herr
      exact (EStateM.Result.error.inj herr).2.symm
    | ok s =>
      -- The state would have been put in place.
      obtain ⟨m'', hok⟩ := exists_restore_eq_ok_iff.2 ⟨s, hparse⟩
      rw [hok] at herr
      cases herr
  · intro s hparse
    obtain ⟨m', hok⟩ := exists_restore_eq_ok_iff.2 ⟨s, hparse⟩
    exact ⟨m', (restore_of_parse_ok hparse).symm.trans hok⟩

/-- A machine in the middle of a call, with objects in its hands. -/
def midCall : Machine :=
  { (default : Machine) with
    image :=
      { (default : Image) with
        identity := List.replicate 32 0
        metaclasses := ⟨#[⟨.vector, Kind.version .vector, []⟩]⟩ }
    heap := Heap.new {}
    stack :=
      { settings := {}
        values := #[.obj ⟨1, 1⟩, .obj ⟨2, 1⟩, .truth]
        frames := [{ self := .obj ⟨2, 1⟩, definer? := some ⟨1, 1⟩ }] }
    globals := #[.obj ⟨2, 1⟩, .nil] }

/-- A state with a single object, a vector that holds itself. -/
def loop (id : ObjectId) : SavedState :=
  ⟨[⟨id, false, ⟨0, .vector [.obj id]⟩⟩], [.obj id]⟩

/-- The bytes of that state. -/
def loopBytes (id : ObjectId) : Bytes :=
  (loop id).encode midCall.image.metaclasses midCall.image.identity

theorem parse_loopBytes : SavedState.parse midCall.heap midCall.image.metaclasses
    midCall.image.identity (loopBytes ⟨1, 1⟩) =
      .ok ((loop ⟨1, 1⟩).renamed midCall.image.metaclasses) :=
  (SavedState.parse_encode_eq_ok_iff (by decide) (by decide) (by decide)).2 ⟨by decide, rfl⟩

theorem parse_loopBytes_zero (s : SavedState) : SavedState.parse midCall.heap
    midCall.image.metaclasses midCall.image.identity (loopBytes ⟨0, 1⟩) ≠ .ok s := fun hparse =>
  absurd (SavedState.exists_objectOf_of_parse_encode rfl (by decide) (by decide) hparse).1
    (by decide)

theorem restore_atomic_loop :
    (∃ f m', restore (loopBytes ⟨0, 1⟩) midCall = .error f m' ∧ m' = midCall) ∧
      ∃ m', replaceState ((loop ⟨1, 1⟩).renamed midCall.image.metaclasses) midCall = .ok () m' := by
  refine ⟨?_, (restore_atomic midCall (loopBytes ⟨1, 1⟩)).2 _ parse_loopBytes⟩
  cases hparse : SavedState.parse midCall.heap midCall.image.metaclasses midCall.image.identity
      (loopBytes ⟨0, 1⟩) with
  | error f =>
    have herr := restore_of_parse_error hparse
    exact ⟨f, midCall, herr, (restore_atomic midCall (loopBytes ⟨0, 1⟩)).1 f midCall herr⟩
  | ok s => exact absurd hparse (parse_loopBytes_zero s)

/-! ## A machine that has been restored -/

/-- The parts of a machine fit each other. -/
structure WellFormed (m : Machine) : Prop where
  /-- What objects, the stack, its calls, the globals and the last result name is
      there. -/
  held : ∀ id, .obj id ∈ m.heap.edges ++ m.stack.held ++ m.globals.toList ++ [m.result] →
    m.heap.contains id = true
  /-- Objects are of metaclasses for their kinds. -/
  typed : ∀ id o, m.heap.get? id = some o → o.Typed m.image.metaclasses
  /-- The objects have been counted. -/
  live : m.heap.live = m.heap.occupied
  /-- The free slots are the empty ones, apart from the first. -/
  free : ∀ i, i ∈ m.heap.free ↔
    i ≠ 0 ∧ i.toNat < m.heap.slots.size ∧ m.heap.isOccupied i.toNat = false
  /-- No slot is free twice. -/
  nodup : m.heap.free.Nodup
  /-- No free slot is left at the generation of image objects. -/
  generation : ∀ i ∈ m.heap.free, ∀ s, m.heap.slots[i.toNat]? = some s → s.generation ≠ 0
  /-- The counts of an object are the places in which its name occurs, up to the
      largest number of counts there is. -/
  refs : ∀ id o, m.heap.occupant? id = some o →
    o.refs.toNat = min ((m.heap.edges ++ m.roots).count (.obj id)) 0xFFFFFFFF
  /-- There is nothing to go back to. -/
  undo : m.heap.undo.savepoints = [] ∧ m.heap.undo.records = #[]

theorem contains_of_liveOrNil {h : Heap} {v : Value} {id : ObjectId}
    (hv : h.liveOrNil v = .obj id) : h.contains id = true := by
  unfold Heap.liveOrNil at hv
  split at hv
  · next id' =>
    split at hv
    · next hlive => exact Value.obj.inj hv ▸ hlive
    · cases hv
  · next hne => exact absurd hv (hne id)

/-- What is left on the stack is there. -/
theorem contains_of_mem_scrub {h : Heap} {st : Stack} {id : ObjectId}
    (hid : .obj id ∈ (st.scrub h).held) : h.contains id = true := by
  rcases List.mem_append.1 hid with hvalue | hframe
  · obtain ⟨v, -, hv⟩ := Array.mem_map.1 (Array.mem_toList_iff.1 hvalue)
    exact contains_of_liveOrNil hv
  · obtain ⟨f, hf, hid⟩ := List.mem_flatMap.1 hframe
    obtain ⟨f, -, rfl⟩ := List.mem_map.1 (List.mem_reverse.1 hf)
    rcases List.mem_cons.1 hid with hself | hdefiner
    · exact contains_of_liveOrNil hself.symm
    · obtain ⟨definer, hmem, heq⟩ := List.mem_map.1 hdefiner
      obtain rfl := Value.obj.inj heq
      exact (Option.filter_eq_some_iff.1 (Option.mem_toList.1 hmem)).2

/-- What is put into the globals is of the state. -/
theorem mem_of_mem_globals {globals : Array Value} {saved : List Value} {id : ObjectId}
    (hid : .obj id ∈ (globals.mapIdx fun i _ => saved.toArray.getD i .nil).toList) :
    .obj id ∈ saved := by
  obtain ⟨i, hi, heq⟩ := Array.mem_mapIdx.1 (Array.mem_toList_iff.1 hid)
  unfold Array.getD at heq
  split at heq
  · exact heq ▸ List.mem_toArray.1 (Array.getElem_mem _)
  · cases heq

/-- A machine with the objects of a state that has been checked. -/
theorem wellFormed_adopt (hclosed : s.Closed)
    (htyped : ∀ o ∈ s.objects, o.object.Typed m.image.metaclasses)
    (hh : (m.adopt s.globals).heap.Restored s.objects (m.adopt s.globals).roots)
    (hopen : m.heap.openHoles.contains = (m.adopt s.globals).heap.contains) :
    (m.adopt s.globals).WellFormed := by
  refine ⟨fun id hid => ?_, fun id o hget => ?_, hh.live, hh.free, hh.nodup, hh.generation,
    fun id o ho => ?_, hh.undo⟩
  · have hsaved (hmem : .obj id ∈ s.held) : (m.adopt s.globals).heap.contains id = true :=
      (hh.contains id).2 (hclosed id hmem)
    simp only [List.mem_append, List.mem_singleton] at hid
    -- Objects and globals come from the state, which names nothing else. The stack and
    -- the result were there before, and lose what is not there any more.
    rcases hid with ((hedge | hstack) | hglobal) | hresult
    · refine hsaved (List.mem_append_left _ ?_)
      rwa [← Multiset.mem_coe, hh.edges, Multiset.mem_coe] at hedge
    · rw [← hopen]
      exact contains_of_mem_scrub hstack
    · exact hsaved (List.mem_append_right _ (mem_of_mem_globals hglobal))
    · rw [← hopen]
      exact contains_of_liveOrNil hresult.symm
  · obtain ⟨o, ho, rfl⟩ := Option.map_eq_some_iff.1 hget
    obtain ⟨saved, hmem, -, hobject, -⟩ := hh.occupant id o ho
    rw [hobject]
    exact htyped saved hmem
  · obtain ⟨_, -, -, -, -, hrefs⟩ := hh.occupant id o ho
    exact hrefs

/-- What becomes of a machine when the bytes are accepted. -/
theorem restore_eq_ok (hsize : m.heap.slots.size < 2 ^ 32)
    (hparse : SavedState.parse m.heap m.image.metaclasses m.image.identity bs = .ok s) :
    ∃ m', restore bs m = .ok () m' ∧ m'.image = m.image ∧
      m'.globals = (m.globals.mapIdx fun i _ => s.globals.toArray.getD i .nil) ∧
      m'.heap.Restored s.objects m'.roots ∧ m'.WellFormed := by
  have hs := SavedState.admissible_of_parse hparse
  obtain ⟨h, hf, hreplace⟩ := replaceState_eq_ok hs
  have hh : ({ m with heap := h }.adopt s.globals).heap.Restored s.objects
      ({ m with heap := h }.adopt s.globals).roots := hf.restored hsize _
  refine ⟨_, (restore_of_parse_ok hparse).trans hreplace, rfl, rfl, hh, ?_⟩
  exact wellFormed_adopt (m := { m with heap := h }) hs.closed hs.placeable.typed hh
    (funext fun id => (Heap.contains_rebuildCounts _ _ id).symm)

/-- What has become of a machine that has been put back. -/
theorem exists_parse_of_restore (hsize : m.heap.slots.size < 2 ^ 32)
    (hok : restore bs m = .ok () m') :
    ∃ s, SavedState.parse m.heap m.image.metaclasses m.image.identity bs = .ok s ∧
      m'.image = m.image ∧ m'.heap.Restored s.objects m'.roots := by
  obtain ⟨s, hparse⟩ := exists_restore_eq_ok_iff.1 ⟨m', hok⟩
  obtain ⟨m'', hok', himage, -, hh, -⟩ := restore_eq_ok hsize hparse
  obtain rfl := (EStateM.Result.ok.inj (hok.symm.trans hok')).2
  exact ⟨s, hparse, himage, hh⟩

/-- A machine that has been put back to the state that some bytes hold is well-formed,
    whatever the bytes are and whatever the machine was doing: what the stack held of
    objects that are not in the state is gone. The numbers of slots have 32 bits. -/
theorem wellFormed_of_restore (hsize : m.heap.slots.size < 2 ^ 32)
    (hok : restore bs m = .ok () m') : m'.WellFormed := by
  obtain ⟨s, hparse⟩ := exists_restore_eq_ok_iff.1 ⟨m', hok⟩
  obtain ⟨m'', hok', -, -, -, hwell⟩ := restore_eq_ok hsize hparse
  rw [hok'] at hok
  exact (EStateM.Result.ok.inj hok).2 ▸ hwell

theorem wellFormed_of_restore_loop :
    midCall.heap.slots.size < 2 ^ 32 ∧
      ∃ m', restore (loopBytes ⟨1, 1⟩) midCall = .ok () m' ∧ m'.WellFormed := by
  have hsize : midCall.heap.slots.size < 2 ^ 32 := by decide
  obtain ⟨m', hok⟩ := exists_restore_eq_ok_iff.2 ⟨_, parse_loopBytes⟩
  exact ⟨hsize, m', hok, wellFormed_of_restore hsize hok⟩

end Machine

end StoryMachine
