import StoryMachine.Code.Assembler
import StoryMachine.Image.Draft
import StoryMachine.Proofs.Heap.Requests
import StoryMachine.Proofs.Machine.Life

/-!
# Machines that have been restarted

A program may ask for a restart, and then its machine is made like new: nothing is left on
the stack, in the globals or to go back to, and the objects are those of the image. What the
object table has been through shows in generations only: whatever it is asked from then
on, it answers as that of a machine that has just been loaded.

* `Heap.pastAges`: how often slots have been used;
* `Heap.twins_openHoles`: tables with the same objects of an image;
* `Life.Reachable.restarts_like_new`: restarts at any time in the life of a machine.
-/

namespace StoryMachine

/-! ## Generations -/

theorem iterate_nextGeneration_one {n : Nat} (hn : n + 1 < 2 ^ 32) :
    nextGeneration^[n] 1 = UInt32.ofNat (n + 1) := by
  induction n with
  | zero => rfl
  | succ n ih =>
    have hn' : n + 1 < 2 ^ 32 := Nat.lt_of_succ_lt hn
    have htoNat : (UInt32.ofNat (n + 1)).toNat = n + 1 := UInt32.toNat_ofNat_of_lt hn'
    rw [Function.iterate_succ_apply', ih hn', nextGeneration, if_neg]
    · exact (UInt32.ofNat_add (n + 1) 1).symm
    · intro hlast
      rw [beq_iff_eq] at hlast
      rw [hlast] at htoNat
      change 2 ^ 32 - 1 = n + 1 at htoNat
      omega

/-- Any generation but that of image objects comes some time after the first one. -/
theorem aged_one {g : UInt32} (hg : g ≠ 0) : Aged (g.toNat - 1) 1 g := by
  have hpos : 0 < g.toNat := Nat.pos_of_ne_zero fun h => hg (UInt32.toNat_inj.1 h)
  refine ⟨?_, fun h => by cases h⟩
  have hlt := g.toNat_lt
  rw [laterGeneration, if_neg (by decide), iterate_nextGeneration_one (by omega), Nat.sub_add_cancel hpos,
    UInt32.ofNat_toNat]

theorem Value.Portable.rename_later {v : Value} (hv : v.Portable) (ages : Nat → Nat) :
    v.rename (.later ages) = v := by
  cases v with
  | obj id => rw [rename, ObjectId.later_eq_self (hv id rfl)]
  | _ => rfl

namespace Heap

variable {h g : Heap} {limits : HeapSettings} {ds : List (UInt32 × Object)} {d : UInt32 × Object} {i : Nat}

/-! ## Objects of an image -/

theorem Holds.slot_eq (hh : h.Holds ds) (hd : d ∈ ds) :
    h.slot d.1.toNat = ⟨0, some ⟨d.2, 0, true⟩⟩ := by
  have ho := (hh (.ofImage d.1) ⟨d.2, 0, true⟩).2 ⟨d, hd, rfl, rfl⟩
  rw [occupant?_eq_slot, ObjectId.ofImage] at ho
  split at ho
  · next hgeneration =>
    dsimp only at ho hgeneration
    cases hs : h.slot d.1.toNat
    simp_all
  · cases ho

theorem Holds.occupant?_eq_none (hh : h.Holds ds) (hsize : h.slots.size < 2 ^ 32)
    (hi : ∀ d ∈ ds, d.1.toNat ≠ i) : (h.slot i).occupant? = none := by
  by_contra hsome
  obtain ⟨o, ho⟩ := Option.ne_none_iff_exists'.1 hsome
  have hindex : (UInt32.ofNat i).toNat = i := UInt32.toNat_ofNat_of_lt ((lt_size_of_slot hsome).trans hsize)
  have hocc : h.occupant? ⟨UInt32.ofNat i, (h.slot i).generation⟩ = some o := by
    rw [occupant?_eq_slot]
    dsimp only
    rw [hindex, if_pos rfl, ho]
  obtain ⟨d, hd, hid, -⟩ := (hh _ o).1 hocc
  exact hi d hd ((congrArg (fun id => id.index.toNat) hid).symm.trans hindex)

/-! ## Tables with the same objects -/

/-- How often each slot has been used, to go by its generation. -/
def pastAges (g : Heap) (i : Nat) : Nat :=
  (if i < g.slots.size then (g.slot i).generation else 1).toNat - 1

theorem free_openHoles (h : Heap) : h.openHoles.free =
    ((List.range h.slots.size).filter fun i => 1 ≤ i && !h.isOccupied i).map UInt32.ofNat := rfl

theorem Opened.generation_ne_zero {h' : Heap} (hop : h.Opened h') (hi : i ≠ 0) (hlt : i < h.slots.size)
    (hempty : h.isOccupied i = false) : (h'.slot i).generation ≠ 0 := by
  rw [slot, hop.slots, if_pos ⟨hi, hempty⟩, Array.getElem?_eq_getElem hlt]
  exact (Slot.generation_opened _).1

/-- The slots past the end of a table are all empty, and come last among the free ones of a
    table that has them and the same objects. -/
theorem free_openHoles_append (hpos : 0 < h.slots.size) (hsize : h.slots.size ≤ g.slots.size)
    (hoccupied : ∀ i, g.isOccupied i = h.isOccupied i) :
    g.openHoles.free = h.openHoles.free ++
      (List.range' h.slots.size (g.slots.size - h.slots.size)).map UInt32.ofNat := by
  have hsplit := @List.range'_append_1 0 h.slots.size (g.slots.size - h.slots.size)
  rw [Nat.zero_add, Nat.add_sub_cancel' hsize] at hsplit
  have hkept : (List.range' h.slots.size (g.slots.size - h.slots.size)).filter
      (fun i => 1 ≤ i && !h.isOccupied i) = List.range' h.slots.size (g.slots.size - h.slots.size) := by
    refine List.filter_eq_self.2 fun i hi => ?_
    have hi := (List.mem_range'_1.1 hi).1
    have hempty : h.isOccupied i = false := by
      rw [isOccupied_eq_slot, slot_of_size_le hi]
      rfl
    simp [hempty, Nat.succ_le_of_lt (hpos.trans_le hi)]
  rw [free_openHoles, free_openHoles, List.range_eq_range', List.range_eq_range', ← hsplit,
    funext hoccupied, List.filter_append, hkept, List.map_append]

/-- A hole of a table in which nothing has been made yet is opened in the first generation. -/
theorem Opened.generation_eq_one {h' : Heap} (hop : h.Opened h') (hf : h.Founded) (hi : i ≠ 0)
    (hlt : i < h.slots.size) (hempty : h.isOccupied i = false) : (h'.slot i).generation = 1 := by
  rw [slot, hop.slots, if_pos ⟨hi, hempty⟩, Array.getElem?_eq_getElem hlt, Option.map_some,
    Option.getD_some, Slot.opened, if_pos (hf.generation _ _ (Array.getElem?_eq_getElem hlt))]

/-- Where one of two tables with the same objects of an image has one, so has the other. -/
theorem Holds.slot_cases (hh : h.Holds ds) (hg : g.Holds ds) (hsize : h.slots.size < 2 ^ 32)
    (hsize' : g.slots.size < 2 ^ 32) (i : Nat) :
    (∃ d ∈ ds, h.slot i = ⟨0, some ⟨d.2, 0, true⟩⟩ ∧ g.slot i = ⟨0, some ⟨d.2, 0, true⟩⟩) ∨
      ((h.slot i).occupant? = none ∧ (g.slot i).occupant? = none) := by
  by_cases hi : ∃ d ∈ ds, d.1.toNat = i
  · obtain ⟨d, hd, rfl⟩ := hi
    exact .inl ⟨d, hd, hh.slot_eq hd, hg.slot_eq hd⟩
  · have hne : ∀ d ∈ ds, d.1.toNat ≠ i := fun d hd hdi => hi ⟨d, hd, hdi⟩
    exact .inr ⟨hh.occupant?_eq_none hsize hne, hg.occupant?_eq_none hsize' hne⟩

/-- A table in which nothing has happened but that objects of an image were defined, and one
    with the same objects that has been in use before. -/
theorem twins_openHoles (hf : h.Founded) (hh : h.openHoles.Bears limits ds)
    (hg : g.openHoles.Bears limits ds) (hsize : h.slots.size ≤ g.slots.size)
    (hroom : g.slots.size ≤ max 1 limits.maxObjects.toNat)
    (hportable : ∀ d ∈ ds, ∀ v ∈ d.2.body.edges, v.Portable) :
    h.openHoles.Twins (pastAges g.openHoles) g.openHoles := by
  have hlt : g.slots.size < 2 ^ 32 := hroom.trans_lt (max_lt (by decide) limits.maxObjects.toNat_lt)
  have hop := opened_openHoles (hsize.trans_lt hlt)
  have hop' := opened_openHoles hlt
  -- A slot has the same object of the image in both tables, or none in either.
  have hcases := hh.holds.slot_cases hg.holds (hop.size ▸ hsize.trans_lt hlt) (hop'.size ▸ hlt)
  have hoccupied (i : Nat) : g.isOccupied i = h.isOccupied i := by
    rw [← hop.isOccupied, ← hop'.isOccupied, isOccupied_eq_slot, isOccupied_eq_slot]
    rcases hcases i with ⟨d, -, hslot, hslot'⟩ | ⟨hnone, hnone'⟩
    · rw [hslot, hslot']
    · rw [hnone, hnone']
  -- What has been open before is in a generation after the first one.
  have haged {i : Nat} (hi : i ≠ 0) (hempty : h.isOccupied i = false) : Aged (pastAges g.openHoles i) 1
      (if i < g.openHoles.slots.size then (g.openHoles.slot i).generation else 1) := by
    refine aged_one ?_
    split
    · next hlt => exact hop'.generation_ne_zero hi (hop'.size ▸ hlt) ((hoccupied i).trans hempty)
    · decide
  refine ⟨hg.limits.trans hh.limits.symm, hg.live.trans hh.live.symm, ?_, ?_, ?_, ?_, fun i => ?_,
    fun i ho => ?_, fun n hn => ?_, ?_, fun i hi => ?_⟩
  · rw [hg.undo, hh.undo, UndoLog.rename, Array.map_empty]
  · exact hop.size ▸ hf.size_pos
  · rwa [hop.size, hop'.size]
  · rwa [hh.limits, hop'.size]
  · rcases hcases i with ⟨d, hd, hslot, hslot'⟩ | ⟨hnone, hnone'⟩
    · have hbody : d.2.body.rename (.later (pastAges g.openHoles)) = d.2.body :=
        Body.rename_eq_self fun v hv => (hportable d hd v hv).rename_later _
      rw [hslot, hslot', Option.map_some, Occupant.rename, Object.rename, hbody]
    · rw [hnone, hnone', Option.map_none]
  · rcases hcases i with ⟨d, hd, hslot, hslot'⟩ | ⟨hnone, -⟩
    · -- Image objects are all in generation zero, as if their slots had never been used.
      have hnever : pastAges g.openHoles i = 0 := by
        have hlt : i < g.openHoles.slots.size := lt_size_of_slot (by rw [hslot']; simp)
        rw [pastAges, if_pos hlt, hslot']
        rfl
      rw [hslot, hslot', hnever]
      exact ⟨rfl, fun _ => rfl⟩
    · exact absurd hnone ho
  · obtain ⟨hn0, hnlt, hempty⟩ := (hop.free n).1 hn
    have hi : n.toNat ≠ 0 := fun h0 => hn0 (UInt32.toNat_inj.1 h0)
    have hfirst := hop.generation_eq_one hf hi hnlt hempty
    have hage := haged hi hempty
    rw [if_pos (hop'.size ▸ hnlt.trans_le hsize)] at hage
    exact ⟨hop.size.symm ▸ hnlt, hfirst.symm ▸ hage⟩
  · rw [hop.size, hop'.size]
    exact free_openHoles_append hf.size_pos hsize hoccupied
  · rw [hop.size] at hi
    refine haged (hf.size_pos.trans_le hi).ne' ?_
    rw [isOccupied_eq_slot, slot_of_size_le hi]
    rfl

end Heap

/-! ## Restarts -/

namespace Machine

variable {base fresh m : Machine} {S : Stack → Prop} {bs : Bytes} {settings : MachineSettings}
  {host host' : Host}

/-- What a machine is loaded with does not depend on its host. -/
theorem load_agrees (hok : load bs settings host = .ok base) (hok' : load bs settings host' = .ok fresh) :
    fresh.image = base.image ∧ fresh.heap = base.heap := by
  obtain ⟨_, _, himage, -, -⟩ := parts_of_load hok
  obtain ⟨_, _, himage', -, -⟩ := parts_of_load hok'
  obtain ⟨himages, -, hheaps⟩ : _ ∧ _ ∧ _ := by
    simpa only [Prod.mk.injEq] using Except.ok.inj (himage'.symm.trans himage)
  exact ⟨himages, hheaps⟩

/-- A table that is filled again is one with a past. -/
theorem Kept.twins_refilled (hm : m.Kept base S) (hload : load bs settings host = .ok base) :
    base.heap.Twins (Heap.pastAges m.refilled) m.refilled := by
  have hd := definable_of_load hload
  have hclassed := hm.classed_foldl hd
  have hfounded := Heap.founded_foldl_withDefined settings.heap base.image.objects.toList
  have hbase : base.heap =
      (base.image.objects.toList.foldl Heap.withDefined (.new settings.heap)).openHoles :=
    heap_of_load hload
  have hbears := bears_of_load hload
  have hbears' := hm.bears_refilled hd
  have hge := hclassed.size_ge
  have hle := hclassed.size_le
  rw [settings_of_load hload] at hbears'
  rw [hclassed.limits, settings_of_load hload] at hle
  rw [hbase, hfounded.opened.size] at hge
  rw [hbase] at hbears ⊢
  refine Heap.twins_openHoles hfounded hbears hbears' hge hle fun d hd => ?_
  exact (load_sound true hload).1.ready.objects d (Array.mem_toList_iff.1 hd)

/-- A signal that waits ends the run before the next instruction. -/
theorem turn_of_interrupt {signal : Signal} (hm : m.interrupt = some signal) (floor : Nat) :
    turn floor m = .error (.interrupted signal) { m with interrupt := none } := by
  have hcheck : checkSignal m = .error (.interrupted signal) { m with interrupt := none } := by
    unfold checkSignal
    simp only [bind, EStateM.bind, get, getThe, MonadStateOf.get, EStateM.get, hm]
    rfl
  unfold turn
  change EStateM.bind checkSignal _ m = _
  rw [EStateM.bind, hcheck]

end Machine

namespace Life

variable {base fresh : Machine} {l : Life} {bs : Bytes} {settings : MachineSettings} {host host' : Host}

/-- When the program has asked for a restart, nothing is left on the stack. -/
theorem Fits.values_settle (hl : l.Fits base)
    (hphase : l.phase = .ended false (.error (.interrupted .restart))) :
    l.machine.settle.stack.values = #[] := by
  have hstack := hl.kept.settle.stack
  have hframes : l.machine.settle.stack.frames = [] := hl.settle.stack.2
  have hbottom := Stack.bottom_iterate_left_le l.machine.stack l.machine.stack.depth
  have hbased : l.machine.stack.base? = some 0 := hl.based 0 (by rw [hphase]; rfl)
  rw [← hstack, Stack.bottom, Stack.base?, hframes, Stack.bottom, hbased] at hbottom
  exact Array.eq_empty_of_size_eq_zero (Nat.le_zero.1 hbottom)

/-- A machine whose program has asked for a restart is restarted, whatever it has been through.
    Nothing is left on its stack, in its globals and to go back to, and its objects are those
    of the image; whatever its object table is asked from then on, it answers as that of a
    machine that has just been loaded, but that new objects are in later generations. -/
theorem Reachable.restarts_like_new (hload : Machine.load bs settings host = .ok base)
    (hfresh : Machine.load bs settings host' = .ok fresh) (hl : Reachable base l)
    (hphase : l.phase = .ended false (.error (.interrupted .restart))) :
    ∃ m, l.machine.settle.restart = .ok m ∧ m.stack.values = #[] ∧ m.stack.frames = [] ∧
      (∀ v ∈ m.globals, v = .nil) ∧ m.result = .nil ∧
      m.heap.undo = { maxSavepoints := settings.heap.maxSavepoints } ∧
      m.heap.Holds fresh.image.objects.toList ∧ m.heap.live = fresh.image.objects.size ∧
      ∃ ages, ∀ rs, Heap.answers (rs.map (Heap.Request.rename (.later ages))) m.heap =
        (Heap.answers rs fresh.heap).map (Prod.map (Heap.Answer.rename (.later ages)) id) := by
  have hfits := hl.fits hload
  have hkept := hfits.settle
  have hd := Machine.definable_of_load hload
  have hbears := hkept.bears_refilled hd
  rw [Machine.settings_of_load hload] at hbears
  obtain ⟨himage, hheap⟩ := Machine.load_agrees hload hfresh
  refine ⟨_, Machine.restart_eq_ok hkept hd, hfits.values_settle hphase, hkept.stack.2, fun v hv => ?_, rfl,
    hbears.undo, himage ▸ hbears.holds, himage ▸ hbears.live, Heap.pastAges l.machine.settle.refilled,
    fun rs => ?_⟩
  · obtain ⟨_, -, rfl⟩ := Array.mem_map.1 hv
    rfl
  · rw [hheap]
    exact (hkept.twins_refilled hload).answers_eq rs

/-- An image whose program makes a list and asks for a restart. -/
def restarter : Bytes :=
  let program := [Instr.pushObj 1, .new 1 0, .builtin 0 13 0, .retNil].foldl Assembler.emit
    (Assembler.method { maxStack := 2 })
  ImageDraft.encode {
    metaclasses := #[("list", [])]
    functionSets := #["tads-gen/030008"]
    code := program.finish.toArray
    objects := #[⟨1, 0, [0, 0]⟩]
    entry? := some 0 }

/-- A new list gets the slot of the one that the program has made, under another name than
    on a machine that has just been loaded. -/
theorem restarts_like_new_restarting : ∃ base l m, Machine.load restarter {} {} = .ok base ∧
    Reachable base l ∧ l.phase = .ended false (.error (.interrupted .restart)) ∧
    l.machine.settle.restart = .ok m ∧
    Heap.answers [.operation (.alloc ⟨0, .list []⟩)] base.heap = [(.name (some ⟨2, 1⟩), 2)] ∧
    Heap.answers [.operation (.alloc ⟨0, .list []⟩)] m.heap = [(.name (some ⟨2, 2⟩), 2)] ∧
    m.stack.values = #[] ∧
    ∃ ages, ∀ rs, Heap.answers (rs.map (Heap.Request.rename (.later ages))) m.heap =
      (Heap.answers rs base.heap).map (Prod.map (Heap.Answer.rename (.later ages)) id) := by
  have hrun : (Machine.load restarter {} {}).toOption.any (fun base =>
      Heap.answers [.operation (.alloc ⟨0, .list []⟩)] base.heap == [(.name (some ⟨2, 1⟩), 2)] &&
      (Session.runFor? 3 base).any fun m => m.interrupt == some .restart &&
        (Machine.settle { m with interrupt := none }).restart.toOption.any fun m' =>
          Heap.answers [.operation (.alloc ⟨0, .list []⟩)] m'.heap == [(.name (some ⟨2, 2⟩), 2)]) = true := by
    decide +kernel
  obtain ⟨base, hload, hrun⟩ := Machine.exists_load_of_any hrun
  obtain ⟨hnew, hrun⟩ := Bool.and_eq_true_iff.1 hrun
  obtain ⟨m, hm, hrun⟩ := (Option.any_eq_true ..).1 hrun
  obtain ⟨hsignal, hrun⟩ := Bool.and_eq_true_iff.1 hrun
  have hrunning : Reachable base ⟨.running false, m⟩ := leads_of_runFor? hm
  have hended : Reachable base
      ⟨.ended false (.error (.interrupted .restart)), { m with interrupt := none }⟩ :=
    hrunning.tail (.halt rfl (fun h => by cases h) (Machine.turn_of_interrupt (eq_of_beq hsignal) 0))
  obtain ⟨m', hok, hvalues, -, -, -, -, -, -, hanswers⟩ := hended.restarts_like_new hload hload rfl
  rw [hok] at hrun
  exact ⟨base, _, m', hload, hended, rfl, hok, eq_of_beq hnew, eq_of_beq hrun, hvalues, hanswers⟩

end Life

end StoryMachine
