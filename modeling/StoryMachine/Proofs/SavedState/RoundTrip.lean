import StoryMachine.Code.Assembler
import StoryMachine.Image.Draft
import StoryMachine.Proofs.SavedState.Restore
import StoryMachine.Proofs.SavedState.Save

/-!
# Saving and then restoring

A machine that is put back to a state has the objects and the globals of the machine
that has saved it. This works for any machine of the same image with the same limits,
whatever that one was doing, as long as nothing is missing from the state.

* `Machine.described?`: what is saved of an object;
* `restore_saveState`: a machine gets the objects and the globals of another;
* `restore_saveState_self_iff`: whether a machine can be put back to its own state.
-/

namespace StoryMachine.Machine

variable {m m₁ m₂ : Machine}

/-- What a name means: whether the object is persistent, the name of its metaclass,
    and what it holds. -/
def described? (m : Machine) (id : ObjectId) : Option (Bool × Option String × Body) :=
  (m.heap.occupant? id).map fun o =>
    (o.persistent, (m.image.metaclasses.get? o.object.metaclass).map (·.kind.name), o.object.body)

/-- A state is accepted if nothing is missing from it. -/
theorem Savable.parse_saveState_iff (hm : m₁.Savable) (m₂ : Machine)
    (himage : m₂.image = m₁.image) (hsettings : m₂.heap.settings = m₁.heap.settings) {s : SavedState} :
    SavedState.parse m₂.heap m₂.image.metaclasses m₂.image.identity m₁.saveState.1 = .ok s ↔
      m₁.saveState.2.savedState.Closed ∧
        s = m₁.saveState.2.savedState.renamed m₁.image.metaclasses := by
  have hm' := hm.collectGarbage
  have hlimits : m₂.heap.settings = m₁.collectGarbage.2.heap.settings :=
    hsettings.trans (Heap.settings_collect _ _).symm
  rw [himage]
  exact SavedState.parse_encode_eq_ok_iff (hm'.placeable hlimits) hm'.fits hm.identity

/-- An object of a state that has been put in place of another is as persistent as that of
    the machine that has saved it, holds the same, and is of the first metaclass for its
    kind. -/
theorem Savable.occupant?_eq (hm : m₁.Savable) {h : Heap} {roots : List Value}
    (hh : h.Restored (m₁.savedState.renamed m₁.image.metaclasses).objects roots) (id : ObjectId) :
    (h.occupant? id).map (fun o => (o.persistent, o.object)) =
      (m₁.heap.occupant? id).map fun o =>
        (o.persistent, o.object.renamed m₁.image.metaclasses) := by
  have hids : (m₁.savedState.renamed m₁.image.metaclasses).objects.map (·.id) = m₁.heap.ids :=
    List.map_map.trans (map_id_savedState hm.size_lt)
  have hcontains : h.contains id = true ↔ m₁.heap.contains id = true := by
    rw [hh.contains, hids, Heap.mem_ids_iff hm.size_lt]
  cases ho : h.occupant? id with
  | none =>
    have hgone : m₁.heap.occupant? id = none := by
      rw [Heap.contains, Heap.contains, ho] at hcontains
      simpa using hcontains
    rw [hgone]
    rfl
  | some o =>
    obtain ⟨_, hsaved, hid, hobject, hpersistent, -⟩ := hh.occupant id o ho
    obtain ⟨saved, hmem, rfl⟩ := List.mem_map.1 hsaved
    have hid : saved.id = id := hid
    obtain ⟨o', ho', hobject', hpersistent'⟩ := (mem_savedState hm.size_lt).1 hmem
    rw [← hid, ho', Option.map_some, Option.map_some, hpersistent, hpersistent', hobject, hobject']
    rfl

theorem Savable.typed_of_occupant? (hm : m.Savable) {id : ObjectId} {o : Occupant}
    (ho : m.heap.occupant? id = some o) : o.object.Typed m.image.metaclasses :=
  hm.typed o (Heap.mem_occupants_of_occupant? ho)

/-- The objects of a state that has been put in place of another are those of the
    machine that has saved it. -/
theorem Savable.described?_eq (hm : m₁.Savable) (m₂ : Machine) (himage : m₂.image = m₁.image)
    {roots : List Value} (hh : m₂.heap.Restored (m₁.savedState.renamed m₁.image.metaclasses).objects roots)
    (id : ObjectId) : m₂.described? id = m₁.described? id := by
  have hdescribed := congrArg (Option.map fun p : Bool × Object =>
    (p.1, (m₁.image.metaclasses.get? p.2.metaclass).map (·.kind.name), p.2.body))
    (hm.occupant?_eq hh id)
  rw [Option.map_map, Option.map_map] at hdescribed
  rw [described?, described?, himage]
  refine hdescribed.trans (Option.map_congr fun o ho => ?_)
  -- The object may be of another metaclass than before, but one of the same name.
  have htyped := hm.typed_of_occupant? ho
  simp only [Function.comp_apply]
  rw [htyped.renamed.name, htyped.name]
  rfl

/-- Nothing goes missing when garbage is collected. -/
theorem Savable.closed_saveState (hm : m.Savable)
    (hheld : ∀ id, .obj id ∈ m.heap.edges ++ m.globals.toList → m.heap.contains id = true) :
    m.saveState.2.savedState.Closed := by
  have hsize : (m.heap.collect m.roots).2.slots.size < 2 ^ 32 :=
    (Heap.size_collect m.heap m.roots).symm ▸ hm.size_lt
  refine (closed_savedState_iff hsize).2 fun id hid => ?_
  refine Heap.contains_collect_of_held hm.size_lt ?_ (hheld id ?_)
  · rcases List.mem_append.1 hid with hedge | hglobal
    · exact List.mem_append_left _ hedge
    · refine List.mem_append_right _ ?_
      simp only [roots, List.mem_append]
      exact .inl (.inl (.inr hglobal))
  · rcases List.mem_append.1 hid with hedge | hglobal
    · exact List.mem_append_left _ (Heap.mem_edges_of_collect hm.size_lt hedge)
    · exact List.mem_append_right _ hglobal

/-- A machine that is put back to a state gets all the globals of the machine that has
    saved it, if it has as many. -/
theorem mapIdx_getD_of_size_eq {xs ys : Array Value} (hsize : xs.size = ys.size) :
    (xs.mapIdx fun i _ => ys.toList.toArray.getD i .nil) = ys := by
  apply Array.ext
  · rw [Array.size_mapIdx, hsize]
  · intro i hi hi'
    simp [hi']

/-- A machine is put back to the state that another one has saved, if both are of one
    image, have the same limits and as many globals, and what objects and globals of
    the other one refer to was there. Then its objects and globals are those that were
    left after garbage had been collected: the names are the same, and under each of
    them there is an object that is persistent if it was, has a metaclass of that name
    and the same body. The log is empty, and the counts are the places in which names
    occur, up to the largest number of counts there is. -/
theorem restore_saveState (hm : m₁.Savable)
    (hheld : ∀ id, .obj id ∈ m₁.heap.edges ++ m₁.globals.toList → m₁.heap.contains id = true)
    (himage : m₂.image = m₁.image) (hsettings : m₂.heap.settings = m₁.heap.settings)
    (hglobals : m₂.globals.size = m₁.globals.size) (hsize : m₂.heap.slots.size < 2 ^ 32) :
    ∃ m, restore m₁.saveState.1 m₂ = .ok () m ∧
      (∀ id, m.described? id = m₁.saveState.2.described? id) ∧
      m.globals = m₁.saveState.2.globals ∧
      m.heap.undo.savepoints = [] ∧ m.heap.undo.records = #[] ∧
      ∀ id o, m.heap.occupant? id = some o →
        o.refs.toNat = min ((m.heap.edges ++ m.roots).count (.obj id)) 0xFFFFFFFF := by
  have hm' : m₁.saveState.2.Savable := hm.collectGarbage
  have hparse := (hm.parse_saveState_iff m₂ himage hsettings).2 ⟨hm.closed_saveState hheld, rfl⟩
  obtain ⟨m, hok, himage', hglobals', hh, hwell⟩ := restore_eq_ok hsize hparse
  refine ⟨m, hok, fun id => ?_, ?_, hwell.undo.1, hwell.undo.2, hwell.refs⟩
  · exact hm'.described?_eq m (himage'.trans himage) hh id
  · exact hglobals'.trans (mapIdx_getD_of_size_eq hglobals)

/-- An image with two objects that refer to each other, and an empty slot before
    them. -/
def ring : Bytes :=
  ImageDraft.encode {
    metaclasses := #[("tads-object", []), ("vector", [])]
    code := ([Instr.retNil].foldl Assembler.emit (Assembler.method {})).finish.toArray
    objects := #[⟨2, 0, ObjectData.program [] [(7, .obj (.ofImage 3))]⟩,
      ⟨3, 0, ObjectData.program [2] [(7, .obj (.ofImage 2))]⟩]
    entry? := some 0 }

/-- Makes a vector that holds itself, and gives the first object a property for it. -/
def makeVector (metaclass : MetaclassId) : HeapM Unit := do
  let id ← Heap.alloc ⟨metaclass, .vector [.float 0x7ff8000000000001, .nil]⟩
  Heap.setElement id 1 (.obj id)
  modify (·.retain id)
  Heap.setProp (.ofImage 2) 8 (.obj id)

/-- The machine with a new vector that holds itself. -/
def withVector (metaclass : MetaclassId) (m : Machine) : Machine :=
  match makeVector metaclass m.heap with
  | .ok _ heap => { m with heap }
  | .error _ heap => { m with heap }

theorem image_withVector (metaclass : MetaclassId) (m : Machine) :
    (m.withVector metaclass).image = m.image := by
  unfold withVector
  split <;> rfl

instance (m : Machine) : Decidable m.Savable :=
  decidable_of_iff (m.heap.slots.size ≤ max 1 m.heap.settings.maxObjects.toNat ∧
      m.heap.isOccupied 0 = false ∧ m.image.identity.length = SavedState.digestSize ∧
      (∀ o ∈ m.heap.occupants, o.object.Typed m.image.metaclasses) ∧
      (∀ o ∈ m.heap.occupants, o.object.body.Fits) ∧ m.globals.size < 2 ^ 16)
    ⟨fun ⟨h₁, h₂, h₃, h₄, h₅, h₆⟩ => ⟨h₁, h₂, h₃, h₄, h₅, h₆⟩,
      fun ⟨h₁, h₂, h₃, h₄, h₅, h₆⟩ => ⟨h₁, h₂, h₃, h₄, h₅, h₆⟩⟩

/-- What the machine refers to is there. -/
def Whole (m : Machine) : Prop :=
  ∀ id ∈ Value.objects (m.heap.edges ++ m.globals.toList), m.heap.contains id = true

instance (m : Machine) : Decidable m.Whole := inferInstanceAs (Decidable (∀ _ ∈ _, _))

theorem restore_saveState_ring : ∃ m₁ m₂ m, load ring { globals := 1 } {} = .ok m₂ ∧
    m₁ = m₂.withVector 1 ∧ restore m₁.saveState.1 m₂ = .ok () m ∧
    ∀ id, m.described? id = m₁.saveState.2.described? id := by
  have hrun : (load ring { globals := 1 } {}).toOption.any (fun m =>
      decide ((m.withVector 1).Savable) && decide ((m.withVector 1).Whole) &&
        decide (m.heap.settings = (m.withVector 1).heap.settings) &&
        decide (m.globals.size = (m.withVector 1).globals.size) &&
        decide (m.heap.slots.size < 2 ^ 32)) = true := by
    decide +kernel
  obtain ⟨m, hload, hrun⟩ := exists_load_of_any hrun
  simp only [Bool.and_eq_true, decide_eq_true_eq] at hrun
  obtain ⟨⟨⟨⟨hm, hwhole⟩, hsettings⟩, hglobals⟩, hsize⟩ := hrun
  obtain ⟨m', hok, hobjects, -⟩ := restore_saveState hm
    (fun id hid => hwhole id (Value.mem_objects.2 hid)) (image_withVector 1 m).symm hsettings
    hglobals hsize
  exact ⟨_, m, m', hload, rfl, hok, hobjects⟩

/-- A state in which there is an object without a metaclass is not accepted. -/
theorem not_restore_saveState_untyped : ∃ m₁ m₂, load ring { globals := 1 } {} = .ok m₂ ∧
    m₁ = m₂.withVector 99 ∧
    (∀ id, .obj id ∈ m₁.heap.edges ++ m₁.globals.toList → m₁.heap.contains id = true) ∧
    (∀ o ∈ m₁.heap.occupants, o.object.body.Fits) ∧ m₁.globals.size < 2 ^ 16 ∧
    m₂.image = m₁.image ∧ m₂.heap.settings = m₁.heap.settings ∧
    m₂.globals.size = m₁.globals.size ∧ ¬∃ m, restore m₁.saveState.1 m₂ = .ok () m := by
  have hrun : (load ring { globals := 1 } {}).toOption.any (fun m =>
      decide ((m.withVector 99).Whole) &&
        decide (∀ o ∈ (m.withVector 99).heap.occupants, o.object.body.Fits) &&
        decide ((m.withVector 99).globals.size < 2 ^ 16) &&
        decide (m.heap.settings = (m.withVector 99).heap.settings) &&
        decide (m.globals.size = (m.withVector 99).globals.size) &&
        decide (m.image.identity.length = SavedState.digestSize) &&
        decide ((m.withVector 99).saveState.2.savedState.objects.length = 3) &&
        (m.withVector 99).saveState.2.savedState.objects.head?.any fun o =>
          (m.image.metaclasses.get? o.object.metaclass).isNone) = true := by
    decide +kernel
  obtain ⟨m, hload, hrun⟩ := exists_load_of_any hrun
  simp only [Bool.and_eq_true, decide_eq_true_eq] at hrun
  obtain ⟨⟨⟨⟨⟨⟨⟨hwhole, hfits⟩, hfew⟩, hsettings⟩, hglobals⟩, hidentity⟩, hlength⟩, hfirst⟩ := hrun
  refine ⟨_, m, hload, rfl, fun id hid => hwhole id (Value.mem_objects.2 hid), hfits, hfew,
    (image_withVector 99 m).symm, hsettings, hglobals, fun hok => ?_⟩
  -- The vector got the slot before the objects of the image, so it comes first in the
  -- state.
  obtain ⟨s, hparse⟩ := exists_restore_eq_ok_iff.1 hok
  obtain ⟨o, os, hobjects⟩ := List.exists_cons_of_length_eq_add_one hlength
  rw [hobjects, List.length_cons] at hlength
  rw [hobjects, List.head?_cons, Option.any_some, Option.isNone_iff_eq_none] at hfirst
  rw [← image_withVector 99 m] at hparse hidentity hfirst
  have htyped := SavedState.isSome_get?_of_parse_encode hobjects (by omega) hidentity hparse
  rw [hfirst] at htyped
  cases htyped

/-- A state is accepted by the machine that has just saved it if nothing is missing
    from it, and only then. -/
theorem Savable.exists_restore_saveState_iff (hm : m.Savable) :
    (∃ m', restore m.saveState.1 m.saveState.2 = .ok () m') ↔
      m.saveState.2.savedState.Closed := by
  have hsettings : m.saveState.2.heap.settings = m.heap.settings := Heap.settings_collect _ _
  rw [exists_restore_eq_ok_iff]
  simp [hm.parse_saveState_iff m.saveState.2 rfl hsettings]

/-- A machine can be put back to the state that it has just saved if nothing is missing
    from it, and only then. -/
theorem restore_saveState_self_iff (hm : m.Savable) :
    (∃ m', restore m.saveState.1 m.saveState.2 = .ok () m') ↔
      ∀ id, .obj id ∈ m.saveState.2.heap.edges ++ m.saveState.2.globals.toList →
        m.saveState.2.heap.contains id = true :=
  hm.exists_restore_saveState_iff.trans (closed_savedState_iff hm.collectGarbage.size_lt)

theorem restore_saveState_self_ring : ∃ m m', load ring { globals := 1 } {} = .ok m ∧
    restore (m.withVector 1).saveState.1 (m.withVector 1).saveState.2 = .ok () m' := by
  have hrun : (load ring { globals := 1 } {}).toOption.any (fun m =>
      decide ((m.withVector 1).Savable) && decide ((m.withVector 1).saveState.2.Whole)) = true := by
    decide +kernel
  obtain ⟨m, hload, hrun⟩ := exists_load_of_any hrun
  simp only [Bool.and_eq_true, decide_eq_true_eq] at hrun
  obtain ⟨m', hok⟩ := (restore_saveState_self_iff hrun.1).2
    fun id hid => hrun.2 id (Value.mem_objects.2 hid)
  exact ⟨m, m', hload, hok⟩

/-- An image with an object that refers to one which is not there. -/
def dangling : Bytes :=
  ImageDraft.encode {
    metaclasses := #[("tads-object", [])]
    code := ([Instr.retNil].foldl Assembler.emit (Assembler.method {})).finish.toArray
    objects := #[⟨1, 0, ObjectData.program [] [(7, .obj (.ofImage 2))]⟩]
    entry? := some 0 }

/-- What the machine for that image saves is of no use to it. -/
theorem not_restore_saveState_dangling : ∃ m, load dangling { globals := 1 } {} = .ok m ∧
    ¬∃ m', restore m.saveState.1 m.saveState.2 = .ok () m' := by
  have hrun : (load dangling { globals := 1 } {}).toOption.any (fun m =>
      decide m.Savable && !decide m.saveState.2.Whole) = true := by
    decide +kernel
  obtain ⟨m, hload, hrun⟩ := exists_load_of_any hrun
  simp only [Bool.and_eq_true, Bool.not_eq_true', decide_eq_true_eq, decide_eq_false_iff_not]
    at hrun
  refine ⟨m, hload, fun hok => hrun.2 fun id hid => ?_⟩
  have hclosed := hrun.1.exists_restore_saveState_iff.1 hok
  exact (closed_savedState_iff hrun.1.collectGarbage.size_lt).1 hclosed id (Value.mem_objects.1 hid)

end StoryMachine.Machine
