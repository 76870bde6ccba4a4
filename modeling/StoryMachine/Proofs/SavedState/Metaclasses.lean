import StoryMachine.Proofs.SavedState.RoundTrip

/-!
# Metaclasses of restored objects

An image may depend on a metaclass more than once, each time with other properties for its
native methods. An object knows by which entry of the table it was made, but a saved state
has only the name of its metaclass. So an object comes back as one of the first entry with
that name, and properties may call other methods on it than before.

* `Object.Typed.renamed_eq_iff`: which objects come back as they were;
* `Savable.get?_restore`: what becomes of an object;
* `restore_saveState_get?_iff`: when all objects are as they were.
-/

namespace StoryMachine

variable {t : MetaclassTable} {o : Object}

/-- An object comes back as it was exactly if no earlier entry has the name of its
    metaclass. -/
theorem Object.Typed.renamed_eq_iff (ho : o.Typed t) :
    o.renamed t = o ↔ t.idByName? o.body.kind.name = some o.metaclass := by
  obtain ⟨metaclass, -, hid, -⟩ := ho.exists_idByName?
  rw [Object.renamed, hid, Option.getD_some, Option.some.injEq]
  exact ⟨congrArg Object.metaclass, fun he => he ▸ rfl⟩

/-- If there is only one entry of each kind, it is the first of its name. -/
theorem Object.Typed.idByName?_of_nodup (ho : o.Typed t)
    (hnodup : (t.entries.toList.map (·.kind)).Nodup) :
    t.idByName? o.body.kind.name = some o.metaclass := by
  obtain ⟨metaclass, entry, hid, hentry, hkind⟩ := ho.exists_idByName?
  obtain ⟨entry', hentry', hkind'⟩ := Option.map_eq_some_iff.1 ho
  rw [hid, Option.some.injEq, ← UInt16.toNat_inj]
  have hget {i : Nat} {e : MetaclassEntry} (he : t.entries[i]? = some e) :
      (t.entries.toList.map (·.kind))[i]? = some e.kind := by
    rw [List.getElem?_map, Array.getElem?_toList, he, Option.map_some]
  have hfirst := hget hentry
  refine (List.getElem?_inj (List.getElem?_eq_some_iff.1 hfirst).1 hnodup).1 ?_
  rw [hfirst, hget hentry', hkind, hkind']

namespace Machine

variable {m m₁ m₂ m' : Machine}

/-- What becomes of an object when a machine is put back to the state that it or another one
    of the same image has saved. -/
theorem Savable.get?_restore (hm : m₁.Savable) (himage : m₂.image = m₁.image)
    (hsettings : m₂.heap.settings = m₁.heap.settings) (hsize : m₂.heap.slots.size < 2 ^ 32)
    (hok : restore m₁.saveState.1 m₂ = .ok () m') : m'.image = m₁.image ∧ ∀ id,
      m'.heap.get? id =
        (m₁.saveState.2.heap.get? id).map (Object.renamed m₁.image.metaclasses) := by
  obtain ⟨s, hparse, himage', hh⟩ := exists_parse_of_restore hsize hok
  obtain ⟨-, rfl⟩ := (hm.parse_saveState_iff m₂ himage hsettings).1 hparse
  refine ⟨himage'.trans himage, fun id => ?_⟩
  have hm' : m₁.saveState.2.Savable := hm.collectGarbage
  have hobject := congrArg (Option.map Prod.snd) (hm'.occupant?_eq hh id)
  rw [Option.map_map, Option.map_map] at hobject
  rw [Heap.get?, Heap.get?, Option.map_map]
  exact hobject

theorem Savable.typed_saveState (hm : m.Savable) {id : ObjectId} {o : Object}
    (ho : m.saveState.2.heap.get? id = some o) : o.Typed m.image.metaclasses := by
  obtain ⟨oc, hoc, rfl⟩ := Option.map_eq_some_iff.1 ho
  exact hm.collectGarbage.typed_of_occupant? hoc

theorem get?_of_saveState {id : ObjectId} {o : Object}
    (ho : m.saveState.2.heap.get? id = some o) : m.heap.get? id = some o := by
  obtain ⟨oc, hoc, rfl⟩ := Option.map_eq_some_iff.1 ho
  obtain ⟨oc', hoc', hobject, -⟩ := Heap.exists_occupant?_of_collect hoc
  exact Option.map_eq_some_iff.2 ⟨oc', hoc', hobject⟩

/-- A machine that is put back to a saved state has the objects that were left after garbage
    had been collected, each of the first metaclass for its kind. So all of them are as they
    were exactly if no metaclass of them has an earlier entry of the same name, and certainly
    if the image names no metaclass twice. -/
theorem restore_saveState_get?_iff (hm : m₁.Savable) (himage : m₂.image = m₁.image)
    (hsettings : m₂.heap.settings = m₁.heap.settings) (hsize : m₂.heap.slots.size < 2 ^ 32)
    (hok : restore m₁.saveState.1 m₂ = .ok () m') :
    m'.image = m₁.image ∧
    (∀ id o, m₁.saveState.2.heap.get? id = some o → m₁.heap.get? id = some o) ∧
    (∀ id, m'.heap.get? id =
      (m₁.saveState.2.heap.get? id).map (Object.renamed m₁.image.metaclasses)) ∧
    ((∀ id, m'.heap.get? id = m₁.saveState.2.heap.get? id) ↔
      ∀ id o, m₁.saveState.2.heap.get? id = some o →
        m₁.image.metaclasses.idByName? o.body.kind.name = some o.metaclass) ∧
    ((m₁.image.metaclasses.entries.toList.map (·.kind)).Nodup →
      ∀ id, m'.heap.get? id = m₁.saveState.2.heap.get? id) := by
  obtain ⟨himage', hobjects⟩ := hm.get?_restore himage hsettings hsize hok
  have hsame : (∀ id, m'.heap.get? id = m₁.saveState.2.heap.get? id) ↔
      ∀ id o, m₁.saveState.2.heap.get? id = some o →
        m₁.image.metaclasses.idByName? o.body.kind.name = some o.metaclass := by
    refine forall_congr' fun id => ?_
    rw [hobjects]
    cases ho : m₁.saveState.2.heap.get? id with
    | none => simp
    | some o =>
      rw [Option.map_some, Option.some.injEq, (hm.typed_saveState ho).renamed_eq_iff]
      simp
  refine ⟨himage', fun id o ho => get?_of_saveState ho, hobjects, hsame, fun hnodup => ?_⟩
  exact hsame.2 fun id o ho => (hm.typed_saveState ho).idByName?_of_nodup hnodup

theorem image_saveState (m : Machine) : m.saveState.2.image = m.image := rfl

theorem settings_saveState (m : Machine) : m.saveState.2.heap.settings = m.heap.settings :=
  Heap.settings_collect _ _

theorem exists_restore_of_whole (hm : m.Savable) (hwhole : m.saveState.2.Whole) :
    ∃ m', restore m.saveState.1 m.saveState.2 = .ok () m' :=
  hm.exists_restore_saveState_iff.2 <|
    (closed_savedState_iff hm.collectGarbage.size_lt).2 fun id hid =>
      hwhole id (Value.mem_objects.2 hid)

/-- No metaclass is named twice, so all objects come back as they were. -/
theorem restore_saveState_get?_ring : ∃ m m', load ring { globals := 1 } {} = .ok m ∧
    restore (m.withVector 1).saveState.1 (m.withVector 1).saveState.2 = .ok () m' ∧
    ∀ id, m'.heap.get? id = (m.withVector 1).saveState.2.heap.get? id := by
  have hrun : (load ring { globals := 1 } {}).toOption.any (fun m =>
      decide (m.withVector 1).Savable && decide (m.withVector 1).saveState.2.Whole &&
        decide ((m.withVector 1).image.metaclasses.entries.toList.map (·.kind)).Nodup) = true := by
    decide +kernel
  obtain ⟨m, hload, hrun⟩ := exists_load_of_any hrun
  simp only [Bool.and_eq_true, decide_eq_true_eq] at hrun
  obtain ⟨⟨hm, hwhole⟩, hnodup⟩ := hrun
  obtain ⟨m', hok⟩ := exists_restore_of_whole hm hwhole
  refine ⟨m, m', hload, hok, ?_⟩
  exact (restore_saveState_get?_iff hm (image_saveState _) (settings_saveState _)
    hm.collectGarbage.size_lt hok).2.2.2.2 hnodup

/-- An image that names a metaclass twice, with different properties. Its object is of the
    second entry. -/
def twofold : Bytes :=
  ImageDraft.encode {
    metaclasses := #[("tads-object", [7]), ("tads-object", [0, 7])]
    code := ([Instr.retNil].foldl Assembler.emit (Assembler.method {})).finish.toArray
    objects := #[⟨1, 1, ObjectData.program [] []⟩]
    entry? := some 0 }

/-- The method that a property calls on an object. -/
def nativeAt? (m : Machine) (id : ObjectId) (p : PropId) : Option NativeMethod :=
  (m.heap.get? id).bind fun o => m.image.metaclasses.native? o.metaclass p

/-- When the machine for that image is put back to its own state, its object is of the first
    entry, and a property calls another method on it. -/
theorem not_restore_saveState_twofold : ∃ m m', load twofold { globals := 1 } {} = .ok m ∧
    restore m.saveState.1 m.saveState.2 = .ok () m' ∧
    (m.heap.get? (.ofImage 1)).map Object.metaclass = some 1 ∧
    (m'.heap.get? (.ofImage 1)).map Object.metaclass = some 0 ∧
    m.nativeAt? (.ofImage 1) 7 = some .ofKind ∧
    m'.nativeAt? (.ofImage 1) 7 = some .createInstance := by
  have hrun : (load twofold { globals := 1 } {}).toOption.any (fun m =>
      decide m.Savable && decide m.saveState.2.Whole &&
        decide (m.heap.get? (.ofImage 1) = some ⟨1, .program [] .empty⟩) &&
        decide (m.saveState.2.heap.get? (.ofImage 1) = some ⟨1, .program [] .empty⟩) &&
        decide (m.image.metaclasses.idByName? "tads-object" = some 0) &&
        decide (m.image.metaclasses.native? 1 7 = some .ofKind) &&
        decide (m.image.metaclasses.native? 0 7 = some .createInstance)) = true := by
    decide +kernel
  obtain ⟨m, hload, hrun⟩ := exists_load_of_any hrun
  simp only [Bool.and_eq_true, decide_eq_true_eq] at hrun
  obtain ⟨⟨⟨⟨⟨⟨hm, hwhole⟩, hbefore⟩, hsaved⟩, hid⟩, hsecond⟩, hfirst⟩ := hrun
  obtain ⟨m', hok⟩ := exists_restore_of_whole hm hwhole
  obtain ⟨himage, hobjects⟩ := hm.get?_restore (image_saveState _) (settings_saveState _)
    hm.collectGarbage.size_lt hok
  have hafter : m'.heap.get? (.ofImage 1) = some ⟨0, .program [] .empty⟩ := by
    rw [hobjects, hsaved, Option.map_some, Object.renamed]
    change some (Object.mk ((m.image.metaclasses.idByName? "tads-object").getD 0) _) = _
    rw [hid]
    rfl
  refine ⟨m, m', hload, hok, by rw [hbefore]; rfl, by rw [hafter]; rfl, ?_, ?_⟩
  · rw [nativeAt?, hbefore]
    exact hsecond
  · rw [nativeAt?, hafter, himage]
    exact hfirst

end Machine

end StoryMachine
