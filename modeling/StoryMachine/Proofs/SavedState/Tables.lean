import StoryMachine.Proofs.Machine.Tables
import StoryMachine.Proofs.SavedState.RoundTrip

/-!
# Lookup tables of saved states

An image with a lookup table that has a key twice is refused. A saved state with such a table
is not: the machine that is put back to it has the table as it stands in the bytes, and one
can take the key out of it and still find it there.

* `Heap.Restored.get?_eq_some`: the objects that a machine has that has been put back;
* `restore_keysDistinct_iff`: when no table has a key twice.
-/

namespace StoryMachine

/-- The objects of a table that has been filled are those of the state. -/
theorem Heap.Restored.get?_eq_some {h : Heap} {os : List SavedObject} {roots : List Value}
    (hh : h.Restored os roots) (hdistinct : (os.map (·.id.index)).Nodup) {id : ObjectId}
    {object : Object} :
    h.get? id = some object ↔ ∃ o ∈ os, o.id = id ∧ o.object = object := by
  constructor
  · intro hget
    obtain ⟨oc, hoc, rfl⟩ := Option.map_eq_some_iff.1 hget
    obtain ⟨o, ho, hid, hobject, -⟩ := hh.occupant id oc hoc
    exact ⟨o, ho, hid, hobject.symm⟩
  · rintro ⟨o, ho, rfl, rfl⟩
    obtain ⟨oc, hoc⟩ := contains_iff.1 ((hh.contains o.id).2 (List.mem_map_of_mem ho))
    obtain ⟨o', ho', hid, hobject, -⟩ := hh.occupant o.id oc hoc
    -- No other object of the state has that slot.
    obtain rfl := List.inj_on_of_nodup_map hdistinct ho' ho (congrArg ObjectId.index hid)
    exact Option.map_eq_some_iff.2 ⟨oc, hoc, hobject⟩

namespace Machine

variable {m m' : Machine} {bs : Bytes}

/-- A machine that is put back to the state that some bytes hold gets the lookup tables of
    the state, whatever keys they have: no table of the machine has a key twice exactly if
    none of the state has. In each of them, a key that has been taken out is still there
    exactly if the table had it twice. The numbers of slots have 32 bits. -/
theorem restore_keysDistinct_iff (hsize : m.heap.slots.size < 2 ^ 32)
    (hok : restore bs m = .ok () m') :
    ∃ s, SavedState.parse m.heap m.image.metaclasses m.image.identity bs = .ok s ∧
      (∀ id entries, m'.heap.entriesAt? id = some entries ↔
        ∃ o ∈ s.objects, o.id = id ∧ o.object.body = .table entries) ∧
      (m'.heap.KeysDistinct ↔ ∀ o ∈ s.objects, ∀ entries, o.object.body = .table entries →
        (entries.map Prod.fst).Nodup) ∧
      ∀ id entries key, m'.heap.entriesAt? id = some entries →
        ∃ m'', NativeMethod.removeElement.call (.obj id) [key] m' =
            .ok ((entries.lookup key).getD .nil) m'' ∧
          (m''.heap.contains id = true →
            NativeMethod.isKeyPresent.call (.obj id) [key] m'' =
              .ok (.ofBool (decide (2 ≤ (entries.map Prod.fst).count key))) m'') := by
  obtain ⟨s, hparse, -, hh⟩ := exists_parse_of_restore hsize hok
  have hdistinct := (SavedState.admissible_of_parse hparse).placeable.distinct
  have htables (id : ObjectId) (entries : List (Value × Value)) :
      m'.heap.entriesAt? id = some entries ↔
        ∃ o ∈ s.objects, o.id = id ∧ o.object.body = .table entries := by
    rw [Heap.entriesAt?_eq_some]
    simp only [hh.get?_eq_some hdistinct]
    constructor
    · rintro ⟨_, ⟨o, ho, hid, rfl⟩, hbody⟩
      exact ⟨o, ho, hid, hbody⟩
    · rintro ⟨o, ho, hid, hbody⟩
      exact ⟨_, ⟨o, ho, hid, rfl⟩, hbody⟩
  refine ⟨s, hparse, htables, ⟨fun hkeys o ho entries hbody => ?_, fun hkeys id entries he => ?_⟩,
    fun id entries key he => ?_⟩
  · exact hkeys o.id entries ((htables o.id entries).2 ⟨o, ho, rfl, hbody⟩)
  · obtain ⟨o, ho, -, hbody⟩ := (htables id entries).1 he
    exact hkeys o ho entries hbody
  · obtain ⟨m'', hcall, hleft⟩ := removeElement_eq he key
    refine ⟨m'', hcall, fun hstays => ?_⟩
    rw [isKeyPresent_eq (hleft hstays), any_eraseP]

/-- An image with a lookup table. -/
def tabular (entries : List (Value × Value)) : Bytes :=
  ImageDraft.encode {
    metaclasses := #[("lookuptable", [])]
    code := ([Instr.retNil].foldl Assembler.emit (Assembler.method {})).finish.toArray
    objects := #[⟨1, 0, ObjectData.entries entries⟩]
    entry? := some 0 }

/-- A state of that image in which its table has other entries. -/
def tabulated (entries : List (Value × Value)) : SavedState :=
  ⟨[⟨.ofImage 1, true, ⟨0, .table entries⟩⟩], []⟩

/-- Entries with different keys. -/
def apart : List (Value × Value) := [(.int 1, .int 7), (.int 2, .int 8)]

/-- Two entries for one key. -/
def doubled : List (Value × Value) := [(.int 1, .int 7), (.int 1, .int 8)]

/-- Whether a key is still in a table after it has been taken out. -/
def presentWithout (table key : Value) : MachineM Value := do
  let _ ← NativeMethod.removeElement.call table [key]
  NativeMethod.isKeyPresent.call table [key]

/-- No key comes twice in the bytes, and so none does in the machine. -/
theorem restore_keysDistinct_tabular : ∃ m m', load (tabular doubled.tail) {} {} = .ok m ∧
    m.heap.slots.size < 2 ^ 32 ∧
    restore ((tabulated apart).encode m.image.metaclasses m.image.identity) m = .ok () m' ∧
    m'.heap.entriesAt? (.ofImage 1) = some apart ∧ m'.heap.KeysDistinct := by
  have hrun : (load (tabular doubled.tail) {} {}).toOption.any (fun m =>
      decide (m.heap.slots.size < 2 ^ 32) &&
        decide (SavedState.Placeable m.heap m.image.metaclasses (tabulated apart).objects) &&
        decide (m.image.identity.length = SavedState.digestSize)) = true := by
    decide +kernel
  obtain ⟨m, hload, hrun⟩ := exists_load_of_any hrun
  simp only [Bool.and_eq_true, decide_eq_true_eq] at hrun
  obtain ⟨⟨hsize, hs⟩, hidentity⟩ := hrun
  have hparse := (SavedState.parse_encode_eq_ok_iff hs (by decide) hidentity).2 ⟨by decide, rfl⟩
  obtain ⟨m', hok⟩ := exists_restore_eq_ok_iff.2 ⟨_, hparse⟩
  obtain ⟨s, hparse', htables, hkeys, -⟩ := restore_keysDistinct_iff hsize hok
  obtain rfl := Except.ok.inj (hparse.symm.trans hparse')
  refine ⟨m, m', hload, hsize, hok, ?_, ?_⟩
  · exact (htables _ _).2 ⟨_, List.mem_singleton_self _, rfl, rfl⟩
  · refine hkeys.2 fun o ho entries hbody => ?_
    obtain rfl := List.mem_singleton.1 ho
    obtain rfl := Body.table.inj hbody
    decide

/-- An image with two entries for one key is refused, and a state with them is not. In the
    machine that is put back to it, the key is there after it has been taken out. -/
theorem not_restore_keysDistinct_doubled : (∀ m, load (tabular doubled) {} {} ≠ .ok m) ∧
    ∃ m m' m'', load (tabular doubled.tail) {} {} = .ok m ∧
      restore ((tabulated doubled).encode m.image.metaclasses m.image.identity) m = .ok () m' ∧
      m'.heap.entriesAt? (.ofImage 1) = some doubled ∧
      presentWithout (.obj (.ofImage 1)) (.int 1) m' = .ok .truth m'' := by
  have hrefused : (load (tabular doubled) {} {}).isOk = false := by decide +kernel
  have hrun : (load (tabular doubled.tail) {} {}).toOption.any (fun m =>
      decide (SavedState.Placeable m.heap m.image.metaclasses (tabulated doubled).objects) &&
        decide (m.image.identity.length = SavedState.digestSize) &&
        match replaceState ((tabulated doubled).renamed m.image.metaclasses) m with
        | .ok _ m' => decide (m'.heap.entriesAt? (.ofImage 1) = some doubled) &&
          decide (Ends (presentWithout (.obj (.ofImage 1)) (.int 1) m') (fun v _ => v = .truth)
            fun _ _ => False)
        | .error _ _ => false) = true := by
    decide +kernel
  obtain ⟨m, hload, hrun⟩ := exists_load_of_any hrun
  obtain ⟨hstate, hrun⟩ := Bool.and_eq_true_iff.1 hrun
  simp only [Bool.and_eq_true, decide_eq_true_eq] at hstate
  obtain ⟨hs, hidentity⟩ := hstate
  have hparse := (SavedState.parse_encode_eq_ok_iff hs (by decide) hidentity).2 ⟨by decide, rfl⟩
  obtain ⟨m', hok⟩ := exists_restore_eq_ok_iff.2 ⟨_, hparse⟩
  rw [← restore_of_parse_ok hparse, hok] at hrun
  simp only [Bool.and_eq_true, decide_eq_true_eq] at hrun
  obtain ⟨_, m'', hcall, rfl⟩ := hrun.2.exists_ok
  refine ⟨fun m hload => ?_, m, m', m'', hload, hok, hrun.1, hcall⟩
  rw [hload] at hrefused
  cases hrefused

end Machine

end StoryMachine
