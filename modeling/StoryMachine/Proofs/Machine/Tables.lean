import StoryMachine.Proofs.Machine.Native

/-!
# Lookup tables

Whoever asks a lookup table for a key gets the first entry that has it, and taking the key
out takes out that entry. So the key is gone then, unless the table had it twice.

* `Heap.entriesAt?`: the entries of a table;
* `Heap.KeysDistinct`: no table has a key twice;
* `Heap.removeEntry_eq`, `Machine.removeElement_eq`: what is left of a table without a key;
* `any_eraseP`: when the key is still there.
-/

namespace StoryMachine

/-! ## Entries -/

section Entries

variable {entries : List (Value × Value)} {key : Value}

theorem any_eq_mem_keys (entries : List (Value × Value)) (key : Value) :
    entries.any (·.1 == key) = decide (key ∈ entries.map Prod.fst) := by
  rw [Bool.eq_iff_iff, List.any_eq_true, decide_eq_true_iff, List.mem_map]
  simp only [beq_iff_eq]

theorem keys_eraseP (entries : List (Value × Value)) (key : Value) :
    (entries.eraseP (·.1 == key)).map Prod.fst = (entries.map Prod.fst).erase key := by
  rw [List.erase_eq_eraseP', List.eraseP_map, Function.comp_def]

/-- A key is still there when an entry for it has been taken out, if there were two. -/
theorem any_eraseP (entries : List (Value × Value)) (key : Value) :
    (entries.eraseP (·.1 == key)).any (·.1 == key) =
      decide (2 ≤ (entries.map Prod.fst).count key) := by
  rw [any_eq_mem_keys, keys_eraseP, decide_eq_decide, ← List.count_pos_iff, List.count_erase_self]
  omega

theorem any_of_lookup_eq_none (hnone : entries.lookup key = none) :
    entries.any (·.1 == key) = false := by
  rw [List.lookup_eq_none_iff] at hnone
  refine List.any_eq_false.2 fun e he => ?_
  exact fun heq => bne_iff_ne.1 (hnone e he) (eq_of_beq heq).symm

/-- The entries that the body of an object has, if it is a lookup table. -/
def Body.entries? : Body → Option (List (Value × Value))
  | table entries => some entries
  | _ => none

theorem Body.entries?_eq_some {b : Body} : b.entries? = some entries ↔ b = .table entries := by
  constructor
  · intro hb
    cases b with
    | table es => exact congrArg table (Option.some.inj hb)
    | _ => cases hb
  · rintro rfl
    rfl

end Entries

/-! ## Tables of a heap -/

namespace Heap

variable {h h' : Heap} {id : ObjectId} {entries left : List (Value × Value)} {key : Value}

/-- The entries of the lookup table under a name. -/
def entriesAt? (h : Heap) (id : ObjectId) : Option (List (Value × Value)) :=
  (h.get? id).bind fun o => o.body.entries?

/-- No lookup table has a key twice. -/
def KeysDistinct (h : Heap) : Prop :=
  ∀ id entries, h.entriesAt? id = some entries → (entries.map Prod.fst).Nodup

theorem entriesAt?_eq_some :
    h.entriesAt? id = some entries ↔ ∃ o, h.get? id = some o ∧ o.body = .table entries := by
  simp only [entriesAt?, Option.bind_eq_some_iff, Body.entries?_eq_some]

theorem get?_setBody_self (h : Heap) (id : ObjectId) (body : Body) :
    (h.setBody id body).get? id = (h.get? id).map fun o => { o with body } := by
  rw [get?, setBody, occupant?_modifyOccupant, if_pos rfl, get?, Option.map_map, Option.map_map]
  rfl

/-- A table has the entries that it has been given. -/
theorem entriesAt?_setBody_self (hcontains : h.contains id = true)
    (entries : List (Value × Value)) :
    (h.setBody id (.table entries)).entriesAt? id = some entries := by
  obtain ⟨oc, hoc⟩ := contains_iff.1 hcontains
  rw [entriesAt?, get?_setBody_self, get?, hoc]
  rfl

theorem contains_of_entriesAt? (hentries : h.entriesAt? id = some entries) :
    h.contains id = true := by
  obtain ⟨o, ho, -⟩ := entriesAt?_eq_some.1 hentries
  obtain ⟨oc, hoc, -⟩ := Option.map_eq_some_iff.1 ho
  exact contains_iff.2 ⟨oc, hoc⟩

/-- Taking away objects does nothing to a table that stays. -/
theorem Shrinks.entriesAt?_eq (hs : h.Shrinks h') (hstays : h'.contains id = true) :
    h'.entriesAt? id = h.entriesAt? id := by
  rw [entriesAt?, hs.objects id hstays, entriesAt?]

/-- A key is taken out of a table with its first entry. What that entry held is released,
    so that objects may be gone, the table among them. -/
theorem removeEntry_eq (hentries : h.entriesAt? id = some entries) (key : Value) :
    ∃ h', removeEntry id key h = .ok (entries.any (·.1 == key)) h' ∧
      (h.setBody id (.table (entries.eraseP (·.1 == key)))).Shrinks h' := by
  obtain ⟨o, ho, hbody⟩ := entriesAt?_eq_some.1 hentries
  rw [List.eraseP_eq_eraseIdx, ← List.findIdx?_isSome]
  cases hi : entries.findIdx? (·.1 == key) with
  | none =>
    refine ⟨_, changeBody_bind (a := none) (b := .table entries) ho ?_, .refl _⟩
    rw [hbody]
    simp [asTable, hi, bind, Except.bind, pure, Except.pure]
  | some i =>
    obtain ⟨w, hw⟩ := exists_of_findIdx?_eq_some hi
    refine ⟨_, changeBody_bind (a := some (i, key, w)) (b := .table (entries.eraseIdx i)) ho ?_,
      .record _ id (.entryRemoved i key w)⟩
    rw [hbody]
    simp [asTable, hi, hw, bind, Except.bind, pure, Except.pure]

end Heap

/-! ## Methods of tables -/

namespace Machine

variable {m : Machine} {id : ObjectId} {entries : List (Value × Value)} {key : Value}

theorem tableEntries_eq (hentries : m.heap.entriesAt? id = some entries) :
    tableEntries (.obj id) m = .ok entries m := by
  obtain ⟨o, ho, hbody⟩ := Heap.entriesAt?_eq_some.1 hentries
  refine (bind_eq_of_ok (x := expectObject (.obj id)) (a := id) rfl).trans ?_
  rw [bind_eq_of_ok (deref_eq_ok ho), hbody]
  rfl

theorem isKeyPresent_eq (hentries : m.heap.entriesAt? id = some entries) (key : Value) :
    NativeMethod.isKeyPresent.call (.obj id) [key] m =
      .ok (.ofBool (entries.any (·.1 == key))) m := by
  refine (bind_eq_of_ok (x := argument [key] 0) (a := key) rfl).trans ?_
  rw [bind_eq_of_ok (tableEntries_eq hentries)]
  rfl

/-- Taking a key out of a table gives its value, and leaves the entries without the first one
    for the key, if the table stays. -/
theorem removeElement_eq (hentries : m.heap.entriesAt? id = some entries) (key : Value) :
    ∃ m', NativeMethod.removeElement.call (.obj id) [key] m =
        .ok ((entries.lookup key).getD .nil) m' ∧
      (m'.heap.contains id = true →
        m'.heap.entriesAt? id = some (entries.eraseP (·.1 == key))) := by
  cases hv : entries.lookup key with
  | none =>
    refine ⟨m, ?_, fun _ => ?_⟩
    · refine (bind_eq_of_ok (x := argument [key] 0) (a := key) rfl).trans ?_
      rw [bind_eq_of_ok (tableEntries_eq hentries), hv]
      rfl
    · rw [hentries, List.eraseP_of_forall_not]
      exact List.any_eq_false.1 (any_of_lookup_eq_none hv)
  | some v =>
    -- The value is held when its entry goes, and that changes nothing in the table.
    have hretained : (m.heap.retainValue v).entriesAt? id = some entries := by
      rwa [Heap.entriesAt?, Heap.get?_retainValue]
    obtain ⟨h, hok, hs⟩ := Heap.removeEntry_eq hretained key
    refine ⟨{ m with heap := h }, ?_, fun hstays => ?_⟩
    · refine (bind_eq_of_ok (x := argument [key] 0) (a := key) rfl).trans ?_
      rw [bind_eq_of_ok (tableEntries_eq hentries), hv]
      refine (bind_eq_of_ok (x := owned v) (a := v) rfl).trans ?_
      exact bind_eq_of_ok (onHeap_ok hok)
    · rw [hs.entriesAt?_eq hstays]
      exact Heap.entriesAt?_setBody_self (Heap.contains_of_entriesAt? hretained) _

end Machine

end StoryMachine
