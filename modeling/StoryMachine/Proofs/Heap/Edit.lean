import StoryMachine.Proofs.Heap.Onward
import StoryMachine.Proofs.Object.PropTable

/-!
# Changes to objects

Every operation that changes an object is an *edit*: the object gets another
body, and a record says how to get the former one back. What the caller gave up
for it is then held by the new body, and what the former body held is owned by
the record, or is released if nothing is recorded.

* `Change.Fits`: a record applies to a body as it stands;
* `Change.edges_revert`: going back loses and invents nothing;
* `Heap.Edit`: what an operation on an object does;
* `Heap.setProp_cases` and the like: the operations are edits or change nothing;
* `Counted.edit`: an edit keeps the counts.
-/

namespace StoryMachine

/-! ## Lists with something put in or taken out -/

section FlatMap

variable {α β : Type} (g : α → List β) {l : List α} {i : Nat} {a : α}

theorem coe_flatMap_eraseIdx (ha : l[i]? = some a) :
    (((l.eraseIdx i).flatMap g : List β) : Multiset β) + (g a : Multiset β) =
      (l.flatMap g : List β) := by
  obtain ⟨hi, rfl⟩ := List.getElem?_eq_some_iff.1 ha
  have := Multiset.coe_eq_coe.2 ((List.getElem_cons_eraseIdx_perm hi).flatMap_right g)
  rw [List.flatMap_cons, ← Multiset.coe_add] at this
  rw [← this, add_comm]

theorem coe_flatMap_insertIdx (hi : i ≤ l.length) (a : α) :
    (((l.insertIdx i a).flatMap g : List β) : Multiset β) =
      (l.flatMap g : List β) + (g a : Multiset β) := by
  have := Multiset.coe_eq_coe.2 ((List.perm_insertIdx a l hi).flatMap_right g)
  rw [List.flatMap_cons, ← Multiset.coe_add] at this
  rw [this, add_comm]

/-- A list as a sum. -/
theorem coe_cons_eq (a : α) (l : List α) :
    ((a :: l : List α) : Multiset α) = {a} + (l : Multiset α) := rfl

end FlatMap

/-- What a pair of a key and a value holds. -/
def pairEdges (e : Value × Value) : List Value := [e.1, e.2]

namespace Body

theorem edges_program (supers : List ObjectId) (props : PropTable) :
    (program supers props).edges = supers.map .obj ++ props.values := rfl

theorem edges_vector (items : List Value) :
    (vector items).edges = items.flatMap fun v => [v] := by
  simp [edges]

theorem edges_table (entries : List (Value × Value)) :
    (table entries).edges = entries.flatMap pairEdges := rfl

end Body

namespace Change

/-- The change applies to the body as it stands. -/
def Fits : Change → Body → Prop
  | prop _ _, .program _ _ => True
  | element index _, .vector items => index < items.length
  | inserted index, .vector items => index < items.length
  | removed index _, .vector items => index ≤ items.length
  | entry index key _, .table entries => ∃ v, entries[index]? = some (key, v)
  | entryRemoved index _ _, .table entries => index ≤ entries.length
  | _, _ => False

/-- Going back, what the change mentions and the body held is what the former
    body holds and what is let go. -/
theorem edges_revert (c : Change) (b : Body) :
    ((c.revert b).1.edges : Multiset Value) + ((c.revert b).2 : Multiset Value) =
      b.edges + c.values := by
  cases b <;> cases c <;> try rfl
  case program.prop supers props p prior =>
    cases prior with
    | none =>
      simp only [revert, Body.edges_program, ← Multiset.coe_add, values, Option.toList_none,
        Multiset.coe_nil, add_zero, add_assoc, PropTable.values_erase]
    | some v =>
      simp only [revert, Body.edges_program, ← Multiset.coe_add, values, Option.toList_some,
        add_assoc, PropTable.values_set]
  case vector.element items index prior =>
    simp only [revert]
    split
    · next current hc =>
      rw [Body.edges_vector, Body.edges_vector]
      exact coe_flatMap_set _ hc prior
    · rfl
  case vector.inserted items index =>
    simp only [revert]
    split
    · next current hc =>
      rw [Body.edges_vector, Body.edges_vector]
      simpa [values] using coe_flatMap_eraseIdx (fun v => [v]) hc
    · rfl
  case vector.removed items index prior =>
    simp only [revert]
    split
    · next hi =>
      rw [Body.edges_vector, Body.edges_vector]
      simpa [values] using coe_flatMap_insertIdx (fun v => [v]) hi prior
    · rfl
  case table.entry entries index key prior =>
    simp only [revert]
    split
    · next k v hkv =>
      -- The entry was new, so going back takes it out, and its key and its value with it.
      have := coe_flatMap_eraseIdx pairEdges (Option.filter_eq_some_iff.1 hkv).1
      rw [Body.edges_table, Body.edges_table, ← this]
      simp only [pairEdges, values, Option.toList_none, coe_cons_eq]
      abel
    · next k v prior hkv =>
      obtain ⟨hget, hk⟩ := Option.filter_eq_some_iff.1 hkv
      obtain rfl : k = key := by simpa using hk
      exact coe_flatMap_set pairEdges hget (k, prior)
    · rfl
  case table.entryRemoved entries index key value =>
    simp only [revert]
    rw [Body.edges_table, Body.edges_table]
    simpa [values, pairEdges] using
      coe_flatMap_insertIdx pairEdges (Nat.min_le_right index entries.length) (key, value)

end Change

namespace Heap

variable {stale : Bool} {h h' : Heap} {id : ObjectId} {o : Occupant} {held M : Multiset Value}

/-! ## Another body -/

theorem get?_eq_some_iff {object : Object} :
    h.get? id = some object ↔ ∃ o, h.occupant? id = some o ∧ o.object = object := by
  rw [get?, Option.map_eq_some_iff]

theorem setBody_self (ho : h.occupant? id = some o) : h.setBody id o.object.body = h := by
  rw [setBody, modifyOccupant, modifySlot_eq]
  obtain ⟨s, hs, hg, hso⟩ := occupant?_eq_some_iff.1 ho
  have hslots : h.slots.modify id.index.toNat (fun s =>
      if s.generation = id.generation then
        { s with occupant? := s.occupant?.map fun o' =>
          { o' with object := { o'.object with body := o.object.body } } }
      else s) = h.slots := by
    apply Array.ext_getElem?
    intro j
    rw [Array.getElem?_modify]
    split
    · next hj =>
      rw [← hj, hs, Option.map_some, if_pos hg, hso]
      cases s
      simp_all
    · rfl
  rw [hslots]

theorem Tidy.setBody (ht : h.Tidy) (id : ObjectId) (body : Body) : (h.setBody id body).Tidy :=
  ht.modifyOccupant id fun _ => rfl

theorem Balanced.setBody (hb : h.Balanced stale M) (id : ObjectId) (body : Body) :
    (h.setBody id body).Balanced stale M where
  exact id' o ho hp := by
    rw [Heap.setBody, occupant?_modifyOccupant] at ho
    split at ho
    · obtain ⟨o', ho', rfl⟩ := Option.map_eq_some_iff.1 ho
      exact hb.exact id' o' ho' hp
    · exact hb.exact id' o ho hp
  known id' hid' := (hb.known id' hid').modifyOccupant _ _

theorem owned_setBody (ho : h.occupant? id = some o) (body : Body) :
    (h.setBody id body).owned + (o.object.body.edges : Multiset Value) =
      h.owned + body.edges := by
  have := edges_modifyOccupant ho fun o => { o with object := { o.object with body } }
  rw [owned, owned, setBody, undo_modifyOccupant, add_right_comm, this]
  exact add_right_comm _ _ _

/-- A body takes over what is given up for it, and gives up what it held. -/
theorem Counted.setBody {given taken : Multiset Value} (hc : h.Counted stale (given + held))
    (ho : h.occupant? id = some o) {body : Body}
    (hbal : (body.edges : Multiset Value) + taken = o.object.body.edges + given) :
    (h.setBody id body).Counted stale (taken + held) where
  tidy := hc.tidy.setBody id body
  ordered := by simpa [Heap.setBody] using hc.ordered
  balanced hr := by
    have hsum : (h.setBody id body).owned + (taken + held) = h.owned + (given + held) := by
      refine add_right_cancel (b := (o.object.body.edges : Multiset Value)) ?_
      calc (h.setBody id body).owned + (taken + held) + o.object.body.edges
          = (h.setBody id body).owned + o.object.body.edges + taken + held := by abel
        _ = h.owned + (body.edges + taken) + held := by rw [owned_setBody ho]; abel
        _ = h.owned + (given + held) + o.object.body.edges := by rw [hbal]; abel
    rw [hsum]
    exact (hc.balanced hr.of_modifyOccupant).setBody id body

theorem Reliable.of_retainValue {v : Value} (hr : (h.retainValue v).Reliable stale) :
    h.Reliable stale := by
  cases v with
  | obj id => exact Reliable.of_retain hr
  | _ => exact hr

theorem Known.retainValue {id : ObjectId} (hk : h.Known stale id) (v : Value) :
    (h.retainValue v).Known stale id := by
  cases v with
  | obj id' => exact hk.modifyOccupant id' Occupant.retain
  | _ => exact hk

theorem Reliable.of_retainValues {vs : List Value} (hr : (h.retainValues vs).Reliable stale) :
    h.Reliable stale := by
  induction vs generalizing h with
  | nil => exact hr
  | cons v vs ih => exact (ih hr).of_retainValue

theorem Balanced.retainValues {vs : List Value} (hb : h.Balanced stale M)
    (hr : (h.retainValues vs).Reliable stale) (hk : ∀ id, .obj id ∈ vs → h.Known stale id) :
    (h.retainValues vs).Balanced stale (vs + M) := by
  induction vs generalizing h M with
  | nil => simpa [Heap.retainValues] using hb
  | cons v vs ih =>
    have hv : (h.retainValue v).Balanced stale (v ::ₘ M) := by
      cases v with
      | obj id =>
        exact hb.retain (Reliable.of_retainValues (h := h.retain id) hr) (hk id List.mem_cons_self)
      | _ => exact hb.congr fun id => by simp
    have := ih hv hr fun id hid => (hk id (List.mem_cons_of_mem _ hid)).retainValue v
    rwa [Multiset.add_cons, ← Multiset.cons_add, Multiset.cons_coe] at this

theorem owned_retainValues (h : Heap) (vs : List Value) : (h.retainValues vs).owned = h.owned := by
  induction vs generalizing h with
  | nil => rfl
  | cons v vs ih =>
    refine (ih (h.retainValue v)).trans ?_
    cases v with
    | obj id => exact owned_retain h id
    | _ => rfl

theorem Tidy.retainValues (ht : h.Tidy) (vs : List Value) : (h.retainValues vs).Tidy := by
  induction vs generalizing h with
  | nil => exact ht
  | cons v vs ih =>
    refine ih ?_
    cases v with
    | obj id => exact ht.retain id
    | _ => exact ht

@[simp] theorem undo_retainValues (h : Heap) (vs : List Value) :
    (h.retainValues vs).undo = h.undo := by
  induction vs generalizing h with
  | nil => rfl
  | cons v vs ih =>
    refine (ih (h.retainValue v)).trans ?_
    cases v with
    | obj id => simp [retainValue, Heap.retain]
    | _ => rfl

theorem Counted.retainValues {vs : List Value} (hc : h.Counted stale held)
    (hk : h.Reliable stale → ∀ id, .obj id ∈ vs → h.Known stale id) :
    (h.retainValues vs).Counted stale (vs + held) where
  tidy := hc.tidy.retainValues vs
  ordered := by simpa using hc.ordered
  balanced hr := by
    have := (hc.balanced hr.of_retainValues).retainValues hr (hk hr.of_retainValues)
    rwa [owned_retainValues, add_left_comm]

/-! ## Records -/

/-- What a log no longer owns goes to the caller, and the other way round. -/
theorem Counted.withLog {M : Multiset Value} (hc : h.Counted stale held) {log : UndoLog}
    (hlog : log.Ordered) (hsum : (log.values : Multiset Value) + M = h.undo.values + held) :
    Counted stale { h with undo := log } M where
  tidy := ⟨hc.tidy.1, hc.tidy.2, hc.tidy.3, hc.tidy.4, hc.tidy.5, hc.tidy.6, hc.tidy.7⟩
  ordered := hlog
  balanced hr := by
    have hb := hc.balanced ⟨hr.1, hr.2⟩
    have howned : owned { h with undo := log } + M = h.owned + held := by
      change (h.edges : Multiset Value) + log.values + M = h.edges + h.undo.values + held
      rw [add_assoc, hsum, add_assoc]
    rw [howned]
    exact ⟨hb.exact, hb.known⟩

/-- What a record mentions is owned by the log, or released if nothing is
    recorded. -/
theorem Counted.record {change : Change} (hc : h.Counted stale (change.values + held))
    (hid : h.contains id = true) : (h.record id change).Counted stale held := by
  unfold Heap.record
  split
  · have hr : (h.retain id).Counted stale _ := hc.retain fun _ => .inr (.inl hid)
    refine hr.withLog ⟨fun s hs => ?_, hr.ordered.ascending⟩ ?_
    · rw [Array.size_push]
      exact Nat.le_succ_of_le (hr.ordered.start_le s hs)
    · simp only [UndoLog.values, Array.toList_push, List.flatMap_append, List.flatMap_cons,
        List.flatMap_nil, List.append_nil, UndoRecord.values, ← Multiset.coe_add, coe_cons_eq,
        ← Multiset.singleton_add]
      abel
  · exact hc.releaseValues

/-! ## Edits -/

/-- An object gets another body, and a record of how to get the former one back.
    The values given up for it and those taken out of it are the caller's; for
    those that come to stand in one more place a count is taken. -/
inductive Edit (h : Heap) (id : ObjectId) : List Value → List Value → Heap → Prop where
  /-- The edit of the object `o`. -/
  | intro {o : Occupant} {body : Body} {change : Change} {given taken : List Value}
      (extra : List Value) (target : h.occupant? id = some o) (fits : change.Fits body)
      (reverts : (change.revert body).1 = o.object.body)
      (balance : (body.edges : Multiset Value) + (change.values + taken : Multiset Value) =
        o.object.body.edges + (given + extra : Multiset Value))
      (sources : ∀ v ∈ extra, v ∈ o.object.body.edges ∨ v ∈ given) :
      Edit h id given taken (((h.setBody id body).retainValues extra).record id change)

theorem contains_setBody (h : Heap) (id : ObjectId) (body : Body) (id' : ObjectId) :
    (h.setBody id body).contains id' = h.contains id' :=
  contains_modifyOccupant _ _ _ _

theorem contains_retainValue (h : Heap) (v : Value) (id : ObjectId) :
    (h.retainValue v).contains id = h.contains id := by
  cases v with
  | obj id' => exact contains_modifyOccupant h id' Occupant.retain id
  | _ => rfl

theorem get?_retainValue (h : Heap) (v : Value) (id : ObjectId) :
    (h.retainValue v).get? id = h.get? id := by
  cases v with
  | obj id' =>
    change ((h.modifyOccupant id' Occupant.retain).occupant? id).map Occupant.object = _
    rw [occupant?_modifyOccupant, get?]
    split
    · rw [Option.map_map]
      rfl
    · rfl
  | _ => rfl

theorem contains_retainValues (h : Heap) (vs : List Value) (id : ObjectId) :
    (h.retainValues vs).contains id = h.contains id := by
  induction vs generalizing h with
  | nil => rfl
  | cons v vs ih => exact (ih (h.retainValue v)).trans (contains_retainValue h v id)

theorem mem_owned_of_edge {v : Value} (ho : h.occupant? id = some o)
    (hv : v ∈ o.object.body.edges) : v ∈ h.owned := by
  obtain ⟨s, hs, -, hso⟩ := occupant?_eq_some_iff.1 ho
  refine Multiset.mem_add.2 (.inl (Multiset.mem_coe.2 (List.mem_flatMap.2 ⟨s, ?_, ?_⟩)))
  · exact Array.mem_toList_iff.2 (Array.mem_of_getElem? hs)
  · rwa [Slot.edges_occupied hso]

theorem Onward.setBody (h : Heap) (id : ObjectId) (body : Body) : h.Onward (h.setBody id body) :=
  .modifyOccupant h id fun _ => rfl

theorem Shrinks.record (h : Heap) (id : ObjectId) (change : Change) :
    h.Shrinks (h.record id change) := by
  unfold Heap.record
  split
  · exact (Shrinks.retain h id).congr rfl rfl rfl
  · exact .releaseValues h _

theorem Edit.onward {given taken : List Value} (he : h.Edit id given taken h') :
    h.Onward h' := by
  obtain @⟨o, body, change, given, taken, extra, -, -, -, -, -⟩ := he
  exact ((Onward.setBody h id body).trans (Shrinks.retainValues _ extra).toOnward).trans
    (Shrinks.record _ id change).toOnward

/-- An edit keeps the counts. -/
theorem Counted.edit {given taken : List Value} (hc : h.Counted stale (given + held))
    (he : h.Edit id given taken h') : h'.Counted stale (taken + held) := by
  obtain @⟨o, body, change, given, taken, extra, ho, -, -, hbal, hsrc⟩ := he
  refine Counted.record ?_ ?_
  · refine ⟨(hc.tidy.setBody id body).retainValues extra, ?_, fun hr => ?_⟩
    · simpa [Heap.setBody] using hc.ordered
    · have hb := hc.balanced hr.of_retainValues.of_modifyOccupant
      have hk : ∀ id', .obj id' ∈ extra → (h.setBody id body).Known stale id' := by
        intro id' hid'
        refine (hb.known id' ?_).modifyOccupant _ _
        rcases hsrc _ hid' with hmem | hmem
        · exact Multiset.mem_add.2 (.inl (mem_owned_of_edge ho hmem))
        · exact Multiset.mem_add.2 (.inr (Multiset.mem_add.2 (.inl hmem)))
      have := (hb.setBody id body).retainValues hr hk
      have hsum : ((h.setBody id body).retainValues extra).owned +
          ((change.values : Multiset Value) + (taken + held)) =
          extra + (h.owned + (given + held)) := by
        rw [owned_retainValues]
        refine add_right_cancel (b := (o.object.body.edges : Multiset Value)) ?_
        calc (h.setBody id body).owned + (change.values + (taken + held)) + o.object.body.edges
            = (h.setBody id body).owned + o.object.body.edges + (change.values + taken) + held := by
              abel
          _ = h.owned + (body.edges + (change.values + taken)) + held := by
              rw [owned_setBody ho]; abel
          _ = extra + (h.owned + (given + held)) + o.object.body.edges := by rw [hbal]; abel
      rwa [hsum]
  · rw [contains_retainValues, contains_setBody]
    exact contains_iff.2 ⟨o, ho⟩

/-! ## The operations as edits -/

/-- An operation on an object fails and changes nothing, or is an edit of it, or
    succeeds without anything to do. -/
def EditsAt {α : Type} (x : HeapM α) (h : Heap) (id : ObjectId) (given : List Value)
    (taken : α → List Value) : Prop :=
  (∃ e, x h = .error e h) ∨ ∃ a h', x h = .ok a h' ∧
    (h.Edit id given (taken a) h' ∨ h' = h ∧ given = [] ∧ taken a = [])

theorem changeBody_cases {α : Type} (h : Heap) (id : ObjectId)
    (f : Body → Except HeapError (α × Body)) :
    (∃ e, changeBody id f h = .error e h) ∨ ∃ o a body, h.occupant? id = some o ∧
      f o.object.body = .ok (a, body) ∧ changeBody id f h = .ok a (h.setBody id body) := by
  cases ho : h.occupant? id with
  | none =>
    refine .inl ⟨.invalidObject id, ?_⟩
    simp [changeBody, get?, ho, bind, EStateM.bind, get, getThe, MonadStateOf.get, EStateM.get,
      throw, throwThe, MonadExceptOf.throw, EStateM.throw]
  | some o =>
    cases hf : f o.object.body with
    | error e =>
      refine .inl ⟨e, ?_⟩
      simp [changeBody, get?, ho, hf, bind, EStateM.bind, get, getThe, MonadStateOf.get,
        EStateM.get, throw, throwThe, MonadExceptOf.throw, EStateM.throw]
    | ok r =>
      refine .inr ⟨o, r.1, r.2, rfl, hf, ?_⟩
      simp [changeBody, get?, ho, hf, bind, EStateM.bind, get, getThe, MonadStateOf.get,
        EStateM.get, modify, modifyGet, MonadStateOf.modifyGet, EStateM.modifyGet, pure,
        EStateM.pure]

/-- An operation is an edit if what follows the change of the body makes it one. -/
theorem editsAt_changeBody {α β : Type} {f : Body → Except HeapError (α × Body)}
    {k : α → HeapM β} {given : List Value} {taken : β → List Value}
    (hk : ∀ o a body, h.occupant? id = some o → f o.object.body = .ok (a, body) →
      ∃ b h', k a (h.setBody id body) = .ok b h' ∧
        (h.Edit id given (taken b) h' ∨ h' = h ∧ given = [] ∧ taken b = [])) :
    EditsAt (changeBody id f >>= k) h id given taken := by
  rcases changeBody_cases h id f with ⟨e, he⟩ | ⟨o, a, body, ho, hf, he⟩
  · exact .inl ⟨e, by simp only [bind, EStateM.bind, he]⟩
  · obtain ⟨b, h', hb, hedit⟩ := hk o a body ho hf
    exact .inr ⟨b, h', by simp only [bind, EStateM.bind, he, hb], hedit⟩

theorem asProgram_eq_ok {b : Body} {r : List ObjectId × PropTable} (hr : asProgram id b = .ok r) :
    b = .program r.1 r.2 := by
  cases b <;> simp [asProgram] at hr
  rw [← hr]

theorem asVector_eq_ok {b : Body} {items : List Value} (hr : asVector id b = .ok items) :
    b = .vector items := by
  cases b <;> simp_all [asVector]

theorem asTable_eq_ok {b : Body} {entries : List (Value × Value)}
    (hr : asTable id b = .ok entries) : b = .table entries := by
  cases b <;> simp_all [asTable]

theorem setProp_edits (h : Heap) (id : ObjectId) (p : PropId) (v : Value) :
    EditsAt (setProp id p v) h id [v] fun _ => [] := by
  refine editsAt_changeBody fun o prior body ho hf => ?_
  obtain ⟨r, hr, hpure⟩ := Except.bind_eq_ok.1 hf
  obtain ⟨rfl, rfl⟩ := Prod.mk.inj (Except.ok.inj hpure)
  have hbody := asProgram_eq_ok hr
  refine ⟨(), _, rfl, .inl (.intro [] ho trivial ?_ ?_ (by simp))⟩
  · rw [hbody]
    cases hp : r.2.get? p with
    | none => simp [Change.revert, PropTable.erase_set_of_get?_eq_none hp]
    | some w => simp [Change.revert, PropTable.set_set_of_get?_eq_some hp]
  · rw [hbody, Body.edges_program, Body.edges_program]
    simp only [← Multiset.coe_add, Change.values, Multiset.coe_nil, add_zero, add_assoc,
      PropTable.values_set]

theorem removeProp_edits (h : Heap) (id : ObjectId) (p : PropId) :
    EditsAt (removeProp id p) h id [] fun _ => [] := by
  refine editsAt_changeBody fun o prior body ho hf => ?_
  obtain ⟨r, hr, hpure⟩ := Except.bind_eq_ok.1 hf
  obtain ⟨rfl, rfl⟩ := Prod.mk.inj (Except.ok.inj hpure)
  have hbody := asProgram_eq_ok hr
  cases hp : r.2.get? p with
  | none =>
    refine ⟨false, _, rfl, .inr ⟨?_, rfl, rfl⟩⟩
    rw [PropTable.erase_of_get?_eq_none hp, ← hbody]
    exact setBody_self ho
  | some w =>
    refine ⟨true, _, rfl, .inl (.intro [] ho trivial ?_ ?_ (by simp))⟩
    · rw [hbody]
      simp [Change.revert, PropTable.set_erase_of_get?_eq_some hp]
    · have := r.2.values_erase p
      rw [hp] at this
      rw [hbody, Body.edges_program, Body.edges_program]
      simp only [← Multiset.coe_add, Change.values, Multiset.coe_nil, add_zero, add_assoc, this]

theorem setElement_edits (h : Heap) (id : ObjectId) (index : Nat) (v : Value) :
    EditsAt (setElement id index v) h id [v] fun _ => [] := by
  refine editsAt_changeBody fun o prior body ho hf => ?_
  obtain ⟨items, hr, hf⟩ := Except.bind_eq_ok.1 hf
  have hbody := asVector_eq_ok hr
  split at hf
  · cases hf
  · next prior' hget =>
    obtain ⟨rfl, rfl⟩ := Prod.mk.inj (Except.ok.inj hf)
    have hlt := (List.getElem?_eq_some_iff.1 hget).1
    refine ⟨(), _, rfl, .inl (.intro [] ho ?_ ?_ ?_ (by simp))⟩
    · simpa [Change.Fits] using hlt
    · rw [hbody]
      obtain ⟨_, rfl⟩ := List.getElem?_eq_some_iff.1 hget
      simp [Change.revert, hlt]
    · rw [hbody, Body.edges_vector, Body.edges_vector]
      simpa [Change.values] using coe_flatMap_set (fun v => [v]) hget v

theorem insertElement_edits (h : Heap) (id : ObjectId) (index : Nat) (v : Value) :
    EditsAt (insertElement id index v) h id [v] fun _ => [] := by
  refine editsAt_changeBody fun o _ body ho hf => ?_
  obtain ⟨items, hr, hf⟩ := Except.bind_eq_ok.1 hf
  have hbody := asVector_eq_ok hr
  split at hf
  · cases hf
  · next hindex =>
    obtain ⟨-, rfl⟩ := Prod.mk.inj (Except.ok.inj hf)
    have hle := not_lt.1 hindex
    have hget : (items.insertIdx index v)[index]? = some v := by
      rw [List.getElem?_insertIdx_self, if_pos hle]
    refine ⟨(), _, rfl, .inl (.intro [] ho ?_ ?_ ?_ (by simp))⟩
    · simpa [Change.Fits, List.length_insertIdx_of_le_length hle] using Nat.lt_succ_of_le hle
    · rw [hbody]
      simp [Change.revert, hget]
    · rw [hbody, Body.edges_vector, Body.edges_vector]
      simpa [Change.values] using coe_flatMap_insertIdx (fun v => [v]) hle v

theorem removeElement_edits (h : Heap) (id : ObjectId) (index : Nat) :
    EditsAt (removeElement id index) h id [] fun v => [v] := by
  refine editsAt_changeBody fun o removed body ho hf => ?_
  obtain ⟨items, hr, hf⟩ := Except.bind_eq_ok.1 hf
  have hbody := asVector_eq_ok hr
  split at hf
  · cases hf
  · next removed' hget =>
    obtain ⟨rfl, rfl⟩ := Prod.mk.inj (Except.ok.inj hf)
    have hlt := (List.getElem?_eq_some_iff.1 hget).1
    have hedges := coe_flatMap_eraseIdx (fun v => [v]) hget
    have hle : index ≤ (items.eraseIdx index).length := by
      rw [List.length_eraseIdx_of_lt hlt]
      omega
    refine ⟨removed', _, rfl, .inl (.intro [removed'] ho hle ?_ ?_ ?_)⟩
    · rw [hbody]
      obtain ⟨_, rfl⟩ := List.getElem?_eq_some_iff.1 hget
      simp only [Change.revert, if_pos hle, List.insertIdx_eraseIdx_getElem hlt]
    · rw [hbody, Body.edges_vector, Body.edges_vector, ← hedges]
      simp only [Change.values, Multiset.coe_nil, zero_add, add_assoc]
    · intro v hv
      rw [List.mem_singleton.1 hv, hbody]
      exact .inl (List.mem_of_getElem? hget)

theorem exists_of_findIdx?_eq_some {entries : List (Value × Value)} {key : Value} {i : Nat}
    (hi : entries.findIdx? (·.1 == key) = some i) : ∃ v, entries[i]? = some (key, v) := by
  obtain ⟨hlt, hkey, -⟩ := List.findIdx?_eq_some_iff_getElem.1 hi
  refine ⟨entries[i].2, ?_⟩
  rw [List.getElem?_eq_getElem hlt, ← eq_of_beq hkey]

theorem putEntry_edits (h : Heap) (id : ObjectId) (key v : Value) :
    EditsAt (putEntry id key v) h id [key, v] fun _ => [] := by
  refine editsAt_changeBody fun o a body ho hf => ?_
  obtain ⟨entries, hr, hf⟩ := Except.bind_eq_ok.1 hf
  have hbody := asTable_eq_ok hr
  split at hf
  · -- A new key: the table and its record own a count of it each.
    obtain ⟨rfl, rfl⟩ := Prod.mk.inj (Except.ok.inj hf)
    refine ⟨(), _, rfl, .inl (.intro [key] ho ?_ ?_ ?_ ?_)⟩
    · exact ⟨v, by simp⟩
    · rw [hbody]
      simp [Change.revert, List.eraseIdx_append_of_length_le, Option.filter]
    · rw [hbody, Body.edges_table, Body.edges_table]
      simp only [List.flatMap_append, List.flatMap_cons, List.flatMap_nil, pairEdges,
        ← Multiset.coe_add, Change.values, Option.toList_none, coe_cons_eq, Multiset.coe_nil,
        List.append_nil]
      abel
    · exact fun w hw => .inr (by simp_all)
  · next i hi =>
    obtain ⟨w, hw⟩ := exists_of_findIdx?_eq_some hi
    have hlt := (List.getElem?_eq_some_iff.1 hw).1
    rw [hw] at hf
    obtain ⟨rfl, rfl⟩ := Prod.mk.inj (Except.ok.inj hf)
    refine ⟨(), _, rfl, .inl (.intro [] ho ?_ ?_ ?_ (by simp))⟩
    · exact ⟨v, by simp [hlt]⟩
    · have hset : entries.set i (key, w) = entries := by
        rw [← (List.getElem?_eq_some_iff.1 hw).2, List.set_getElem_self]
      rw [hbody]
      simp [Change.revert, hlt, Option.filter, hset]
    · have := coe_flatMap_set pairEdges hw (key, v)
      rw [hbody, Body.edges_table, Body.edges_table]
      simpa [Change.values, pairEdges] using this

theorem removeEntry_edits (h : Heap) (id : ObjectId) (key : Value) :
    EditsAt (removeEntry id key) h id [] fun _ => [] := by
  refine editsAt_changeBody fun o a body ho hf => ?_
  obtain ⟨entries, hr, hf⟩ := Except.bind_eq_ok.1 hf
  have hbody := asTable_eq_ok hr
  split at hf
  · obtain ⟨rfl, rfl⟩ := Prod.mk.inj (Except.ok.inj hf)
    exact ⟨false, _, rfl, .inr ⟨setBody_self ho, rfl, rfl⟩⟩
  · next i hi =>
    obtain ⟨w, hw⟩ := exists_of_findIdx?_eq_some hi
    have hlt := (List.getElem?_eq_some_iff.1 hw).1
    rw [hw] at hf
    obtain ⟨rfl, rfl⟩ := Prod.mk.inj (Except.ok.inj hf)
    have hle : i ≤ (entries.eraseIdx i).length := by
      rw [List.length_eraseIdx_of_lt hlt]
      omega
    refine ⟨true, _, rfl, .inl (.intro [] ho hle ?_ ?_ (by simp))⟩
    · rw [hbody]
      obtain ⟨_, hget⟩ := List.getElem?_eq_some_iff.1 hw
      simp only [Change.revert, Nat.min_eq_left hle, ← hget, List.insertIdx_eraseIdx_getElem hlt]
    · rw [hbody, Body.edges_table, Body.edges_table, ← coe_flatMap_eraseIdx pairEdges hw]
      simp [Change.values, pairEdges]

/-! ## Changes that succeed -/

theorem changeBody_eq_ok {α : Type} {f : Body → Except HeapError (α × Body)} {object : Object}
    {a : α} {body : Body} (ho : h.get? id = some object) (hf : f object.body = .ok (a, body)) :
    changeBody id f h = .ok a (h.setBody id body) := by
  simp [changeBody, ho, hf, bind, EStateM.bind, get, getThe, MonadStateOf.get, EStateM.get,
    modify, modifyGet, MonadStateOf.modifyGet, EStateM.modifyGet, pure, EStateM.pure]

theorem changeBody_bind {α β : Type} {f : Body → Except HeapError (α × Body)} {object : Object}
    {a : α} {b : Body} {k : α → HeapM β} (ho : h.get? id = some object)
    (hf : f object.body = .ok (a, b)) :
    (changeBody id f >>= k) h = k a (h.setBody id b) := by
  change EStateM.bind _ _ _ = _
  rw [EStateM.bind, changeBody_eq_ok ho hf]

/-- A property can be given to every program object. -/
theorem setProp_eq_ok {object : Object} {supers : List ObjectId} {props : PropTable}
    (ho : h.get? id = some object) (hbody : object.body = .program supers props) (p : PropId)
    (v : Value) : ∃ h', setProp id p v h = .ok () h' :=
  ⟨_, changeBody_bind ho (by rw [hbody]; rfl)⟩

/-- A key can be taken out of every lookup table. -/
theorem removeEntry_eq_ok {object : Object} {entries : List (Value × Value)}
    (ho : h.get? id = some object) (hbody : object.body = .table entries) (key : Value) :
    ∃ b h', removeEntry id key h = .ok b h' := by
  cases hi : entries.findIdx? (·.1 == key) with
  | none =>
    refine ⟨_, _, changeBody_bind (a := none) (b := .table entries) ho ?_⟩
    rw [hbody]
    simp [asTable, hi, bind, Except.bind, pure, Except.pure]
  | some i =>
    obtain ⟨w, hw⟩ := exists_of_findIdx?_eq_some hi
    refine ⟨_, _, changeBody_bind (a := some (i, key, w)) (b := .table (entries.eraseIdx i)) ho ?_⟩
    rw [hbody]
    simp [asTable, hi, hw, bind, Except.bind, pure, Except.pure]

end Heap

end StoryMachine
