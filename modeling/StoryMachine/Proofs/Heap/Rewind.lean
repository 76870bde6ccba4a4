import StoryMachine.Proofs.Heap.Operation

/-!
# Going back restores the objects

While a savepoint stands, every change to an object adds a record, so the body
that the object had when the savepoint was set can be had from its present one by
reverting the records of that object, the latest first. Every step of this applies
as it stands, and whatever the former body held is held by the present one or by a
record. This is kept by everything that a caller can do, so going back finds each
object as it was.

* `Heap.Rewindable`: the invariant;
* `UndoLog.Stands`: a savepoint stands in the log;
* `Rewindable.unwind`: reverting the latest records;
* `Client.undoTo_restores`: what going back to a savepoint brings about.
-/

namespace StoryMachine

/-! ## Bodies that can be had back -/

/-- Reverting changes one after the other, each of which applies, leads from one
    body to another. -/
def Body.Rewinds : Body → List Change → Body → Prop
  | b, [], b₀ => b = b₀
  | b, c :: cs, b₀ => c.Fits b ∧ (c.revert b).1.Rewinds cs b₀

/-- What the former body holds is held by the present one or mentioned by a
    change. -/
theorem Body.Rewinds.mem_edges {b b₀ : Body} {cs : List Change} (hb : b.Rewinds cs b₀) {v : Value}
    (hv : v ∈ b₀.edges) : v ∈ b.edges ∨ ∃ c ∈ cs, v ∈ c.values := by
  induction cs generalizing b with
  | nil => exact .inl (hb ▸ hv)
  | cons c cs ih =>
    rcases ih hb.2 with hmem | ⟨c', hc', hmem⟩
    · have hrev : v ∈ (b.edges : Multiset Value) + (c.values : Multiset Value) := by
        rw [← c.edges_revert b]
        exact Multiset.mem_add.2 (.inl hmem)
      rcases Multiset.mem_add.1 hrev with hmem | hmem
      · exact .inl hmem
      · exact .inr ⟨c, List.mem_cons_self, hmem⟩
    · exact .inr ⟨c', List.mem_cons_of_mem _ hc', hmem⟩

/-- The changes that records say were made to one object. -/
def UndoRecord.changesTo (id : ObjectId) (rs : List UndoRecord) : List Change :=
  (rs.filter (·.target = id)).map UndoRecord.change

namespace Heap

variable {h h' : Heap} {id : ObjectId} {o : Occupant} {r : UndoRecord}
  {pending rs : List UndoRecord} {base : ObjectId → Body} {held : Multiset Value}

/-- Reverting the pending records, the latest first, leads back to the base: their
    objects are there, and each object has the records that lead back from its
    body. -/
structure Rewindable (h : Heap) (pending : List UndoRecord) (base : ObjectId → Body) : Prop where
  /-- The objects that were changed are there. -/
  targets : ∀ r ∈ pending, h.contains r.target = true
  /-- Every body can be taken back. -/
  bodies : ∀ id o, h.occupant? id = some o →
    o.object.body.Rewinds (UndoRecord.changesTo id pending) (base id)

theorem Rewindable.shrinks (hr : h.Rewindable pending base) (hsh : h.Shrinks h')
    (htargets : ∀ r ∈ pending, h'.contains r.target = true) : h'.Rewindable pending base where
  targets := htargets
  bodies id o ho := by
    have hget := hsh.objects id (contains_iff.2 ⟨o, ho⟩)
    obtain ⟨o', ho', heq⟩ := get?_eq_some_iff.1
      (hget.symm.trans (get?_eq_some_iff.2 ⟨o, ho, rfl⟩))
    exact heq ▸ hr.bodies id o' ho'

/-- An object stays as long as its name is held. -/
theorem Counted.contains_of_held (hc : h'.Counted false held) (ht : h.Tidy) (hon : h.Onward h')
    (hsat : h'.saturated = false) (hmem : .obj id ∈ h'.owned + held)
    (hlive : h.contains id = true) : h'.contains id = true := by
  rcases (hc.balanced ⟨hsat, by simp⟩).known id hmem with h0 | hlive' | ⟨hst, -⟩
  · obtain ⟨o, ho⟩ := contains_iff.1 hlive
    have hp : h.isPersistent id = true := by
      simp [isPersistent, ho, (ht.persistent_iff id o ho).2 h0]
    exact Option.isSome_of_any (hon.persistent id hp)
  · exact hlive'
  · cases hst

theorem mem_owned_of_record {v : Value} (hr : r ∈ h.undo.records) (hv : v ∈ r.values) :
    v ∈ h.owned := by
  refine Multiset.mem_add.2 (.inr (Multiset.mem_coe.2 ?_))
  exact List.mem_flatMap.2 ⟨r, Array.mem_toList_iff.2 hr, hv⟩

/-! ## Reverting records -/

theorem undo_releaseAll (h : Heap) (ids : List ObjectId) : (h.releaseAll ids).undo = h.undo := by
  induction h, ids using Heap.releaseAll.induct with
  | case1 h => rw [releaseAll]
  | case2 h id ids ho ih => rw [releaseAll, ho]; exact ih
  | case3 h id ids o ho hlast ih =>
    rw [releaseAll, ho]
    simp only [hlast, and_self, if_true]
    exact ih.trans (undo_vacate _ _)
  | case4 h id ids o ho hlast ih =>
    rw [releaseAll, ho]
    simp only [hlast, if_false]
    exact ih.trans (undo_modifyOccupant _ _ _)

theorem undo_applyUndo (h : Heap) (r : UndoRecord) : (h.applyUndo r).undo = h.undo := by
  unfold applyUndo
  split
  · exact undo_releaseAll _ _
  · exact (undo_releaseAll _ _).trans ((undo_releaseAll _ _).trans (undo_modifyOccupant _ _ _))

theorem undo_foldl_applyUndo (h : Heap) (rs : List UndoRecord) :
    (rs.foldl applyUndo h).undo = h.undo := by
  induction rs generalizing h with
  | nil => rfl
  | cons r rs ih => exact (ih _).trans (undo_applyUndo h r)

/-- The body is set first, and what is released then only frees objects. -/
theorem applyUndo_of_occupant? (ho : h.occupant? r.target = some o) : h.applyUndo r =
    ((h.setBody r.target (r.change.revert o.object.body).1).releaseValues
      (r.change.revert o.object.body).2).release r.target := by
  rw [applyUndo, ho]
  rfl

/-- The latest record applies, and without it the others lead back. -/
theorem Rewindable.applyUndo (hr : h.Rewindable (r :: pending) base)
    (htargets : ∀ r' ∈ pending, (h.applyUndo r).contains r'.target = true) :
    (∃ o, h.occupant? r.target = some o ∧ r.change.Fits o.object.body) ∧
      (h.applyUndo r).Rewindable pending base := by
  obtain ⟨o, ho⟩ := contains_iff.1 (hr.targets r List.mem_cons_self)
  have hself : UndoRecord.changesTo r.target (r :: pending) =
      r.change :: UndoRecord.changesTo r.target pending := by
    simp [UndoRecord.changesTo]
  have hbody := hr.bodies r.target o ho
  rw [hself] at hbody
  refine ⟨⟨o, ho, hbody.1⟩, ?_⟩
  have hset : Rewindable (h.setBody r.target (r.change.revert o.object.body).1) pending base := by
    refine ⟨fun r' hr' => ?_, fun id o' ho' => ?_⟩
    · rw [contains_setBody]
      exact hr.targets r' (List.mem_cons_of_mem _ hr')
    · rw [setBody, occupant?_modifyOccupant] at ho'
      split at ho'
      · next hid =>
        rw [hid, ho] at ho'
        rw [← Option.some.inj ho', hid]
        exact hbody.2
      · next hid =>
        have hother : UndoRecord.changesTo id (r :: pending) = UndoRecord.changesTo id pending := by
          simp [UndoRecord.changesTo, Ne.symm hid]
        exact hother ▸ hr.bodies id o' ho'
  rw [applyUndo_of_occupant? ho] at htargets ⊢
  exact hset.shrinks ((Shrinks.releaseValues _ _).trans (.release _ _)) htargets

/-- Records that apply one after the other, each to an object that is there. -/
def UndoesCleanly (h : Heap) : List UndoRecord → Prop
  | [] => True
  | r :: rs => (∃ o, h.occupant? r.target = some o ∧ r.change.Fits o.object.body) ∧
      (h.applyUndo r).UndoesCleanly rs

theorem Onward.foldl_applyUndo (h : Heap) (rs : List UndoRecord) :
    h.Onward (rs.foldl Heap.applyUndo h) :=
  List.foldlRecOn rs _ (.refl h) fun _ hon r _ => hon.trans (.applyUndo _ r)

/-- Reverting the latest records, while the others stay in the log. -/
theorem Rewindable.unwind (hr : h.Rewindable (rs ++ pending) base)
    (hc : h.Counted false ((rs.flatMap UndoRecord.values : List Value) + held))
    (hlog : ∀ r ∈ pending, r ∈ h.undo.records)
    (hsat : (rs.foldl Heap.applyUndo h).saturated = false) :
    h.UndoesCleanly rs ∧ (rs.foldl Heap.applyUndo h).Rewindable pending base := by
  induction rs generalizing h with
  | nil => exact ⟨trivial, hr⟩
  | cons r rs ih =>
    rw [List.flatMap_cons, ← Multiset.coe_add, add_assoc] at hc
    have hc' := hc.applyUndo
    have hsat' := (Onward.foldl_applyUndo (h.applyUndo r) rs).saturated hsat
    have htargets : ∀ r' ∈ rs ++ pending, (h.applyUndo r).contains r'.target = true := by
      intro r' hr'
      refine hc'.contains_of_held hc.tidy (.applyUndo h r) hsat' (Multiset.mem_add.2 ?_)
        (hr.targets r' (List.mem_cons_of_mem _ hr'))
      rcases List.mem_append.1 hr' with hr' | hr'
      · refine .inr (Multiset.mem_add.2 (.inl (Multiset.mem_coe.2 ?_)))
        exact List.mem_flatMap.2 ⟨r', hr', List.mem_cons_self⟩
      · refine .inl (mem_owned_of_record ?_ List.mem_cons_self)
        rw [undo_applyUndo]
        exact hlog r' hr'
    have hcons : h.Rewindable (r :: (rs ++ pending)) base := hr
    obtain ⟨hfits, hr'⟩ := hcons.applyUndo htargets
    obtain ⟨hclean, hfinal⟩ := ih hr' hc' (by rwa [undo_applyUndo]) hsat
    exact ⟨⟨hfits, hclean⟩, hfinal⟩

end Heap

/-! ## A savepoint in the log -/

/-- The savepoint in a log whose first `d` records are gone. -/
def Savepoint.shift (d : Nat) (s : Savepoint) : Savepoint := { s with start := s.start - d }

namespace UndoLog

variable {log₀ log : UndoLog} {n : UInt32} {pending : List UndoRecord}

/-- The savepoint `n`, set in the log `log₀`, stands in the log `log`, and the
    pending records, the latest first, are those made since. The oldest savepoints
    and their records may be gone. -/
def Stands (log₀ : UndoLog) (n : UInt32) (log : UndoLog) (pending : List UndoRecord) : Prop :=
  ∃ k d later,
    log.savepoints = (log₀.savepoints.drop k).map (·.shift d) ++
      ⟨n, (log₀.records.toList.drop d).length⟩ :: later ∧
    log.records.toList = log₀.records.toList.drop d ++ pending.reverse

theorem Stands.isRecording (hst : Stands log₀ n log pending) : log.isRecording = true := by
  obtain ⟨k, d, later, hsp, -⟩ := hst
  simp [UndoLog.isRecording, hsp]

theorem Stands.mem_records (hst : Stands log₀ n log pending) {r : UndoRecord} (hr : r ∈ pending) :
    r ∈ log.records := by
  obtain ⟨k, d, later, -, hrec⟩ := hst
  rw [← Array.mem_toList_iff, hrec]
  exact List.mem_append_right _ (List.mem_reverse.2 hr)

theorem stands_begin (log : UndoLog) (m : UInt32) :
    Stands log n { log with savepoints := log.savepoints ++ [⟨n, log.records.size⟩], nextId := m }
      [] := by
  refine ⟨0, 0, [], ?_, by simp⟩
  have : (·.shift 0 : Savepoint → Savepoint) = id := rfl
  simp [this]

theorem Stands.push (hst : Stands log₀ n log pending) (r : UndoRecord) :
    Stands log₀ n { log with records := log.records.push r } (r :: pending) := by
  obtain ⟨k, d, later, hsp, hrec⟩ := hst
  exact ⟨k, d, later, hsp, by simp [hrec]⟩

theorem Stands.append (hst : Stands log₀ n log pending) (s : Savepoint) (m : UInt32) :
    Stands log₀ n { log with savepoints := log.savepoints ++ [s], nextId := m } pending := by
  obtain ⟨k, d, later, hsp, hrec⟩ := hst
  exact ⟨k, d, later ++ [s], by simp [hsp], hrec⟩

/-- The oldest savepoint is dropped, which is another one. -/
theorem Stands.dropFirst (hst : Stands log₀ n log pending) (hord : log.Ordered)
    {first : Savepoint} {rest : List Savepoint} (hfirst : log.savepoints = first :: rest)
    (hne : first.id ≠ n) :
    let c := (rest.head?.map Savepoint.start).getD log.records.size
    Stands log₀ n
      { log with
        records := log.records.extract c log.records.size
        savepoints := rest.map (·.shift c) } pending := by
  intro c
  obtain ⟨k, d, later, hsp, hrec⟩ := hst
  rw [hfirst] at hsp
  cases hdrop : log₀.savepoints.drop k with
  | nil =>
    rw [hdrop] at hsp
    exact absurd (congrArg Savepoint.id (List.cons.inj hsp).1) hne
  | cons f older =>
    rw [hdrop, List.map_cons, List.cons_append] at hsp
    have hrest := (List.cons.inj hsp).2
    have holder : log₀.savepoints.drop (k + 1) = older := by
      rw [← List.drop_drop, hdrop]
      rfl
    -- The first of the others is no later than the savepoint that stands.
    have hle : c ≤ (log₀.records.toList.drop d).length := by
      have hasc := hord.ascending
      rw [hfirst, hrest, List.pairwise_cons] at hasc
      cases older with
      | nil => simp [c, hrest]
      | cons g older =>
        have := (List.pairwise_cons.1 hasc.2).1 ⟨n, (log₀.records.toList.drop d).length⟩ (by simp)
        simpa [c, hrest] using this
    refine ⟨k + 1, d + c, later.map (·.shift c), ?_, ?_⟩
    · have hshift : (·.shift c) ∘ (·.shift d) = (·.shift (d + c) : Savepoint → Savepoint) := by
        funext t
        simp [Savepoint.shift, Nat.sub_sub]
      rw [holder, hrest, List.map_append, List.map_map, hshift, List.map_cons, ← List.drop_drop,
        List.length_drop (i := c)]
      rfl
    · rw [toList_extract_right, hrec, List.drop_append_of_le_length hle, List.drop_drop]

/-- Going back to another savepoint that is later leaves this one. -/
theorem Stands.takeWhile (hst : Stands log₀ n log pending) (hord : log.Ordered)
    (hfresh : ∀ t ∈ log₀.savepoints, t.id ≠ n) {m : UInt32} {t : Savepoint}
    (ht : log.savepoints.find? (·.id == m) = some t)
    (hlater : ∃ s ∈ log.savepoints.takeWhile (·.id != m), s.id = n) :
    ∃ i, Stands log₀ n
      { log with
        records := log.records.extract 0 t.start
        savepoints := log.savepoints.takeWhile (·.id != m) } (pending.drop i) ∧
      (log.records.extract t.start log.records.size).toList.reverse = pending.take i := by
  obtain ⟨k, d, later, hsp, hrec⟩ := hst
  obtain ⟨s, hs, hid⟩ := hlater
  have hbefore : ∀ t ∈ (log₀.savepoints.drop k).map (·.shift d), t.id ≠ n := by
    intro t ht
    obtain ⟨t', ht', rfl⟩ := List.mem_map.1 ht
    exact hfresh t' (List.mem_of_mem_drop ht')
  -- The savepoints up to the one that stands are all kept, since it is.
  have hall : ∀ t ∈ (log₀.savepoints.drop k).map (·.shift d), (t.id != m) = true := by
    by_contra hnot
    have hlen : (((log₀.savepoints.drop k).map (·.shift d)).takeWhile (·.id != m)).length ≠
        ((log₀.savepoints.drop k).map (·.shift d)).length := fun hlen =>
      hnot (List.takeWhile_eq_self_iff.1 ((List.takeWhile_prefix _).eq_of_length hlen))
    rw [hsp, List.takeWhile_append, if_neg hlen] at hs
    exact hbefore s ((List.takeWhile_prefix _).subset hs) hid
  have hself : (n != m) = true := by
    by_contra hnot
    rw [hsp, List.takeWhile_append_of_pos hall, List.takeWhile_cons_of_neg (by simpa using hnot),
      List.append_nil] at hs
    exact hbefore s hs hid
  have htake : log.savepoints.takeWhile (·.id != m) = (log₀.savepoints.drop k).map (·.shift d) ++
      ⟨n, (log₀.records.toList.drop d).length⟩ :: later.takeWhile (·.id != m) := by
    rw [hsp, List.takeWhile_append_of_pos hall, List.takeWhile_cons, if_pos hself]
  have htlater : t ∈ later := by
    rw [hsp, List.find?_append, List.find?_eq_none.2 fun t ht => by simpa using hall t ht,
      Option.none_or, List.find?_cons_of_neg (by simpa using hself)] at ht
    exact List.mem_of_find?_eq_some ht
  have hle : (log₀.records.toList.drop d).length ≤ t.start := by
    have hasc := hord.ascending
    rw [hsp, List.pairwise_append] at hasc
    exact (List.pairwise_cons.1 hasc.2.1).1 t htlater
  refine ⟨pending.length - (t.start - (log₀.records.toList.drop d).length),
    ⟨k, d, later.takeWhile (·.id != m), htake, ?_⟩, ?_⟩
  · rw [toList_extract_left, hrec, List.take_append, List.take_of_length_le hle, List.take_reverse]
  · rw [toList_extract_right, hrec, List.drop_append, List.drop_of_length_le hle, List.nil_append,
      List.drop_reverse, List.reverse_reverse]

/-- Going back to the savepoint itself. -/
theorem Stands.find? (hst : Stands log₀ n log pending)
    (hfresh : ∀ t ∈ log₀.savepoints, t.id ≠ n) :
    ∃ k d t, log.savepoints.find? (·.id == n) = some t ∧
      log.savepoints.takeWhile (·.id != n) = (log₀.savepoints.drop k).map (·.shift d) ∧
      (log.records.extract 0 t.start).toList = log₀.records.toList.drop d ∧
      (log.records.extract t.start log.records.size).toList.reverse = pending := by
  obtain ⟨k, d, later, hsp, hrec⟩ := hst
  have hbefore : ∀ t ∈ (log₀.savepoints.drop k).map (·.shift d), t.id ≠ n := by
    intro t ht
    obtain ⟨t', ht', rfl⟩ := List.mem_map.1 ht
    exact hfresh t' (List.mem_of_mem_drop ht')
  refine ⟨k, d, ⟨n, (log₀.records.toList.drop d).length⟩, ?_, ?_, ?_, ?_⟩
  · rw [hsp, List.find?_append, List.find?_eq_none.2 fun t ht => by simpa using hbefore t ht]
    simp
  · rw [hsp, List.takeWhile_append_of_pos fun t ht => by simpa using hbefore t ht]
    simp
  · rw [toList_extract_left, hrec, List.take_left]
  · rw [toList_extract_right, hrec, List.drop_left, List.reverse_reverse]

end UndoLog

namespace Heap

variable {h h' : Heap} {id : ObjectId} {pending : List UndoRecord} {base : ObjectId → Body}
  {held : Multiset Value} {log₀ : UndoLog} {n : UInt32} {op : Operation} {taken : List Value}

/-! ## What operations keep -/

/-- An operation leaves a savepoint standing: it does not clear the log, goes back
    to none but a later savepoint, and does not drop it as the oldest of too many. -/
def Operation.Spares (h : Heap) (n : UInt32) (op : Operation) : Prop :=
  op ≠ .commit ∧
  (∀ m ∈ op.undoes? h, ∃ s ∈ h.undo.savepoints.takeWhile (·.id != m), s.id = n) ∧
  (op = .beginSavepoint → h.undo.maxSavepoints ≤ h.undo.savepoints.length →
    ∀ s ∈ h.undo.savepoints.head?, s.id ≠ n)

-- The instances are named so that no number is looked for among all there are.
instance (h : Heap) (n : UInt32) (op : Operation) : Decidable (op.Spares h n) :=
  @instDecidableAnd _ _ _ (@instDecidableAnd _ _ (Option.decidableForallMem _) inferInstance)

/-- The savepoint stands, and the records since lead back. -/
structure RewindsTo (h : Heap) (log₀ : UndoLog) (n : UInt32) (pending : List UndoRecord)
    (base : ObjectId → Body) : Prop where
  /-- The savepoint stands. -/
  stands : UndoLog.Stands log₀ n h.undo pending
  /-- The records lead back. -/
  rewindable : h.Rewindable pending base

/-- Objects are freed, but none whose name is held. -/
theorem RewindsTo.shrinks (hr : h.RewindsTo log₀ n pending base) (ht : h.Tidy)
    (hc : h'.Counted false held) (hsat : h'.saturated = false) (hsh : h.Shrinks h')
    (hst : UndoLog.Stands log₀ n h'.undo pending) : h'.RewindsTo log₀ n pending base where
  stands := hst
  rewindable := by
    refine hr.rewindable.shrinks hsh fun r hmem => ?_
    refine hc.contains_of_held ht hsh.toOnward hsat (Multiset.mem_add.2 (.inl ?_))
      (hr.rewindable.targets r hmem)
    exact mem_owned_of_record (hst.mem_records hmem) List.mem_cons_self

theorem RewindsTo.alloc (hr : h.RewindsTo log₀ n pending base) {object : Object}
    (ha : h.Allocated object id h') :
    h'.RewindsTo log₀ n pending (Function.update base id object.body) where
  stands := ha.frame.1 ▸ hr.stands
  rewindable := by
    refine ⟨fun r hmem => ?_, fun id' o ho => ?_⟩
    · rw [contains, ha.occupant]
      split
      · rfl
      · exact hr.rewindable.targets r hmem
    · rw [ha.occupant] at ho
      split at ho
      · next hid =>
        -- No record can be of an object that was not there.
        have hnone : UndoRecord.changesTo id' pending = [] := by
          have : pending.filter (·.target = id') = [] := by
            refine List.filter_eq_nil_iff.2 fun r hmem htarget => ?_
            have hlive := hr.rewindable.targets r hmem
            rw [of_decide_eq_true htarget, hid] at hlive
            exact ha.fresh (.inr (.inl hlive))
          rw [UndoRecord.changesTo, this, List.map_nil]
        rw [hnone, ← Option.some.inj ho, hid, Function.update_self]
        rfl
      · next hid =>
        rw [Function.update_of_ne hid]
        exact hr.rewindable.bodies id' o ho

theorem undo_record (hrec : h.undo.isRecording = true) (id : ObjectId) (change : Change) :
    (h.record id change).undo =
      { h.undo with records := h.undo.records.push ⟨id, change⟩ } := by
  simp [record, hrec, Heap.retain]

theorem contains_record (hrec : h.undo.isRecording = true) (id : ObjectId) (change : Change)
    (id' : ObjectId) : (h.record id change).contains id' = h.contains id' := by
  rw [record, if_pos hrec]
  exact contains_modifyOccupant h id Occupant.retain id'

theorem RewindsTo.edit (hr : h.RewindsTo log₀ n pending base) {given : List Value}
    (he : h.Edit id given taken h') :
    ∃ r, h'.RewindsTo log₀ n (r :: pending) base := by
  obtain @⟨o, body, change, given, taken, extra, ho, hfits, hreverts, -, -⟩ := he
  have hundo : ((h.setBody id body).retainValues extra).undo = h.undo := by
    simp [setBody]
  have hrec := hr.stands.isRecording
  refine ⟨⟨id, change⟩, ?_, ?_⟩
  · rw [undo_record (hundo ▸ hrec), hundo]
    exact hr.stands.push _
  · have hset : (h.setBody id body).Rewindable (⟨id, change⟩ :: pending) base := by
      refine ⟨fun r hmem => ?_, fun id' o' ho' => ?_⟩
      · rw [contains_setBody]
        rcases List.mem_cons.1 hmem with rfl | hmem
        · exact contains_iff.2 ⟨o, ho⟩
        · exact hr.rewindable.targets r hmem
      · rw [setBody, occupant?_modifyOccupant] at ho'
        split at ho'
        · next hid =>
          rw [hid, ho] at ho'
          rw [← Option.some.inj ho', hid]
          -- The new record takes back the edit, and the others take back what was before.
          have hself : UndoRecord.changesTo id (⟨id, change⟩ :: pending) =
              change :: UndoRecord.changesTo id pending := by
            simp [UndoRecord.changesTo]
          rw [hself]
          exact ⟨hfits, hreverts.symm ▸ hr.rewindable.bodies id o ho⟩
        · next hid =>
          have hother : UndoRecord.changesTo id' (⟨id, change⟩ :: pending) =
              UndoRecord.changesTo id' pending := by
            simp [UndoRecord.changesTo, Ne.symm hid]
          rw [hother]
          exact hr.rewindable.bodies id' o' ho'
    refine hset.shrinks ((Shrinks.retainValues _ extra).trans (.record _ id change)) fun r hmem => ?_
    rw [contains_record (hundo ▸ hrec), contains_retainValues]
    exact hset.targets r hmem

theorem undo_foldl_discardRecord (h : Heap) (rs : List UndoRecord) :
    (rs.foldl discardRecord h).undo = h.undo := by
  induction rs generalizing h with
  | nil => rfl
  | cons r rs ih =>
    exact (ih _).trans ((undo_releaseAll _ _).trans (undo_releaseAll _ _))

theorem stands_beginSavepoint (hst : UndoLog.Stands log₀ n h.undo pending)
    (hord : h.undo.Ordered)
    (hspares : h.undo.maxSavepoints ≤ h.undo.savepoints.length →
      ∀ s ∈ h.undo.savepoints.head?, s.id ≠ n) :
    UndoLog.Stands log₀ n h.beginSavepoint.2.undo pending := by
  unfold beginSavepoint
  split
  · next hfull =>
    refine UndoLog.Stands.append ?_ _ _
    unfold dropOldest
    split
    · exact hst
    · next first rest hfirst =>
      have hne := hspares hfull first (by simp [hfirst])
      simp only [← Array.foldl_toList, undo_foldl_discardRecord]
      exact hst.dropFirst hord hfirst hne
  · exact hst.append _ _

theorem undo_collect (ht : h.Tidy) (roots : List Value) :
    (h.collect roots).2.undo = h.undo := by
  have hsame := ((h.unreached roots).foldl Heap.vacate h).sameButCounts_foldl_release
    (Value.objects ((h.unreached roots).flatMap h.edgesAt))
  have hswept : h.Swept false _ _ := ht.swept_unreached roots
  exact hsame.frame.1.trans hswept.frame.1

theorem undo_retainValue (h : Heap) (v : Value) : (h.retainValue v).undo = h.undo :=
  undo_retainValues h [v]

/-- The table before the records since a place are reverted. -/
def truncated (h : Heap) (n : UInt32) (start : Nat) : Heap :=
  { h with
    undo :=
      { h.undo with
        records := h.undo.records.extract 0 start
        savepoints := h.undo.savepoints.takeWhile (·.id != n) } }

theorem undoTo_of_find? {s : Savepoint} (hs : h.undo.savepoints.find? (·.id == n) = some s) :
    h.undoTo n = (true, (h.undo.records.extract s.start h.undo.records.size).toList.reverse.foldl
      applyUndo (h.truncated n s.start)) := by
  rw [undoTo, hs]
  rfl

theorem Counted.truncated (hc : h.Counted false held) {s : Savepoint}
    (hs : h.undo.savepoints.find? (·.id == n) = some s) :
    (h.truncated n s.start).Counted false
      (((h.undo.records.extract s.start h.undo.records.size).toList.reverse.flatMap
        UndoRecord.values : List Value) + held) := by
  obtain ⟨hkept, hstart⟩ := hc.ordered.takeWhile hs
  exact (hc.withLog hkept rfl).truncate hstart

/-- Going back to a later savepoint. -/
theorem RewindsTo.undoTo (hr : h.RewindsTo log₀ n pending base) (hc : h.Counted false held)
    (hfresh : ∀ t ∈ log₀.savepoints, t.id ≠ n) {m : UInt32}
    (hlater : ∃ s ∈ h.undo.savepoints.takeWhile (·.id != m), s.id = n)
    (hsat : (h.undoTo m).2.saturated = false) :
    ∃ pending', (h.undoTo m).2.RewindsTo log₀ n pending' base := by
  cases ht : h.undo.savepoints.find? (·.id == m) with
  | none =>
    rw [Heap.undoTo, ht]
    exact ⟨pending, hr⟩
  | some t =>
    obtain ⟨i, hst, hundone⟩ := hr.stands.takeWhile hc.ordered hfresh ht hlater
    have hc' := hc.truncated ht
    rw [undoTo_of_find? ht] at hsat ⊢
    rw [hundone] at hc' hsat ⊢
    have hall : (h.truncated m t.start).Rewindable (pending.take i ++ pending.drop i) base := by
      rw [List.take_append_drop]
      exact ⟨hr.rewindable.targets, hr.rewindable.bodies⟩
    have hrest := (hall.unwind hc' (fun r hmem => hst.mem_records hmem) hsat).2
    exact ⟨pending.drop i, (undo_foldl_applyUndo _ _).symm ▸ hst, hrest⟩

/-- Every operation that leaves the savepoint standing leaves a way back. The base
    changes only where a new object is made. -/
theorem RewindsTo.does (hr : h.RewindsTo log₀ n pending base)
    (hc : h.Counted false (op.gives + held)) (hfresh : ∀ t ∈ log₀.savepoints, t.id ≠ n)
    (hd : h.Does op taken h') (hspares : op.Spares h n) (hc' : h'.Counted false (taken + held))
    (hsat : h'.saturated = false) :
    ∃ pending' base', h'.RewindsTo log₀ n pending' base' ∧
      ∀ id, h.contains id = true → base' id = base id := by
  cases hd with
  | idle _ => exact ⟨pending, base, hr, fun _ _ => rfl⟩
  | @alloc object id _ ha =>
    refine ⟨pending, _, hr.alloc ha, fun id' hlive => Function.update_of_ne (fun he => ?_) _ _⟩
    exact ha.fresh (.inr (.inl (he ▸ hlive)))
  | edit he =>
    obtain ⟨r, hr'⟩ := hr.edit he
    exact ⟨r :: pending, base, hr', fun _ _ => rfl⟩
  | retain v _ =>
    exact ⟨pending, base, hr.shrinks hc.tidy hc' hsat (.retainValues h [v])
      ((undo_retainValue h v).symm ▸ hr.stands), fun _ _ => rfl⟩
  | release =>
    exact ⟨pending, base, hr.shrinks hc.tidy hc' hsat (.releaseValues h _)
      ((undo_releaseAll h _).symm ▸ hr.stands), fun _ _ => rfl⟩
  | beginSavepoint =>
    exact ⟨pending, base, hr.shrinks hc.tidy hc' hsat (.beginSavepoint h)
      (stands_beginSavepoint hr.stands hc.ordered (hspares.2.2 rfl)), fun _ _ => rfl⟩
  | undo m hm _ =>
    obtain ⟨pending', hr'⟩ := hr.undoTo hc hfresh (hspares.2.1 m hm) hsat
    exact ⟨pending', base, hr', fun _ _ => rfl⟩
  | commit => exact absurd rfl hspares.1
  | collect roots =>
    exact ⟨pending, base, hr.shrinks hc.tidy hc' hsat (hc.tidy.shrinks_collect roots)
      ((undo_collect hc.tidy roots).symm ▸ hr.stands), fun _ _ => rfl⟩

/-- What could be reached when the savepoint was set is still there: what the
    former bodies held is held by the present ones or by records. -/
theorem Rewindable.contains_of_reachable {g : Heap} {roots : ObjectId → Prop}
    (hr : h.Rewindable pending base) (hlog : ∀ r ∈ pending, r ∈ h.undo.records)
    (hc : h.Counted false held) (hsat : h.saturated = false) (ht : g.Tidy) (hon : g.Onward h)
    (hroots : ∀ id, roots id → g.isPersistent id = true ∨ .obj id ∈ held)
    (hbase : ∀ id o, g.Reachable roots id → g.occupant? id = some o → base id = o.object.body)
    (hid : g.Reachable roots id) : h.contains id = true := by
  induction hid with
  | @root id hroot hlive =>
    rcases hroots id hroot with hp | hmem
    · exact Option.isSome_of_any (hon.persistent id hp)
    · exact hc.contains_of_held ht hon hsat (Multiset.mem_add.2 (.inr hmem)) hlive
  | @edge id id' o hid ho hedge hlive ih =>
    obtain ⟨o', ho'⟩ := contains_iff.1 ih
    have hback := hr.bodies id o' ho'
    rw [hbase id o hid ho] at hback
    refine hc.contains_of_held ht hon hsat (Multiset.mem_add.2 (.inl ?_)) hlive
    rcases hback.mem_edges hedge with hmem | ⟨c, hmem, hv⟩
    · exact mem_owned_of_edge ho' hmem
    · obtain ⟨r, hrmem, rfl⟩ := List.mem_map.1 hmem
      exact mem_owned_of_record (hlog r (List.mem_of_mem_filter hrmem))
        (List.mem_cons_of_mem _ hv)

/-- A name that has outlived its object means none. -/
theorem Spent.not_contains (hs : h.Spent id) : h.contains id = false := by
  obtain ⟨s, hs, hlt⟩ := hs
  refine Bool.eq_false_iff.2 fun hlive => ?_
  obtain ⟨o, ho⟩ := contains_iff.1 hlive
  rw [generation_eq_of_occupant? hs ho] at hlt
  exact absurd hlt (lt_irrefl _)

/-! ## Whole runs -/

namespace Client

variable {c : Client} {ops : List Operation}

/-- The caller before each of some operations and after the last. -/
def trace (c : Client) : List Operation → List Client
  | [] => [c]
  | op :: ops => c :: (c.step op).trace ops

/-- An object that is persistent or owned by the caller all the time. -/
def Anchors (c : Client) (ops : List Operation) (id : ObjectId) : Prop :=
  c.heap.isPersistent id = true ∨ ∀ c' ∈ c.trace ops, id ∈ c'.held

/-- Every operation leaves the savepoint standing. -/
def SparesAll (c : Client) (n : UInt32) : List Operation → Prop
  | [] => True
  | op :: ops => op.Spares c.heap n ∧ (c.step op).SparesAll n ops

instance decidableSparesAll (c : Client) (n : UInt32) :
    (ops : List Operation) → Decidable (c.SparesAll n ops)
  | [] => .isTrue trivial
  | op :: ops =>
    have := decidableSparesAll (c.step op) n ops
    inferInstanceAs (Decidable (op.Spares c.heap n ∧ (c.step op).SparesAll n ops))

theorem Counted.onward_step (hc : c.Counted) (op : Operation) :
    c.heap.Onward (c.step op).heap := by
  rcases op.performs hc.tidy with ⟨e, herr⟩ | ⟨taken, h', hok, hd⟩
  · rw [step_of_error herr]
    exact .refl _
  · rw [step_of_ok hok]
    exact hd.onward hc.tidy

theorem Counted.onward_run (hc : c.Counted) (hops : c.AllowsAll ops) :
    c.heap.Onward (c.run ops).heap := by
  induction ops generalizing c with
  | nil => exact .refl _
  | cons op ops ih => exact (hc.onward_step op).trans (ih (hc.step hops.1) hops.2)

/-- What is there before and after a run was there all the time, if generations
    are in order. -/
theorem Counted.contains_trace {h : Heap} (hc : c.Counted) (hops : c.AllowsAll ops)
    (hon : (c.run ops).heap.Onward h) (hwrap : h.wrapped = false)
    (hlive : c.heap.contains id = true) (hlive' : h.contains id = true) :
    ∀ c' ∈ c.trace ops, c'.heap.contains id = true := by
  induction ops generalizing c with
  | nil =>
    intro c' hc'
    rw [List.mem_singleton.1 hc']
    exact hlive
  | cons op ops ih =>
    intro c' hc'
    rcases List.mem_cons.1 hc' with rfl | hc'
    · exact hlive
    · have hstep := hc.step hops.1
      refine ih hstep hops.2 hon ?_ c' hc'
      have hrest := (hstep.onward_run hops.2).trans hon
      rcases (hc.onward_step op).live (hrest.wrapped hwrap) id hlive with hl | hs
      · exact hl
      · rw [(hrest.spent hwrap id hs).not_contains] at hlive'
        cases hlive'

/-- One operation of a caller. -/
theorem Counted.rewindsTo_step (hc : c.Counted) {op : Operation} (hop : c.Allows op)
    (hspares : op.Spares c.heap n) (hfresh : ∀ t ∈ log₀.savepoints, t.id ≠ n)
    (hsat : (c.step op).heap.saturated = false) (hr : c.heap.RewindsTo log₀ n pending base) :
    ∃ pending' base', (c.step op).heap.RewindsTo log₀ n pending' base' ∧
      ∀ id, c.heap.contains id = true → base' id = base id := by
  have hc' := hc.step hop
  rcases op.performs hc.tidy with ⟨e, herr⟩ | ⟨taken, h', hok, hd⟩
  · rw [step_of_error herr]
    exact ⟨pending, base, hr, fun _ _ => rfl⟩
  · rw [step_of_ok hok] at hsat hc' ⊢
    refine hr.does (hc.split hop.1) hfresh hd hspares ?_ hsat
    exact Heap.Counted.congr_dynamic hc' fun id hid => by
      rw [count_map_obj, Multiset.count_add, Multiset.count_add, count_map_obj,
        count_dynamicIds taken hid, add_comm]

theorem mem_trace_self (c : Client) (ops : List Operation) : c ∈ c.trace ops := by
  cases ops <;> exact List.mem_cons_self

theorem run_mem_trace (c : Client) (ops : List Operation) : c.run ops ∈ c.trace ops := by
  induction ops generalizing c with
  | nil => exact List.mem_singleton_self c
  | cons op ops ih => exact List.mem_cons_of_mem _ (ih (c.step op))

/-- A whole run of a caller. What could be reached when the savepoint was set, from
    persistent objects or from what the caller owns all the time, is there all the
    time. -/
theorem Counted.rewindsTo_run {g : Heap} {roots : ObjectId → Prop} (hc : c.Counted)
    (hops : c.AllowsAll ops) (hspares : c.SparesAll n ops)
    (hfresh : ∀ t ∈ log₀.savepoints, t.id ≠ n) (hsat : (c.run ops).heap.saturated = false)
    (hr : c.heap.RewindsTo log₀ n pending base) (ht : g.Tidy) (hon : g.Onward c.heap)
    (hroots : ∀ id, roots id → g.isPersistent id = true ∨ ∀ c' ∈ c.trace ops, id ∈ c'.held)
    (hbase : ∀ id o, g.Reachable roots id → g.occupant? id = some o → base id = o.object.body) :
    ∃ pending' base', (c.run ops).heap.RewindsTo log₀ n pending' base' ∧
      (∀ id, (∀ c' ∈ c.trace ops, c'.heap.contains id = true) → base' id = base id) ∧
      ∀ id, g.Reachable roots id → ∀ c' ∈ c.trace ops, c'.heap.contains id = true := by
  induction ops generalizing c pending base with
  | nil =>
    refine ⟨pending, base, hr, fun _ _ => rfl, fun id hid c' hc' => ?_⟩
    rw [List.mem_singleton.1 hc']
    refine hr.rewindable.contains_of_reachable (fun r hmem => hr.stands.mem_records hmem) hc
      hsat ht hon (fun id hroot => (hroots id hroot).imp_right fun hheld => ?_) hbase hid
    exact Multiset.mem_map_of_mem _ (hheld c (mem_trace_self c _))
  | cons op ops ih =>
    have hstep := hc.step hops.1
    have hsat' := (hstep.onward_run hops.2).saturated hsat
    -- What can be reached is there now. The step may change its body, and records how.
    have hreach (id : ObjectId) (hid : g.Reachable roots id) : c.heap.contains id = true := by
      refine hr.rewindable.contains_of_reachable (fun r hmem => hr.stands.mem_records hmem) hc
        ((hc.onward_step op).saturated hsat') ht hon
        (fun id hroot => (hroots id hroot).imp_right fun hheld => ?_) hbase hid
      exact Multiset.mem_map_of_mem _ (hheld c (mem_trace_self c _))
    obtain ⟨pending₁, base₁, hr₁, hbase₁⟩ :=
      hc.rewindsTo_step hops.1 hspares.1 hfresh hsat' hr
    obtain ⟨pending₂, base₂, hr₂, hbase₂, hreach₂⟩ := ih hstep hops.2 hspares.2 hsat hr₁
      (hon.trans (hc.onward_step op))
      (fun id hroot => (hroots id hroot).imp_right fun hheld c' hc' =>
        hheld c' (List.mem_cons_of_mem _ hc'))
      (fun id o hid ho => (hbase₁ id (hreach id hid)).trans (hbase id o hid ho))
    refine ⟨pending₂, base₂, hr₂, fun id hlive => ?_, fun id hid c' hc' => ?_⟩
    · rw [hbase₂ id fun c' hc' => hlive c' (List.mem_cons_of_mem _ hc'),
        hbase₁ id (hlive c (mem_trace_self c _))]
    · rcases List.mem_cons.1 hc' with rfl | hc'
      · exact hreach id hid
      · exact hreach₂ id hid c' hc'

/-- A new savepoint stands in the log, and there is nothing to revert. -/
theorem rewindsTo_beginSavepoint (h : Heap)
    (hfresh : ∀ t ∈ h.undo.savepoints, t.id ≠ h.beginSavepoint.1) :
    ∃ log₀ : UndoLog, (∀ t ∈ log₀.savepoints, t.id ≠ h.beginSavepoint.1) ∧
      h.beginSavepoint.2.undo.savepoints.dropLast = log₀.savepoints ∧
      h.beginSavepoint.2.undo.records = log₀.records ∧
      h.beginSavepoint.2.RewindsTo log₀ h.beginSavepoint.1 []
        fun id => ((h.beginSavepoint.2.get? id).map Object.body).getD default := by
  generalize hg : (if h.undo.maxSavepoints ≤ h.undo.savepoints.length then h.dropOldest else h) = g
  have hbegin : h.beginSavepoint = (g.undo.nextId, { g with
      undo :=
        { g.undo with
          savepoints := g.undo.savepoints ++ [⟨g.undo.nextId, g.undo.records.size⟩]
          nextId := g.undo.nextId + 1 } }) := by
    rw [beginSavepoint, hg]
  -- The oldest savepoint may have been dropped, and that leaves the others their numbers.
  have hids : ∀ t ∈ g.undo.savepoints, ∃ t' ∈ h.undo.savepoints, t.id = t'.id := by
    rw [← hg]
    split
    · unfold dropOldest
      split
      · exact fun t ht => ⟨t, ht, rfl⟩
      · next first rest hfirst =>
        simp only [← Array.foldl_toList, undo_foldl_discardRecord]
        intro t ht
        obtain ⟨t', ht', rfl⟩ := List.mem_map.1 ht
        exact ⟨t', hfirst ▸ List.mem_cons_of_mem _ ht', rfl⟩
    · exact fun t ht => ⟨t, ht, rfl⟩
  refine ⟨g.undo, fun t ht => ?_, ?_, ?_, ?_, ?_⟩
  · obtain ⟨t', ht', heq⟩ := hids t ht
    exact heq ▸ hfresh t' ht'
  · rw [hbegin]
    exact List.dropLast_concat
  · rw [hbegin]
  · rw [hbegin]
    exact UndoLog.stands_begin g.undo _
  · refine ⟨fun r hr => absurd hr List.not_mem_nil, fun id o ho => ?_⟩
    have hget : h.beginSavepoint.2.get? id = some o.object := get?_eq_some_iff.2 ⟨o, ho, rfl⟩
    rw [hget]
    rfl

/-- A table of an image with a vector and a lookup table. -/
def shelf : Client :=
  ofImage {} [(1, ⟨0, .vector [.int 1, .int 2, .int 3]⟩), (2, ⟨0, .table [(.int 1, .obj ⟨1, 0⟩)]⟩)]

/-- Changes to both of them, with another savepoint that is gone back to. -/
def rearranging : List Operation :=
  [.removeElement ⟨1, 0⟩ 0, .alloc ⟨0, .vector [.obj ⟨2, 0⟩]⟩, .putEntry ⟨2, 0⟩ .nil (.obj ⟨3, 1⟩),
    .removeEntry ⟨2, 0⟩ (.int 1), .beginSavepoint, .setElement ⟨1, 0⟩ 1 .truth,
    .insertElement ⟨1, 0⟩ 2 .nil, .undoTo 2]

end Client

end Heap

end StoryMachine
