import StoryMachine.Proofs.Heap.Occupancy

/-!
# The log in order

Savepoints mark places in the log by the number of records before them. Records are added at the
end of the log and taken away from both sides: going back cuts the latest off, and when there
are too many savepoints the oldest is dropped with its records, so that the places of all others
move. Whatever is asked of a table, its log stays consistent.

* `UndoLog.since`: the records after a place;
* `UndoLog.mark`, `UndoLog.cut`, `UndoLog.dropFirst`: what becomes of a log;
* `UndoLog.Consistent`: the savepoints are in order, and not too many;
* `Heap.LogStep`, `logStep_performed`: what an operation makes of the log;
* `consistent_afterAll`: what this says about every run;
* `get?_applyUndo`, `get?_foldl_applyUndo`: what reverting records does to one object.
-/

namespace StoryMachine

/-! ## What becomes of a log -/

namespace UndoLog

variable {log : UndoLog} {n : UInt32} {s : Savepoint}

/-- The records after a place, the latest first. -/
def since (log : UndoLog) (start : Nat) : List UndoRecord := (log.records.toList.drop start).reverse

/-- How many records are older than the second savepoint. If there is none all of them are. -/
def overdue (log : UndoLog) : Nat :=
  (log.savepoints.tail.head?.map Savepoint.start).getD log.records.size

/-- The log without its oldest savepoint and the records up to the next one. -/
def dropFirst (log : UndoLog) : UndoLog :=
  match log.savepoints with
  | [] => log
  | _ :: rest =>
    let count := (rest.head?.map Savepoint.start).getD log.records.size
    { log with
      records := log.records.extract count log.records.size
      savepoints := rest.map (·.shift count) }

/-- The log with one more savepoint. -/
def mark (log : UndoLog) : UndoLog :=
  { log with
    savepoints := log.savepoints ++ [⟨log.nextId, log.records.size⟩]
    nextId := log.nextId + 1 }

/-- The log without what comes after a place, and without the savepoint `n` and all later
    ones. -/
def cut (log : UndoLog) (n : UInt32) (start : Nat) : UndoLog :=
  { log with
    records := log.records.extract 0 start
    savepoints := log.savepoints.takeWhile (·.id != n) }

theorem since_push (r : UndoRecord) {start : Nat} (hstart : start ≤ log.records.size) :
    since { log with records := log.records.push r } start = r :: log.since start := by
  rw [since, since, Array.toList_push, List.drop_append_of_le_length (by simpa using hstart),
    List.reverse_append]
  rfl

theorem since_size (log : UndoLog) : log.since log.records.size = [] := by
  rw [since, ← Array.length_toList, List.drop_length, List.reverse_nil]

/-- What was recorded since an earlier place is what was recorded since a later one, and
    before that. -/
theorem since_eq_append {start stop : Nat} (hstart : start ≤ stop) (hstop : stop ≤ log.records.size)
    (n : UInt32) : log.since start = log.since stop ++ (log.cut n stop).since start := by
  have hlength : start ≤ (log.records.toList.take stop).length := by
    rw [List.length_take_of_le (by simpa using hstop)]
    exact hstart
  have hsplit : log.records.toList.drop start =
      (log.records.toList.take stop).drop start ++ log.records.toList.drop stop := by
    rw [← List.drop_append_of_le_length hlength, List.take_append_drop]
  rw [since, hsplit, List.reverse_append, since, since, cut, toList_extract_left]

theorem dropFirst_of_nil (hsp : log.savepoints = []) : log.dropFirst = log := by
  rw [dropFirst, hsp]

theorem dropFirst_of_cons {rest : List Savepoint} (hsp : log.savepoints = s :: rest) :
    log.dropFirst =
      { log with
        records := log.records.extract log.overdue log.records.size
        savepoints := rest.map (·.shift log.overdue) } := by
  rw [dropFirst, overdue, hsp]
  rfl

/-- The savepoints that are left come after the records that are dropped. -/
theorem Ordered.overdue_le {rest : List Savepoint} (hord : log.Ordered)
    (hsp : log.savepoints = s :: rest) : ∀ t ∈ rest, log.overdue ≤ t.start := by
  intro t ht
  have hasc := hord.ascending
  rw [hsp, List.pairwise_cons] at hasc
  rw [overdue, hsp]
  cases rest with
  | nil => cases ht
  | cons next rest =>
    rcases List.mem_cons.1 ht with rfl | ht
    · exact Nat.le_refl _
    · exact (List.pairwise_cons.1 hasc.2).1 t ht

theorem since_dropped (count : Nat) {start : Nat} (hstart : count ≤ start) :
    since { log with records := log.records.extract count log.records.size } (start - count) =
      log.since start := by
  rw [since, toList_extract_right, List.drop_drop, Nat.add_sub_cancel' hstart]
  rfl

/-! ### Savepoints in order -/

theorem Ordered.push (hord : log.Ordered) (r : UndoRecord) :
    Ordered { log with records := log.records.push r } where
  start_le s hs := (hord.start_le s hs).trans (by simp)
  ascending := hord.ascending

theorem Ordered.mark (hord : log.Ordered) : log.mark.Ordered where
  start_le s hs := by
    rcases List.mem_append.1 hs with hs | hs
    · exact hord.start_le s hs
    · obtain rfl := List.mem_singleton.1 hs
      exact Nat.le_refl _
  ascending := by
    refine List.pairwise_append.2 ⟨hord.ascending, List.pairwise_singleton _ _, fun s hs t ht => ?_⟩
    rw [List.mem_singleton.1 ht]
    exact hord.start_le s hs

theorem Ordered.dropFirst (hord : log.Ordered) : log.dropFirst.Ordered := by
  cases hsp : log.savepoints with
  | nil =>
    rw [dropFirst_of_nil hsp]
    exact hord
  | cons s rest =>
    have hasc := hord.ascending
    rw [hsp, List.pairwise_cons] at hasc
    rw [dropFirst_of_cons hsp]
    refine ⟨fun t ht => ?_, hasc.2.map _ fun t t' htt => Nat.sub_le_sub_right htt log.overdue⟩
    obtain ⟨t', ht', rfl⟩ := List.mem_map.1 ht
    have := hord.start_le t' (hsp ▸ List.mem_cons_of_mem _ ht')
    simp only [Savepoint.shift, Array.size_extract]
    omega

theorem Ordered.cut (hord : log.Ordered) (hs : log.savepoints.find? (·.id == n) = some s) :
    (log.cut n s.start).Ordered := by
  obtain ⟨hkept, hstart⟩ := hord.takeWhile hs
  refine ⟨fun t ht => ?_, hkept.ascending⟩
  have := hstart t ht
  have := hkept.start_le t ht
  simp only [UndoLog.cut, Array.size_extract] at *
  omega

theorem ordered_of_nil (hnil : log.savepoints = []) : log.Ordered :=
  ⟨fun s hs => by simp [hnil] at hs, hnil ▸ .nil⟩

/-! ### Consistent logs -/

/-- A log that keeps to its limit. The savepoints mark places of it in order, from its start on,
    and there is no record before them. -/
structure Consistent (limit : Nat) (log : UndoLog) : Prop extends Ordered log where
  /-- The most savepoints that are kept. -/
  limit_eq : log.maxSavepoints = limit
  /-- There are no more. -/
  length_le : log.savepoints.length ≤ limit
  /-- The first one marks the start. -/
  start_eq : ∀ s ∈ log.savepoints.head?, s.start = 0
  /-- Without savepoints there are no records. -/
  records_eq : log.savepoints = [] → log.records = #[]

section Consistent

variable {limit : Nat}

theorem consistent_empty (limit : Nat) : Consistent limit { maxSavepoints := limit } where
  toOrdered := ordered_of_nil rfl
  limit_eq := rfl
  length_le := Nat.zero_le _
  start_eq _ hs := nomatch hs
  records_eq _ := rfl

theorem Consistent.push (hc : log.Consistent limit) (hrec : log.isRecording = true)
    (r : UndoRecord) : Consistent limit { log with records := log.records.push r } where
  toOrdered := hc.toOrdered.push r
  limit_eq := hc.limit_eq
  length_le := hc.length_le
  start_eq := hc.start_eq
  records_eq hnil := by simp [isRecording, show log.savepoints = [] from hnil] at hrec

theorem Consistent.dropFirst (hc : log.Consistent limit) : log.dropFirst.Consistent limit := by
  cases hsp : log.savepoints with
  | nil =>
    rw [dropFirst_of_nil hsp]
    exact hc
  | cons s rest =>
    have hord := hc.toOrdered.dropFirst
    have hlength := hc.length_le
    rw [hsp, List.length_cons] at hlength
    have hoverdue : log.overdue = (rest.head?.map Savepoint.start).getD log.records.size := by
      rw [overdue, hsp, List.tail_cons]
    rw [dropFirst_of_cons hsp] at hord ⊢
    refine ⟨hord, hc.limit_eq, ?_, fun t ht => ?_, fun hnil => ?_⟩
    · exact (List.length_map _).trans_le (Nat.le_of_succ_le hlength)
    · -- The next savepoint marked the place up to which records are dropped.
      rw [List.head?_map] at ht
      obtain ⟨next, hnext, rfl⟩ := Option.map_eq_some_iff.1 ht
      rw [hnext, Option.map_some, Option.getD_some] at hoverdue
      exact Nat.sub_eq_zero_of_le hoverdue.ge
    · rw [List.map_eq_nil_iff.1 hnil] at hoverdue
      exact Array.extract_eq_empty_of_le (by rw [hoverdue]; simp)

/-- There is a savepoint less, if there was one. -/
theorem length_dropFirst (log : UndoLog) :
    log.dropFirst.savepoints.length = log.savepoints.length - 1 := by
  cases hsp : log.savepoints with
  | nil => rw [dropFirst_of_nil hsp, hsp, List.length_nil]
  | cons s rest => rw [dropFirst_of_cons hsp, List.length_map, List.length_cons,
      Nat.add_sub_cancel]

theorem Consistent.mark (hc : log.Consistent limit) (hroom : log.savepoints.length < limit) :
    log.mark.Consistent limit where
  toOrdered := hc.toOrdered.mark
  limit_eq := hc.limit_eq
  length_le := by
    rw [UndoLog.mark, List.length_append]
    exact hroom
  start_eq s hs := by
    rw [UndoLog.mark] at hs
    cases hsp : log.savepoints with
    | nil =>
      -- Nothing has been recorded, and so the end of the log is its start.
      rw [hsp, hc.records_eq hsp] at hs
      obtain rfl := Option.some.inj hs
      rfl
    | cons first rest =>
      rw [hsp] at hs
      exact hc.start_eq s (hsp ▸ hs)
  records_eq hnil := by simp [UndoLog.mark] at hnil

/-- A savepoint is set, and the oldest is dropped if there are too many. -/
theorem Consistent.save (hc : log.Consistent limit) (hlimit : 1 ≤ limit) :
    (if log.maxSavepoints ≤ log.savepoints.length then log.dropFirst else log).mark.Consistent
      limit := by
  have hlength := hc.length_le
  rw [hc.limit_eq]
  split
  · refine hc.dropFirst.mark ?_
    rw [length_dropFirst]
    omega
  · exact hc.mark (by omega)

theorem Consistent.cut (hc : log.Consistent limit)
    (hs : log.savepoints.find? (·.id == n) = some s) : (log.cut n s.start).Consistent limit where
  toOrdered := hc.toOrdered.cut hs
  limit_eq := hc.limit_eq
  length_le := (List.takeWhile_sublist _).length_le.trans hc.length_le
  start_eq t ht := by
    rw [UndoLog.cut, List.head?_takeWhile] at ht
    exact hc.start_eq t (Option.filter_eq_some_iff.1 ht).1
  records_eq hnil := by
    -- It was the first savepoint, and so everything is reverted.
    obtain ⟨later, heq⟩ := savepoints_of_find? hs
    have hnil' : log.savepoints.takeWhile (·.id != n) = [] := hnil
    rw [hnil', List.nil_append] at heq
    have hstart := hc.start_eq s (by rw [heq, List.head?_cons, Option.mem_some_iff])
    rw [UndoLog.cut, hstart]
    exact Array.extract_zero

theorem Consistent.commit (hc : log.Consistent limit) :
    Consistent limit { log with records := #[], savepoints := [] } where
  toOrdered := ordered_of_nil rfl
  limit_eq := hc.limit_eq
  length_le := Nat.zero_le _
  start_eq _ hs := nomatch hs
  records_eq _ := rfl

end Consistent

end UndoLog

/-- A body after changes to it have been taken back, one after the other. -/
def Body.reverted (b : Body) (cs : List Change) : Body := cs.foldl (fun b c => (c.revert b).1) b

theorem Body.reverted_append (b : Body) (cs ds : List Change) :
    b.reverted (cs ++ ds) = (b.reverted cs).reverted ds :=
  List.foldl_append

theorem Body.Rewinds.reverted_eq {b b₀ : Body} {cs : List Change} (hb : b.Rewinds cs b₀) :
    b.reverted cs = b₀ := by
  induction cs generalizing b with
  | nil => exact hb
  | cons c cs ih => exact ih hb.2

namespace UndoRecord

variable {t : ObjectId} {r : UndoRecord} {rs : List UndoRecord}

theorem changesTo_cons_self (hr : r.target = t) :
    changesTo t (r :: rs) = r.change :: changesTo t rs := by
  simp [changesTo, hr]

theorem changesTo_cons_of_ne (hr : r.target ≠ t) : changesTo t (r :: rs) = changesTo t rs := by
  simp [changesTo, hr]

theorem changesTo_append (t : ObjectId) (rs rs' : List UndoRecord) :
    changesTo t (rs ++ rs') = changesTo t rs ++ changesTo t rs' := by
  rw [changesTo, List.filter_append, List.map_append]
  rfl

end UndoRecord

/-! ## What operations do to the log -/

namespace Heap

variable {settings : HeapSettings} {h h' : Heap} {t id : ObjectId} {op : Operation}
  {taken : List Value} {log : UndoLog} {n : UInt32} {limit : Nat}

theorem undo_dropOldest (h : Heap) : h.dropOldest.undo = h.undo.dropFirst := by
  unfold dropOldest UndoLog.dropFirst
  cases h.undo.savepoints with
  | nil => rfl
  | cons s rest =>
    dsimp only
    rw [← Array.foldl_toList, undo_foldl_discardRecord]
    rfl

/-- Of a log that has been marked too often the oldest savepoint goes. -/
theorem undo_beginSavepoint (h : Heap) : h.beginSavepoint.2.undo =
    (if h.undo.maxSavepoints ≤ h.undo.savepoints.length then h.undo.dropFirst
      else h.undo).mark := by
  unfold beginSavepoint
  split
  · rw [← undo_dropOldest]
    rfl
  · rfl

theorem undo_undoTo {s : Savepoint} (hs : h.undo.savepoints.find? (·.id == n) = some s) :
    (h.undoTo n).2.undo = h.undo.cut n s.start := by
  rw [undoTo_of_find? hs, undo_foldl_applyUndo]
  rfl

theorem undo_commit (h : Heap) :
    h.commit.undo = { h.undo with records := #[], savepoints := [] } := by
  unfold commit
  rw [← Array.foldl_toList, undo_foldl_discardRecord]

/-- A record is added to the log if there is a savepoint. -/
theorem undo_record_eq_ite (h : Heap) (id : ObjectId) (change : Change) :
    (h.record id change).undo =
    if h.undo.isRecording then { h.undo with records := h.undo.records.push ⟨id, change⟩ }
    else h.undo := by
  split
  · next hrec => exact undo_record hrec id change
  · next hrec =>
    rw [record, if_neg hrec]
    exact undo_releaseAll _ _

/-- An edit is recorded if there is a savepoint. -/
theorem Edit.undo_eq {given : List Value} (he : h.Edit id given taken h') :
    ∃ change, h'.undo =
      if h.undo.isRecording then { h.undo with records := h.undo.records.push ⟨id, change⟩ }
      else h.undo := by
  obtain @⟨o, body, change, given, taken, extra, -, -, -, -, -⟩ := he
  have hundo : ((h.setBody id body).retainValues extra).undo = h.undo := by simp [setBody]
  exact ⟨change, by rw [undo_record_eq_ite, hundo]⟩

theorem mem_records_dropFirst {r : UndoRecord} (hr : r ∈ log.dropFirst.records) :
    r ∈ log.records := by
  cases hsp : log.savepoints with
  | nil => rwa [UndoLog.dropFirst_of_nil hsp] at hr
  | cons s rest =>
    rw [UndoLog.dropFirst_of_cons hsp, ← Array.mem_toList_iff, UndoLog.toList_extract_right] at hr
    exact Array.mem_toList_iff.1 (List.mem_of_mem_drop hr)

/-- What an operation makes of the log. -/
inductive LogStep (h : Heap) : UndoLog → Prop
  /-- It is left alone. -/
  | same : LogStep h h.undo
  /-- A change of an object is recorded. -/
  | push (hrec : h.undo.isRecording = true) (r : UndoRecord) (hlive : h.contains r.target = true) :
      LogStep h { h.undo with records := h.undo.records.push r }
  /-- A savepoint is set. -/
  | save : LogStep h (if h.undo.maxSavepoints ≤ h.undo.savepoints.length then h.undo.dropFirst
      else h.undo).mark
  /-- What was recorded since a savepoint is reverted. -/
  | cut {n : UInt32} {s : Savepoint} (hs : h.undo.savepoints.find? (·.id == n) = some s) :
      LogStep h (h.undo.cut n s.start)
  /-- Everything is dropped. -/
  | commit : LogStep h { h.undo with records := #[], savepoints := [] }

theorem Does.logStep (hd : h.Does op taken h') : h.LogStep h'.undo := by
  have hsame (heq : h'.undo = h.undo) : h.LogStep h'.undo := heq ▸ .same
  cases hd with
  | idle => exact .same
  | alloc ha => exact hsame ha.frame.1
  | retain v => exact hsame (undo_retainValue h v)
  | release => exact hsame (undo_releaseAll _ _)
  | collect roots => exact hsame (undo_of_collect h roots)
  | @edit _ id _ _ he =>
    have hlive : h.contains id = true := by
      obtain @⟨o, -, -, -, -, -, ho, -, -, -, -⟩ := he
      exact contains_iff.2 ⟨o, ho⟩
    obtain ⟨change, hundo⟩ := he.undo_eq
    split at hundo
    · next hrec =>
      rw [hundo]
      exact .push hrec ⟨id, change⟩ hlive
    · exact hsame hundo
  | beginSavepoint =>
    rw [undo_beginSavepoint]
    exact .save
  | undo n =>
    cases hs : h.undo.savepoints.find? (·.id == n) with
    | none =>
      have hself : (h.undoTo n).2 = h := by rw [undoTo, hs]
      exact hsame (congrArg Heap.undo hself)
    | some s =>
      rw [undo_undoTo hs]
      exact .cut hs
  | commit =>
    rw [undo_commit]
    exact .commit

/-- A new object changes neither the log nor the settings, and nothing goes wrong. -/
theorem frame_performed_alloc (h : Heap) (object : Object) :
    (h.performed (.alloc object)).undo = h.undo ∧
      (h.performed (.alloc object)).settings = h.settings ∧
      (h.performed (.alloc object)).saturated = h.saturated ∧
      (h.performed (.alloc object)).wrapped = h.wrapped := by
  cases hfree : h.free with
  | cons n rest =>
    rw [performed_of_ok rfl (alloc_of_cons hfree object), occupy, modifySlot_eq]
    exact ⟨rfl, rfl, rfl, rfl⟩
  | nil =>
    by_cases hfull : h.settings.maxObjects ≤ UInt32.ofNat h.slots.size
    · rw [performed_of_error rfl (alloc_of_full hfree hfull object)]
      exact ⟨rfl, rfl, rfl, rfl⟩
    · rw [performed_of_ok rfl (alloc_of_nil hfree hfull object), occupy, modifySlot_eq]
      exact ⟨rfl, rfl, rfl, rfl⟩

/-- Whatever is asked of a table in whichever order, this is what becomes of its log. -/
theorem logStep_performed (h : Heap) (op : Operation) : h.LogStep (h.performed op).undo := by
  by_cases hop : ∃ object, op = .alloc object
  · obtain ⟨object, rfl⟩ := hop
    rw [(h.frame_performed_alloc object).1]
    exact .same
  · rcases op.performs_of_ne_alloc fun object he => hop ⟨object, he⟩ with
      ⟨e, herr⟩ | ⟨taken, h', hok, hd⟩
    · rw [performed, herr]
      exact .same
    · rw [performed, hok]
      exact hd.logStep

theorem settings_performed (h : Heap) (op : Operation) :
    (h.performed op).settings = h.settings := by
  by_cases hop : ∃ object, op = .alloc object
  · obtain ⟨object, rfl⟩ := hop
    exact (h.frame_performed_alloc object).2.1
  · exact (performed_touches fun object he => hop ⟨object, he⟩).ages.settings

theorem LogStep.ordered (hl : h.LogStep log) (hord : h.undo.Ordered) : log.Ordered := by
  cases hl with
  | same => exact hord
  | push _ r _ => exact hord.push r
  | save =>
    split
    · exact hord.dropFirst.mark
    · exact hord.mark
  | cut hs => exact hord.cut hs
  | commit => exact UndoLog.ordered_of_nil rfl

/-- A record that comes in is about an object that is there. -/
theorem LogStep.mem_records (hl : h.LogStep log) {r : UndoRecord} (hr : r ∈ log.records) :
    r ∈ h.undo.records ∨ h.contains r.target = true := by
  cases hl with
  | same => exact .inl hr
  | push _ r' hlive =>
    rcases Array.mem_push.1 hr with hr | rfl
    · exact .inl hr
    · exact .inr hlive
  | save =>
    refine .inl ?_
    split at hr
    · exact mem_records_dropFirst hr
    · exact hr
  | cut hs =>
    rw [UndoLog.cut, ← Array.mem_toList_iff, UndoLog.toList_extract_left] at hr
    exact .inl (Array.mem_toList_iff.1 (List.mem_of_mem_take hr))
  | commit => exact absurd hr (Array.not_mem_empty r)

theorem LogStep.consistent (hl : h.LogStep log) (hc : h.undo.Consistent limit)
    (hlimit : 1 ≤ limit) : log.Consistent limit := by
  cases hl with
  | same => exact hc
  | push hrec r _ => exact hc.push hrec r
  | save => exact hc.save hlimit
  | cut hs => exact hc.cut hs
  | commit => exact hc.commit

/-! ### Every call -/

theorem Puts.frame {o : Occupant} (hp : h.Puts id o h') :
    h'.undo = h.undo ∧ h'.settings = h.settings := by
  cases hp with
  | refused => exact ⟨rfl, rfl⟩
  | placed _ _ _ => exact ⟨undo_place .., settings_place ..⟩

theorem frame_openHoles (h : Heap) :
    h.openHoles.undo = h.undo ∧ h.openHoles.settings = h.settings := by
  obtain ⟨slots, heq, -⟩ := foldl_opened_eq h ((List.range h.slots.size).filter fun i =>
    HeapSettings.reserved.toNat ≤ i && !h.isOccupied i)
  simp only [openHoles, heq, and_self]

theorem settings_after (h : Heap) (call : Call) : (h.after call).settings = h.settings := by
  cases call with
  | define n object => exact (withDefined_puts h n object).frame.2
  | insert id object persistent => exact (withInserted_puts h id object persistent).frame.2
  | openHoles => exact h.frame_openHoles.2
  | rebuildCounts roots => exact (h.frame_rebuildCounts roots).1
  | operate op => exact h.settings_performed op
  | clear => rfl

/-- What is done to a table leaves its log consistent. -/
theorem consistent_after (hc : h.undo.Consistent h.settings.maxSavepoints)
    (hmax : 1 ≤ h.settings.maxSavepoints) (call : Call) :
    (h.after call).undo.Consistent h.settings.maxSavepoints := by
  have hsame (heq : (h.after call).undo = h.undo) :
      (h.after call).undo.Consistent h.settings.maxSavepoints := heq ▸ hc
  cases call with
  | define n object => exact hsame (withDefined_puts h n object).frame.1
  | insert id object persistent => exact hsame (withInserted_puts h id object persistent).frame.1
  | openHoles => exact hsame h.frame_openHoles.1
  | rebuildCounts roots => exact hsame (h.frame_rebuildCounts roots).2.2.2
  | operate op => exact (h.logStep_performed op).consistent hc hmax
  | clear => exact UndoLog.consistent_empty _

/-- The induction is on the calls that have been made, of which none changes the settings. -/
theorem consistent_afterAll (settings : HeapSettings) (hmax : 1 ≤ settings.maxSavepoints)
    (calls : List Call) :
    ((Heap.new settings).afterAll calls).undo.Consistent settings.maxSavepoints := by
  have hstart : (Heap.new settings).settings = settings ∧
      (Heap.new settings).undo.Consistent settings.maxSavepoints :=
    ⟨rfl, UndoLog.consistent_empty _⟩
  refine (List.foldlRecOn (motive := fun h => h.settings = settings ∧
    h.undo.Consistent settings.maxSavepoints) calls after hstart ?_).2
  rintro h ⟨hsettings, hc⟩ call -
  rw [← hsettings] at hc hmax
  exact ⟨(h.settings_after call).trans hsettings, hsettings ▸ consistent_after hc hmax call⟩

/-! ## Objects that last -/

/-- The object is there after each of the operations. -/
def HasThrough (h : Heap) (t : ObjectId) : List Operation → Prop
  | [] => True
  | op :: ops => (h.performed op).contains t = true ∧ (h.performed op).HasThrough t ops

theorem HasThrough.concat {ops : List Operation} (hall : h.HasThrough t ops)
    (hlast : (h.through (ops ++ [op])).contains t = true) : h.HasThrough t (ops ++ [op]) := by
  induction ops generalizing h with
  | nil => exact ⟨hlast, trivial⟩
  | cons op' ops ih => exact ⟨hall.1, ih hall.2 hlast⟩

/-! ## Reverting -/

theorem get?_setBody (h : Heap) (id : ObjectId) (body : Body) (t : ObjectId) :
    (h.setBody id body).get? t =
      if t = id then (h.get? t).map fun o => { o with body } else h.get? t := by
  rw [get?, get?, setBody, occupant?_modifyOccupant]
  split
  · next hid =>
    rw [hid, Option.map_map, Option.map_map]
    rfl
  · rfl

/-- Reverting a record changes no other object than the one it is about. -/
theorem get?_applyUndo {o : Object} {r : UndoRecord} (hget : h.get? t = some o)
    (hlive : (h.applyUndo r).contains t = true) : (h.applyUndo r).get? t =
      some (if r.target = t then { o with body := (r.change.revert o.body).1 } else o) := by
  cases ho : h.occupant? r.target with
  | none =>
    -- The object that the record is about is gone, so it is not this one.
    have hne : r.target ≠ t := fun he => by simp [get?, ← he, ho] at hget
    have happly : h.applyUndo r = h.releaseValues r.change.values := by rw [applyUndo, ho]
    rw [happly] at hlive ⊢
    rw [(Shrinks.releaseValues h _).objects t hlive, if_neg hne]
    exact hget
  | some o' =>
    rw [applyUndo_of_occupant? ho] at hlive ⊢
    rw [((Shrinks.releaseValues _ _).trans (.release _ _)).objects t hlive, get?_setBody, hget]
    by_cases htarget : r.target = t
    · have hobject : o'.object = o := by
        rw [← htarget, get?, ho] at hget
        exact Option.some.inj hget
      rw [if_pos htarget.symm, if_pos htarget, hobject]
      rfl
    · rw [if_neg (Ne.symm htarget), if_neg htarget]

/-- Reverting one record after the other takes back the changes to an object that lasts, and
    to no other. -/
theorem get?_foldl_applyUndo {o : Object} {rs : List UndoRecord} (hget : h.get? t = some o)
    (hlive : (rs.foldl applyUndo h).contains t = true) : (rs.foldl applyUndo h).get? t =
      some { o with body := o.body.reverted (UndoRecord.changesTo t rs) } := by
  induction rs generalizing h o with
  | nil => exact hget
  | cons r rs ih =>
    -- No object is made, so that it is there in between.
    have hrest : (h.applyUndo r).Touches (rs.foldl applyUndo (h.applyUndo r)) :=
      List.foldlRecOn rs _ .refl fun _ ht r _ => ht.trans (Touches.applyUndo _ r)
    have hnext := get?_applyUndo hget (hrest.contains hlive)
    rw [List.foldl_cons, ih hnext hlive]
    by_cases htarget : r.target = t
    · rw [if_pos htarget, UndoRecord.changesTo_cons_self htarget]
      rfl
    · rw [if_neg htarget, UndoRecord.changesTo_cons_of_ne htarget]

/-- An edit leaves all other objects as they are. -/
theorem Edit.get?_eq {given : List Value} (he : h.Edit id given taken h') (hne : id ≠ t)
    (hlive : h'.contains t = true) : h'.get? t = h.get? t := by
  obtain @⟨o, body, change, given, taken, extra, -, -, -, -, -⟩ := he
  rw [((Shrinks.retainValues _ extra).trans (.record _ id change)).objects t hlive, get?_setBody,
    if_neg (Ne.symm hne)]

end Heap

end StoryMachine
