import StoryMachine.Proofs.Heap.Log
import StoryMachine.Proofs.Heap.Revival

/-!
# Dropping the oldest savepoint

What an object comes back as when a savepoint is gone back to can be told beforehand: its body
is taken back through the records about it since that savepoint. This stays the same as long as
the savepoint stands and the object is there. It does so when the oldest savepoint is dropped,
since only records from before all others go. Hence going back finds the objects as it would
have without that.

* `UndoLog.changesSince`: the records about an object since a savepoint;
* `Heap.former?`: what an object comes back as;
* `Does.former?_eq`, `Ready.former?_alloc`: one operation, and a new object;
* `Ready.onward_performed`: names go onward, whoever owns the counts;
* `Returnable.undoTo`: going back after a run;
* `Returnable.former?_dropOldest`: the oldest savepoint is dropped;
* `log_consistent`: what this says about all that can be asked of a table.
-/

namespace StoryMachine

/-! ## The changes since a savepoint -/

namespace UndoLog

variable {log : UndoLog} {n m : UInt32} {s stop first : Savepoint} {rest : List Savepoint}
  {t : ObjectId}

/-- The changes to an object that have been recorded since a savepoint, the latest first. -/
def changesSince (log : UndoLog) (n : UInt32) (t : ObjectId) : List Change :=
  match log.savepoints.find? (·.id == n) with
  | none => []
  | some s => UndoRecord.changesTo t (log.since s.start)

theorem changesSince_of_find? (hs : log.savepoints.find? (·.id == n) = some s) (t : ObjectId) :
    log.changesSince n t = UndoRecord.changesTo t (log.since s.start) := by
  rw [changesSince, hs]

theorem changesSince_push (hord : log.Ordered)
    (hs : log.savepoints.find? (·.id == n) = some s) (r : UndoRecord) (t : ObjectId) :
    changesSince { log with records := log.records.push r } n t =
      if r.target = t then r.change :: log.changesSince n t else log.changesSince n t := by
  have hpushed : (UndoLog.savepoints { log with records := log.records.push r }).find?
      (·.id == n) = some s := hs
  have hstart := hord.start_le s (List.mem_of_find?_eq_some hs)
  rw [changesSince_of_find? hpushed, since_push r hstart, changesSince_of_find? hs]
  split
  · next htarget => exact UndoRecord.changesTo_cons_self htarget
  · next htarget => exact UndoRecord.changesTo_cons_of_ne htarget

theorem find?_mark (hs : log.savepoints.find? (·.id == n) = some s) :
    log.mark.savepoints.find? (·.id == n) = some s := by
  rw [mark, List.find?_append, hs, Option.some_or]

theorem changesSince_mark (hs : log.savepoints.find? (·.id == n) = some s) (t : ObjectId) :
    log.mark.changesSince n t = log.changesSince n t := by
  rw [changesSince_of_find? (find?_mark hs), changesSince_of_find? hs]
  rfl

/-- A savepoint that is left after the oldest has been dropped has moved with its records. -/
theorem find?_dropFirst (hsp : log.savepoints = first :: rest) (hne : first.id ≠ n)
    (hs : log.savepoints.find? (·.id == n) = some s) :
    s ∈ rest ∧ log.dropFirst.savepoints.find? (·.id == n) = some (s.shift log.overdue) := by
  rw [hsp, List.find?_cons_of_neg (by simpa using hne)] at hs
  refine ⟨List.mem_of_find?_eq_some hs, ?_⟩
  rw [dropFirst_of_cons hsp, List.find?_map]
  exact congrArg (Option.map _) hs

theorem changesSince_dropFirst (hord : log.Ordered) (hsp : log.savepoints = first :: rest)
    (hne : first.id ≠ n) (hs : log.savepoints.find? (·.id == n) = some s) (t : ObjectId) :
    log.dropFirst.changesSince n t = log.changesSince n t := by
  obtain ⟨hmem, hs'⟩ := find?_dropFirst hsp hne hs
  rw [changesSince_of_find? hs', changesSince_of_find? hs, dropFirst_of_cons hsp]
  exact congrArg _ (since_dropped log.overdue (hord.overdue_le hsp s hmem))

/-- A savepoint is set, and the oldest is dropped if there are too many. -/
theorem changesSince_save (hord : log.Ordered) (hs : log.savepoints.find? (·.id == n) = some s)
    (hne : log.maxSavepoints ≤ log.savepoints.length → ∀ s ∈ log.savepoints.head?, s.id ≠ n) :
    let saved := (if log.maxSavepoints ≤ log.savepoints.length then log.dropFirst else log).mark
    (∃ s', saved.savepoints.find? (·.id == n) = some s') ∧
      ∀ t, saved.changesSince n t = log.changesSince n t := by
  intro saved
  by_cases hfull : log.maxSavepoints ≤ log.savepoints.length
  · have hsaved : saved = log.dropFirst.mark := congrArg mark (if_pos hfull)
    obtain ⟨first, rest, hsp⟩ := List.exists_cons_of_ne_nil
      (List.ne_nil_of_mem (List.mem_of_find?_eq_some hs))
    have hfirst : first.id ≠ n := hne hfull first (by rw [hsp, List.head?_cons, Option.mem_some_iff])
    obtain ⟨-, hs'⟩ := find?_dropFirst hsp hfirst hs
    rw [hsaved]
    refine ⟨⟨_, find?_mark hs'⟩, fun t => ?_⟩
    rw [changesSince_mark hs', changesSince_dropFirst hord hsp hfirst hs]
  · have hsaved : saved = log.mark := congrArg mark (if_neg hfull)
    rw [hsaved]
    exact ⟨⟨s, find?_mark hs⟩, changesSince_mark hs⟩

/-- What has been recorded since a savepoint is what has been since a later one, and before
    that. -/
theorem changesSince_cut (hord : log.Ordered) (hs : log.savepoints.find? (·.id == n) = some s)
    (hm : log.savepoints.find? (·.id == m) = some stop)
    (hkept : ∃ s' ∈ log.savepoints.takeWhile (·.id != m), s'.id = n) :
    (log.cut m stop.start).savepoints.find? (·.id == n) = some s ∧
      ∀ t, log.changesSince n t = UndoRecord.changesTo t (log.since stop.start) ++
        (log.cut m stop.start).changesSince n t := by
  obtain ⟨later, heq⟩ := savepoints_of_find? hm
  obtain ⟨s', hs', hid⟩ := hkept
  -- The first savepoint of that number is among those that are kept.
  have hfind : (log.cut m stop.start).savepoints.find? (·.id == n) = some s := by
    have hsome : (log.savepoints.takeWhile (·.id != m)).find? (·.id == n) ≠ none := fun hnone =>
      absurd (List.find?_eq_none.1 hnone s' hs') (by simp [hid])
    obtain ⟨s'', hs''⟩ := Option.ne_none_iff_exists'.1 hsome
    rw [heq, List.find?_append, hs'', Option.some_or] at hs
    exact hs''.trans hs
  have hle := (hord.takeWhile hm).2 s (List.mem_of_find?_eq_some hfind)
  refine ⟨hfind, fun t => ?_⟩
  rw [changesSince_of_find? hs, changesSince_of_find? hfind,
    log.since_eq_append hle (hord.start_le stop (List.mem_of_find?_eq_some hm)) m,
    UndoRecord.changesTo_append]

/-- Without a record about an object nothing is taken back. -/
theorem changesSince_eq_nil (hother : ∀ r ∈ log.records, r.target ≠ t) :
    log.changesSince n t = [] := by
  rw [changesSince]
  split
  · rfl
  · next s _ =>
    rw [UndoRecord.changesTo, List.filter_eq_nil_iff.2, List.map_nil]
    intro r hmem
    rw [since, List.mem_reverse] at hmem
    simpa using hother r (Array.mem_toList_iff.1 (List.mem_of_mem_drop hmem))

end UndoLog

namespace Heap

variable {settings : HeapSettings} {h h' : Heap} {t id : ObjectId} {op : Operation}
  {ops : List Operation} {taken : List Value} {n m : UInt32} {s first : Savepoint}
  {rest : List Savepoint}

/-! ## What objects come back as -/

/-- What an object comes back as when a savepoint is gone back to: as it was before the changes
    to it since then. -/
def former? (h : Heap) (n : UInt32) (t : ObjectId) : Option Object :=
  (h.get? t).map fun o => { o with body := o.body.reverted (h.undo.changesSince n t) }

theorem former?_congr (hget : h'.get? t = h.get? t)
    (hlog : h'.undo.changesSince n t = h.undo.changesSince n t) :
    h'.former? n t = h.former? n t := by
  rw [former?, former?, hget, hlog]

/-- Going back finds it so. -/
theorem get?_undoTo (hs : h.undo.savepoints.find? (·.id == n) = some s)
    (hlive : (h.undoTo n).2.contains t = true) : (h.undoTo n).2.get? t = h.former? n t := by
  have hbefore := (Touches.undoTo h n).contains hlive
  rw [contains_eq_isSome_get?] at hbefore
  obtain ⟨o, ho⟩ := Option.isSome_iff_exists.1 hbefore
  rw [undoTo_of_find? hs, UndoLog.toList_extract_right] at hlive ⊢
  have htruncated : (h.truncated n s.start).get? t = some o := ho
  rw [former?, ho, UndoLog.changesSince_of_find? hs]
  exact get?_foldl_applyUndo htruncated hlive

/-- An edit is recorded, and so what the object comes back as is the same. -/
theorem Edit.former?_eq {given : List Value} (he : h.Edit id given taken h')
    (hord : h.undo.Ordered) (hs : h.undo.savepoints.find? (·.id == n) = some s)
    (hlive : h'.contains t = true) : h'.former? n t = h.former? n t := by
  obtain @⟨o, body, change, given, taken, extra, ho, -, hreverts, -, -⟩ := he
  have hrec : h.undo.isRecording = true := by
    rw [UndoLog.isRecording, Bool.not_eq_true', List.isEmpty_eq_false_iff]
    exact List.ne_nil_of_mem (List.mem_of_find?_eq_some hs)
  have hundo : ((h.setBody id body).retainValues extra).undo = h.undo := by simp [setBody]
  have hget := ((Shrinks.retainValues _ extra).trans (.record _ id change)).objects t hlive
  rw [get?_setBody] at hget
  rw [former?, former?, hget, undo_record (hundo ▸ hrec), hundo,
    UndoLog.changesSince_push hord hs]
  by_cases hid : id = t
  · -- The change has led away from the body that it leads back to.
    have hobject : h.get? id = some o.object := by rw [get?, ho, Option.map_some]
    rw [← hid, if_pos rfl, if_pos rfl, hobject, Option.map_some, Option.map_some, Option.map_some]
    simp only [Body.reverted, List.foldl_cons, hreverts]
  · rw [if_neg (Ne.symm hid), if_neg hid]

/-- An operation that leaves the savepoint standing leaves what an object comes back as, unless
    it is freed. -/
theorem Does.former?_eq (hd : h.Does op taken h') (hop : ∀ object, op ≠ .alloc object)
    (hsize : h.slots.size < 2 ^ 32) (hord : h.undo.Ordered)
    (hs : h.undo.savepoints.find? (·.id == n) = some s) (hspares : op.Spares h n) :
    (∃ s', h'.undo.savepoints.find? (·.id == n) = some s') ∧
      ∀ t, h'.contains t = true → h'.former? n t = h.former? n t := by
  have hkeeps (hget : ∀ t, h'.contains t = true → h'.get? t = h.get? t)
      (hundo : h'.undo = h.undo) : (∃ s', h'.undo.savepoints.find? (·.id == n) = some s') ∧
      ∀ t, h'.contains t = true → h'.former? n t = h.former? n t :=
    ⟨⟨s, hundo.symm ▸ hs⟩, fun t hlive => former?_congr (hget t hlive) (by rw [hundo])⟩
  cases hd with
  | idle => exact hkeeps (fun _ _ => rfl) rfl
  | alloc => exact absurd rfl (hop _)
  | edit he =>
    obtain ⟨change, hundo⟩ := he.undo_eq
    refine ⟨⟨s, ?_⟩, fun t hlive => he.former?_eq hord hs hlive⟩
    rw [hundo]
    split <;> exact hs
  | retain v => exact hkeeps (Shrinks.retainValues h [v]).objects (undo_retainValue h v)
  | release => exact hkeeps (Shrinks.releaseValues h _).objects (undo_releaseAll h _)
  | collect roots =>
    refine hkeeps (fun t hlive => ?_) (undo_of_collect h roots)
    obtain ⟨o, ho⟩ := contains_iff.1 ((Touches.collect h roots).contains hlive)
    obtain ⟨refs, hleft, -⟩ := occupant?_collect_eq hsize ho hlive
    rw [get?, hleft, get?, ho]
    rfl
  | beginSavepoint =>
    obtain ⟨hstands, hsame⟩ := UndoLog.changesSince_save hord hs (hspares.2.2 rfl)
    rw [← undo_beginSavepoint] at hstands hsame
    exact ⟨hstands, fun t hlive =>
      former?_congr ((Shrinks.beginSavepoint h).objects t hlive) (hsame t)⟩
  | undo m hm =>
    cases hstop : h.undo.savepoints.find? (·.id == m) with
    | none =>
      have hself : (h.undoTo m).2 = h := by rw [undoTo, hstop]
      rw [hself]
      exact ⟨⟨s, hs⟩, fun _ _ => rfl⟩
    | some stop =>
      obtain ⟨hstands, hcut⟩ := UndoLog.changesSince_cut hord hs hstop (hspares.2.1 m hm)
      rw [undo_undoTo hstop]
      refine ⟨⟨s, hstands⟩, fun t hlive => ?_⟩
      -- Part of the way back has been gone.
      rw [former?, get?_undoTo hstop hlive, undo_undoTo hstop, former?, former?, Option.map_map,
        hcut t, ← UndoLog.changesSince_of_find? hstop]
      simp only [Function.comp_def, Body.reverted_append]
  | commit => exact absurd rfl hspares.1

/-! ## Every operation -/

/-- A new object is in a slot that was empty. -/
theorem Ready.contains_of_alloc {object : Object} (hr : h.Ready settings)
    (hok : Heap.alloc object h = .ok id h') : h.contains id = false := by
  refine Bool.eq_false_iff.2 fun hlive => ?_
  obtain ⟨o, ho⟩ := contains_iff.1 hlive
  have hempty := (hr.occupant?_alloc hok).1
  rw [isOccupied_of_occupant? ho] at hempty
  cases hempty

theorem Ready.former?_performed (hr : h.Ready settings) (hord : h.undo.Ordered)
    (hs : h.undo.savepoints.find? (·.id == n) = some s) (hspares : op.Spares h n) :
    (∃ s', (h.performed op).undo.savepoints.find? (·.id == n) = some s') ∧
      ∀ t, h.contains t = true → (h.performed op).contains t = true →
        (h.performed op).former? n t = h.former? n t := by
  by_cases hop : ∃ object, op = .alloc object
  · obtain ⟨object, rfl⟩ := hop
    have hundo := (h.frame_performed_alloc object).1
    refine ⟨⟨s, hundo.symm ▸ hs⟩, fun t hlive _ => former?_congr ?_ (by rw [hundo])⟩
    rcases hr.performed_alloc object with hsame | ⟨id, hok⟩
    · rw [hsame]
    · have hne : t ≠ id := fun he =>
        absurd ((hr.contains_of_alloc hok).symm.trans (he ▸ hlive)) Bool.false_ne_true
      rw [get?, (hr.occupant?_alloc hok).2, if_neg hne, get?]
  · have hne (object : Object) : op ≠ .alloc object := fun he => hop ⟨object, he⟩
    rcases op.performs_of_ne_alloc hne with ⟨e, herr⟩ | ⟨taken, h', hok, hd⟩
    · rw [performed, herr]
      exact ⟨⟨s, hs⟩, fun _ _ _ => rfl⟩
    · rw [performed, hok]
      obtain ⟨hstands, hsame⟩ := hd.former?_eq hne hr.size_lt hord hs hspares
      exact ⟨hstands, fun t _ hlive => hsame t hlive⟩

/-! ## Names -/

/-- A change that makes no object goes onward, as every slot has a number. -/
theorem Bounded.onward_touch (hb : h.Bounded settings) (ht : h.Touch h') : h.Onward h' := by
  cases ht with
  | vacate i hocc hfree =>
    obtain ⟨s, o, hs, hso⟩ := isOccupied_iff.1 hocc
    obtain ⟨n, -, -, rfl⟩ := hb.exists_toNat hocc
    have ho : h.occupant? ⟨n, s.generation⟩ = some o :=
      (occupant?_of_getElem? ⟨n, s.generation⟩ hs rfl).trans hso
    exact (Shrinks.vacate ho (hfree _ o ho rfl)).toOnward
  | modify id hpersistent _ => exact .modifyOccupant h id hpersistent
  | aside hslots _ _ _ hwrap hsat =>
    have hon : h.Onward { h' with saturated := h.saturated } :=
      (Onward.refl h).congr hslots rfl hwrap
    exact ⟨hsat, hon.wrapped, hon.spent, hon.live, hon.persistent⟩

theorem Bounded.onward_touches (hb : h.Bounded settings) (ht : h.Touches h') : h.Onward h' := by
  induction ht with
  | refl => exact .refl h
  | tail hts ht ih => exact ih.trans ((hb.touches hts).onward_touch ht)

/-- Names only go onward, also where counts are given up that are not owned. -/
theorem Ready.onward_performed (hr : h.Ready settings) (op : Operation) :
    h.Onward (h.performed op) := by
  by_cases hop : ∃ object, op = .alloc object
  · obtain ⟨object, rfl⟩ := hop
    rcases hr.performed_alloc object with hsame | ⟨id, hok⟩
    · rw [hsame]
      exact .refl h
    · obtain ⟨-, -, hsat, hwrap⟩ := h.frame_performed_alloc object
      refine ⟨fun hs => hsat ▸ hs, fun hw => hwrap ▸ hw, fun _ id' hspent => ?_,
        fun _ id' hlive => .inl ?_, fun id' hp => hr.isPersistent_performed _ hp⟩
      · obtain ⟨s, hs, hlt⟩ := hspent
        obtain ⟨s', hs', hg, -⟩ := hr.getElem?_alloc hok hs
        exact ⟨s', hs', hg ▸ hlt⟩
      · rw [contains, (hr.occupant?_alloc hok).2]
        split
        · rfl
        · exact hlive
  · exact hr.onward_touches (performed_touches fun object he => hop ⟨object, he⟩)

theorem Ready.onward_through (hr : h.Ready settings) (ops : List Operation) :
    h.Onward (h.through ops) := by
  induction ops generalizing h with
  | nil => exact .refl h
  | cons op ops ih => exact (hr.onward_performed op).trans (ih (hr.performed op))

/-- What is there before and after some operations has been there all the time, if the
    generations are in order. -/
theorem Ready.hasThrough (hr : h.Ready settings) (hwrap : (h.through ops).wrapped = false)
    (hlive : h.contains t = true) (hlast : (h.through ops).contains t = true) :
    h.HasThrough t ops := by
  induction ops generalizing h with
  | nil => trivial
  | cons op ops ih =>
    have hr' := hr.performed op
    have hlater := hr'.onward_through ops
    rcases (hr.onward_performed op).live (hlater.wrapped hwrap) t hlive with hlive' | hspent
    · exact ⟨hlive', ih hr' hwrap hlive' hlast⟩
    · have hgone := (hlater.spent hwrap t hspent).not_contains
      exact absurd (hgone.symm.trans hlast) Bool.false_ne_true

/-- A new object gets a name that has not been known. -/
theorem Ready.unknown_of_alloc {object : Object} (hr : h.Ready settings)
    (hok : Heap.alloc object h = .ok id h') : ¬h.Known true id := by
  have hperformed : h.performed (.alloc object) = h' := performed_of_ok rfl hok
  rintro (hzero | hlive | ⟨-, s, hs, hlt⟩)
  · have hm := hr.makes object
    rw [hok] at hm
    cases hm with
    | @first n rest s hfree hs =>
      exact hr.generation n (hfree ▸ List.mem_cons_self) s hs hzero
    | more _ _ =>
      have hone : (1 : UInt32) ≠ 0 := by decide
      exact hone hzero
  · rw [hr.contains_of_alloc hok] at hlive
    cases hlive
  · -- Its slot is in the generation of the name.
    obtain ⟨s', hs', hg, -⟩ := hr.getElem?_alloc hok hs
    have hspent : h'.Spent id := ⟨s', hs', hg ▸ hlt⟩
    have hnot := hspent.not_contains
    rw [contains, (hr.occupant?_alloc hok).2, if_pos rfl] at hnot
    cases hnot

/-- The log is about objects that have been there, unless generations have started again. -/
def Recalls (h : Heap) : Prop :=
  h.wrapped = false → ∀ r ∈ h.undo.records, h.Known true r.target

theorem Ready.recalls_performed (hr : h.Ready settings) (hrec : h.Recalls) (op : Operation) :
    (h.performed op).Recalls := fun hwrap r hmem => by
  have hon := hr.onward_performed op
  refine hon.known hwrap ?_
  rcases (h.logStep_performed op).mem_records hmem with hmem | hlive
  · exact hrec (hon.wrapped hwrap) r hmem
  · exact .inr (.inl hlive)

/-- There is no record about a new object, so it comes back as it is. -/
theorem Ready.former?_alloc {object : Object} (hr : h.Ready settings) (hrec : h.Recalls)
    (hwrap : h.wrapped = false) (hissues : h.issues? (.alloc object) = some t) :
    (h.performed (.alloc object)).contains t = true ∧
      (h.performed (.alloc object)).former? n t = some object := by
  cases hok : alloc object h with
  | error e h' =>
    rw [issues?, hok] at hissues
    cases hissues
  | ok id h' =>
    rw [issues?, hok] at hissues
    obtain rfl := Option.some.inj hissues
    have hperformed : h.performed (.alloc object) = h' := performed_of_ok rfl hok
    have hundo := (h.frame_performed_alloc object).1
    have hother : ∀ r ∈ h.undo.records, r.target ≠ id := fun r hmem htarget =>
      hr.unknown_of_alloc hok (htarget ▸ hrec hwrap r hmem)
    have ho : h'.occupant? id = some ⟨object, 1, false⟩ :=
      ((hr.occupant?_alloc hok).2 id).trans (if_pos rfl)
    rw [hperformed] at hundo ⊢
    refine ⟨contains_iff.2 ⟨_, ho⟩, ?_⟩
    rw [former?, get?, ho, hundo, UndoLog.changesSince_eq_nil hother]
    rfl

/-! ## Runs -/

/-- A table in which a savepoint stands, with a log that is in order. -/
structure Returnable (settings : HeapSettings) (n : UInt32) (h : Heap) : Prop
    extends h.Ready settings where
  /-- The savepoints are in order. -/
  ordered : h.undo.Ordered
  /-- The records are about objects that have been there. -/
  recalls : h.Recalls
  /-- The savepoint stands. -/
  stands : ∃ s, h.undo.savepoints.find? (·.id == n) = some s

/-- Every operation leaves the savepoint standing. -/
def SparesAll (h : Heap) (n : UInt32) : List Operation → Prop
  | [] => True
  | op :: ops => op.Spares h n ∧ (h.performed op).SparesAll n ops

instance decidableSparesAll (h : Heap) (n : UInt32) :
    (ops : List Operation) → Decidable (h.SparesAll n ops)
  | [] => .isTrue trivial
  | op :: ops =>
    have := decidableSparesAll (h.performed op) n ops
    inferInstanceAs (Decidable (op.Spares h n ∧ (h.performed op).SparesAll n ops))

/-- One of the operations makes the object, and gives it the name. -/
def MakesAs (h : Heap) (t : ObjectId) (object : Object) : List Operation → Prop
  | [] => False
  | op :: ops => (op = .alloc object ∧ h.issues? op = some t) ∨
      (h.performed op).MakesAs t object ops

theorem Returnable.performed (hr : h.Returnable settings n) (hspares : op.Spares h n) :
    (h.performed op).Returnable settings n where
  toReady := hr.toReady.performed op
  ordered := (h.logStep_performed op).ordered hr.ordered
  recalls := hr.toReady.recalls_performed hr.recalls op
  stands := by
    obtain ⟨s, hs⟩ := hr.stands
    exact (hr.toReady.former?_performed hr.ordered hs hspares).1

theorem Returnable.through (hr : h.Returnable settings n) (hspares : h.SparesAll n ops) :
    (h.through ops).Returnable settings n := by
  induction ops generalizing h with
  | nil => exact hr
  | cons op ops ih => exact ih (hr.performed hspares.1) hspares.2

/-- The induction is on the operations, and the object is there after each. -/
theorem Returnable.former?_through (hr : h.Returnable settings n) (hspares : h.SparesAll n ops)
    (hlive : h.contains t = true) (hall : h.HasThrough t ops) :
    (h.through ops).former? n t = h.former? n t := by
  induction ops generalizing h with
  | nil => rfl
  | cons op ops ih =>
    obtain ⟨s, hs⟩ := hr.stands
    have hstep := (hr.toReady.former?_performed hr.ordered hs hspares.1).2 t hlive hall.1
    exact (ih (hr.performed hspares.1) hspares.2 hall.1 hall.2).trans hstep

/-- The induction is on the operations up to the one that makes the object. -/
theorem Returnable.former?_made {object : Object} (hr : h.Returnable settings n)
    (hspares : h.SparesAll n ops) (hmakes : h.MakesAs t object ops)
    (hwrap : (h.through ops).wrapped = false) (hlast : (h.through ops).contains t = true) :
    (h.through ops).former? n t = some object := by
  induction ops generalizing h with
  | nil => exact hmakes.elim
  | cons op ops ih =>
    have hr' := hr.performed hspares.1
    rcases hmakes with ⟨rfl, hissues⟩ | hmakes
    · have hon := (hr.onward_performed (.alloc object)).trans (hr'.onward_through ops)
      obtain ⟨hlive, hformer⟩ :=
        hr.toReady.former?_alloc (n := n) hr.recalls (hon.wrapped hwrap) hissues
      have hall := hr'.hasThrough hwrap hlive hlast
      exact (hr'.former?_through hspares.2 hlive hall).trans hformer
    · exact ih hr' hspares.2 hmakes hwrap hlast

/-! ## Going back after a run -/

/-- The object is there before the operations, and the same one when the savepoint has been gone
    back to after them. -/
def Outlasts (h : Heap) (t : ObjectId) (n : UInt32) (ops : List Operation) : Prop :=
  h.contains t = true ∧ ((h.through ops).undoTo n).2.contains t = true ∧
    (((h.through ops).undoTo n).2.wrapped = false ∨ h.HasThrough t ops)

/-- Going back after some operations finds the savepoint. The objects that have been there before
    come back as they would have then, and new ones as they were made. -/
theorem Returnable.undoTo (hr : h.Returnable settings n) (hspares : h.SparesAll n ops) :
    ((h.through ops).undoTo n).1 = true ∧
      (∀ t, h.Outlasts t n ops → ((h.through ops).undoTo n).2.get? t = h.former? n t) ∧
      ∀ t object, h.MakesAs t object ops → ((h.through ops).undoTo n).2.contains t = true →
        ((h.through ops).undoTo n).2.wrapped = false →
          ((h.through ops).undoTo n).2.get? t = some object := by
  have hr' := hr.through hspares
  obtain ⟨s, hs⟩ := hr'.stands
  have hon := Onward.undoTo (h.through ops) n
  have hbefore {t : ObjectId} (hlive : ((h.through ops).undoTo n).2.contains t = true) :
      (h.through ops).contains t = true := (Touches.undoTo _ n).contains hlive
  refine ⟨by rw [undoTo_of_find? hs], fun t hlasts => ?_, fun t object hmakes hlive hwrap => ?_⟩
  · obtain ⟨hfirst, hlast, hsame⟩ := hlasts
    have hall : h.HasThrough t ops := hsame.elim
      (fun hwrap => hr.hasThrough (hon.wrapped hwrap) hfirst (hbefore hlast)) fun hall => hall
    rw [get?_undoTo hs hlast, hr.former?_through hspares hfirst hall]
  · rw [get?_undoTo hs hlive,
      hr.former?_made hspares hmakes (hon.wrapped hwrap) (hbefore hlive)]

/-! ## The oldest savepoint -/

/-- The table with another limit of savepoints. -/
def withLimit (h : Heap) (limit : Nat) : Heap :=
  { h with undo := { h.undo with maxSavepoints := limit } }

theorem Returnable.withLimit (hr : h.Returnable settings n) (limit : Nat) :
    (h.withLimit limit).Returnable settings n where
  toReady := hr.toReady.touches (.withLog h _)
  ordered := ⟨hr.ordered.start_le, hr.ordered.ascending⟩
  recalls := hr.recalls
  stands := hr.stands

theorem Returnable.dropOldest (hr : h.Returnable settings n)
    (hsp : h.undo.savepoints = first :: rest) (hne : first.id ≠ n) :
    h.dropOldest.Returnable settings n where
  toReady := hr.toReady.touches (.dropOldest h)
  ordered := undo_dropOldest h ▸ hr.ordered.dropFirst
  recalls hwrap r hmem := by
    have hon := hr.onward_touches (.dropOldest h)
    rw [undo_dropOldest] at hmem
    exact hon.known hwrap (hr.recalls (hon.wrapped hwrap) r (mem_records_dropFirst hmem))
  stands := by
    obtain ⟨s, hs⟩ := hr.stands
    rw [undo_dropOldest]
    exact ⟨_, (UndoLog.find?_dropFirst hsp hne hs).2⟩

/-- What an object comes back as is the same without the records that are dropped. -/
theorem Returnable.former?_dropOldest (hr : h.Returnable settings n)
    (hsp : h.undo.savepoints = first :: rest) (hne : first.id ≠ n)
    (hlive : h.dropOldest.contains t = true) : h.dropOldest.former? n t = h.former? n t := by
  obtain ⟨s, hs⟩ := hr.stands
  refine former?_congr ((Shrinks.dropOldest h).objects t hlive) ?_
  rw [undo_dropOldest, UndoLog.changesSince_dropFirst hr.ordered hsp hne hs]

/-- When there are enough savepoints the oldest is dropped before a new one is set. -/
theorem performed_beginSavepoint_of_full {limit : Nat} (hc : h.undo.Consistent limit)
    (hlimit : 1 ≤ limit) (hfull : limit ≤ h.undo.savepoints.length) :
    h.performed .beginSavepoint = h.dropOldest.performed .beginSavepoint := by
  have hroom : ¬h.dropOldest.undo.maxSavepoints ≤ h.dropOldest.undo.savepoints.length := by
    have hlength := hc.length_le
    rw [undo_dropOldest, hc.dropFirst.limit_eq, UndoLog.length_dropFirst]
    omega
  change h.beginSavepoint.2 = h.dropOldest.beginSavepoint.2
  rw [beginSavepoint, beginSavepoint, if_pos (hc.limit_eq.trans_le hfull), if_neg hroom]

/-! ## Every call -/

/-- What is true of the log in a phase. -/
def Phase.Recalls (h : Heap) : Phase → Prop
  | filling => h.undo.records = #[]
  | ready => h.Recalls

theorem recalls_of_records_eq (hnil : h.undo.records = #[]) : h.Recalls := fun _ r hmem =>
  absurd (hnil ▸ hmem) (Array.not_mem_empty r)

/-- When counts are worked out anew, names are left alone. -/
theorem Recalls.rebuildCounts (hrec : h.Recalls) (roots : List Value) :
    (h.rebuildCounts roots).Recalls := fun hwrap r hmem => by
  have hsh := Shrinks.retainValues { h with slots := h.slots.map Slot.uncounted }
    (h.edges ++ roots ++ h.undo.values)
  have hwrap₀ : h.wrapped = false := hsh.wrapped hwrap
  rw [(h.frame_rebuildCounts roots).2.2.2] at hmem
  rcases hrec hwrap₀ r hmem with hzero | hlive | ⟨-, s, hs, hlt⟩
  · exact .inl hzero
  · exact .inr (.inl (by rwa [contains_rebuildCounts]))
  · have hgeneration := (Keeps.rebuildCounts h roots).generation r.target.index.toNat
    rw [hs, Option.map_some] at hgeneration
    obtain ⟨s', hs', hg⟩ := Option.map_eq_some_iff.1 hgeneration
    exact .inr (.inr ⟨rfl, s', hs', hg ▸ hlt⟩)

theorem Phase.Recalls.after {phase phase' : Phase} {call : Call} (hf : phase.Fits settings h)
    (hrec : phase.Recalls h) (hcall : phase.after? call = some phase') :
    phase'.Recalls (h.after call) := by
  cases phase with
  | filling =>
    have hnil : h.undo.records = #[] := hrec
    have hsame (heq : (h.after call).undo = h.undo) : (h.after call).undo.records = #[] := by
      rw [heq, hnil]
    cases call with
    | define n object =>
      obtain rfl := Option.some.inj hcall
      exact hsame (withDefined_puts h n object).frame.1
    | insert id object persistent =>
      obtain rfl := Option.some.inj hcall
      exact hsame (withInserted_puts h id object persistent).frame.1
    | openHoles =>
      obtain rfl := Option.some.inj hcall
      exact recalls_of_records_eq (hsame h.frame_openHoles.1)
    | _ => cases hcall
  | ready =>
    have hr : h.Ready settings := hf
    have hrec : h.Recalls := hrec
    cases call with
    | operate op =>
      obtain rfl := Option.some.inj hcall
      exact hr.recalls_performed hrec op
    | rebuildCounts roots =>
      obtain rfl := Option.some.inj hcall
      exact hrec.rebuildCounts roots
    | clear =>
      obtain rfl := Option.some.inj hcall
      exact rfl
    | _ => cases hcall

/-- The induction is on the calls that are left. -/
theorem Phase.Recalls.afterAll {phase phase' : Phase} {calls : List Call}
    (hf : phase.Fits settings h) (hrec : phase.Recalls h)
    (hcalls : phase.afterAll? calls = some phase') : phase'.Recalls (h.afterAll calls) := by
  induction calls generalizing h phase with
  | nil => exact Option.some.inj hcalls ▸ hrec
  | cons call calls ih =>
    rw [Phase.afterAll?, List.foldlM_cons] at hcalls
    obtain ⟨phase₁, hcall, hcalls⟩ := Option.bind_eq_some_iff.1 hcalls
    exact ih (hf.after hcall) (hrec.after hf hcall) hcalls

/-- A vector is changed after each of two savepoints, which are as many as are kept. -/
def twiceMarked : List Call :=
  [.openHoles, .operate (.alloc ⟨0, .vector [.int 1]⟩), .operate .beginSavepoint,
    .operate (.setElement ⟨1, 1⟩ 0 (.int 2)), .operate .beginSavepoint,
    .operate (.setElement ⟨1, 1⟩ 0 (.int 3))]

/-- Another savepoint, another change, and another vector, which is changed too. -/
def markedAgain : List Operation :=
  [.beginSavepoint, .setElement ⟨1, 1⟩ 0 (.int 4), .alloc ⟨0, .vector [.int 5]⟩,
    .setElement ⟨2, 1⟩ 0 .nil]

end Heap

end StoryMachine
