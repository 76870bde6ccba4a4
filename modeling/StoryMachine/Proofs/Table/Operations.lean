import StoryMachine.Proofs.Table.Ledger

/-!
# Tables and their ledgers

Whatever is done with an object table, a lookup table in it has the entries that its ledger
says, as long as it is there. Only the operations on the table itself, and going back, change
its entries: a key is put in or taken out, and the record of that leads back to the former
entries. All other operations leave the table and its records alone.

* `Heap.Orderly`: the log of changes is in order, and is about objects that were there;
* `Heap.Follows`: a lookup table is as its ledger says;
* `Follows.performed`, `Follows.through`: one operation, and one after the other;
* `follows_alloc`: a new table.
-/

namespace StoryMachine.Heap

variable {h h' h'' : Heap} {t id : ObjectId} {op : Operation} {taken : List Value} {l : Ledger}
  {n : UInt32} {entries : List (Value × Value)}

/-! ## Order -/

/-- The table is in order, and so is its log, in which all records are about objects that have
    been there. -/
structure Orderly (h : Heap) : Prop where
  /-- The slots are in order. -/
  tidy : h.Tidy
  /-- The savepoints are in order. -/
  log : h.undo.Ordered
  /-- The objects that were changed have been there. -/
  targets : h.wrapped = false → ∀ r ∈ h.undo.records, h.Known true r.target

/-- Every operation keeps the order. -/
theorem Orderly.performed (ho : h.Orderly) (op : Operation) : (h.performed op).Orderly where
  tidy := ho.tidy.performed op
  log := (h.logStep_performed op).ordered ho.log
  targets hw r hr := by
    have hon := ho.tidy.onward_performed op
    refine hon.known hw ?_
    rcases (h.logStep_performed op).mem_records hr with hr | hlive
    · exact ho.targets (hon.wrapped hw) r hr
    · exact .inr (.inl hlive)

theorem Orderly.through (ho : h.Orderly) (ops : List Operation) : (h.through ops).Orderly :=
  List.foldlRecOn ops _ ho fun _ ho op _ => ho.performed op

/-- The log is about no name that is new, unless a generation has started again. -/
theorem Orderly.target_ne {object : Object} (ho : h.Orderly) (hwrap : h.wrapped = false)
    (ha : h.Allocated object t h') : ∀ r ∈ h.undo.records, r.target ≠ t :=
  fun r hr he => ha.fresh (he ▸ ho.targets hwrap r hr)

/-! ## Tables that are as their ledgers say -/

/-- A lookup table is as its ledger says. -/
def Follows (h : Heap) (t : ObjectId) (l : Ledger) : Prop :=
  ∃ o, h.get? t = some o ∧ l.Tells t o.body h.undo

theorem Follows.contains (hf : h.Follows t l) : h.contains t = true := by
  obtain ⟨o, ho, -⟩ := hf
  rw [contains_eq_isSome_get?, ho]
  rfl

theorem Follows.exists_entries (hf : h.Follows t l) :
    ∃ entries, h.entriesAt? t = some entries ∧ l.history.Lists entries := by
  obtain ⟨o, ho, htells⟩ := hf
  obtain ⟨entries, hbody, hlists⟩ := htells.entries
  exact ⟨entries, entriesAt?_eq_some.2 ⟨o, ho, hbody⟩, hlists⟩

/-- Only the table and the log matter. -/
theorem Follows.congr (hf : h.Follows t l) (hget : h'.get? t = h.get? t)
    (hundo : h'.undo = h.undo) : h'.Follows t l := by
  obtain ⟨o, ho, htells⟩ := hf
  exact ⟨o, hget.trans ho, hundo ▸ htells⟩

/-- Counts and other objects do not matter. -/
theorem Follows.shrinks (hf : h.Follows t l) (hsh : h.Shrinks h') (hundo : h'.undo = h.undo)
    (hlive : h'.contains t = true) : h'.Follows t l :=
  hf.congr (hsh.objects t hlive) hundo

/-! ### Changes of objects -/

theorem Follows.editOther (hf : h.Follows t l) (ho : h.Orderly) {given : List Value}
    (he : h.Edit id given taken h') (hne : id ≠ t) (hlive : h'.contains t = true) :
    h'.Follows t l := by
  obtain ⟨o, hget, htells⟩ := hf
  obtain ⟨change, hundo⟩ := he.undo_eq
  refine ⟨o, (he.get?_eq hne hlive).trans hget, ?_⟩
  rw [hundo]
  split
  · exact htells.pushOther ho.log hne
  · exact htells

/-- The table is edited, so that it has the entries of another history. -/
theorem Follows.editSelf (hf : h.Follows t l) (ho : h.Orderly) {given : List Value} {cs : History}
    (he : h.Edit t given taken h') (hentries : h'.entriesAt? t = some entries)
    (hlists : cs.Lists entries) : h'.Follows t { l with history := cs } := by
  obtain ⟨o, hget, htells⟩ := hf
  obtain ⟨o', hget', hbody'⟩ := entriesAt?_eq_some.1 hentries
  obtain @⟨oc, body, change, given, taken, extra, hoc, hfits, hreverts, -, -⟩ := he
  have hobject : oc.object = o :=
    Option.some.inj ((get?_eq_some_iff.2 ⟨oc, hoc, rfl⟩).symm.trans hget)
  -- The object has the body that it was given.
  have hbody : o'.body = body := by
    have hlive := contains_of_entriesAt? hentries
    rw [((Shrinks.retainValues _ extra).trans (.record _ t change)).objects t hlive, get?_setBody,
      if_pos rfl, hget, Option.map_some] at hget'
    rw [← Option.some.inj hget']
  have hundo : ((h.setBody t body).retainValues extra).undo = h.undo := by simp [setBody]
  refine ⟨o', hget', ?_⟩
  rw [undo_record_eq_ite, hundo, hbody]
  split
  · -- The record says how to get back to the former body.
    refine htells.push ho.log rfl hfits (by rw [hreverts, hobject]) ⟨entries, ?_, hlists⟩
    rw [← hbody, hbody']
  · next hrec =>
    -- Without savepoints there is nothing to get back to.
    refine htells.unrecorded ?_ ⟨entries, ?_, hlists⟩
    · simpa [UndoLog.isRecording] using hrec
    · rw [← hbody, hbody']

/-- A change of the body of another kind of object fails on a table. -/
theorem changeBody_bind_error {α β : Type} {f : Body → Except HeapError (α × Body)}
    {k : α → HeapM β} {e : HeapError} (hentries : h.entriesAt? t = some entries)
    (hf : f (.table entries) = .error e) : (changeBody t f >>= k) h = .error e h := by
  obtain ⟨o, ho, hbody⟩ := entriesAt?_eq_some.1 hentries
  have hfails : changeBody t f h = .error e h := by
    simp [changeBody, ho, hbody, hf, bind, EStateM.bind, get, getThe, MonadStateOf.get,
      EStateM.get, throw, throwThe, MonadExceptOf.throw, EStateM.throw]
  simp only [bind, EStateM.bind, hfails]

/-- An operation on objects of other kinds does nothing to a table. -/
theorem Follows.editsAt (hf : h.Follows t l) (ho : h.Orderly) {α : Type} {x : HeapM α}
    {f : α → List Value} (he : EditsAt x h id op.gives f)
    (hop : op.perform = do return f (← x)) (hfails : id = t → ∃ e, x h = .error e h)
    (hlive : (h.performed op).contains t = true) : (h.performed op).Follows t l := by
  have herror (e : HeapError) (herr : x h = .error e h) : (h.performed op).Follows t l :=
    (performed_of_error hop herr).symm ▸ hf
  rcases he with ⟨e, herr⟩ | ⟨a, h', hok, hedit⟩
  · exact herror e herr
  · by_cases hid : id = t
    · obtain ⟨e, herr⟩ := hfails hid
      exact herror e herr
    · rw [performed_of_ok hop hok] at hlive ⊢
      rcases hedit with hedit | ⟨rfl, -, -⟩
      · exact hf.editOther ho hedit hid hlive
      · exact hf

/-- An operation that changes the entries of a table. -/
theorem Follows.editsSelf (hf : h.Follows t l) (ho : h.Orderly) {α : Type} {x : HeapM α}
    {f : α → List Value} {a : α} {cs : History} (he : EditsAt x h t op.gives f)
    (hop : op.perform = do return f (← x)) (hok : x h = .ok a h')
    (hsh : (h.setBody t (.table entries)).Shrinks h') (hlists : cs.Lists entries)
    (hlive : (h.performed op).contains t = true) :
    (h.performed op).Follows t { l with history := cs } := by
  rw [performed_of_ok hop hok] at hlive ⊢
  have hentries : h'.entriesAt? t = some entries :=
    (hsh.entriesAt?_eq hlive).trans (entriesAt?_setBody_self hf.contains entries)
  rcases he with ⟨e, herr⟩ | ⟨_, _, hok', hedit⟩
  · cases hok.symm.trans herr
  · cases hok.symm.trans hok'
    rcases hedit with hedit | ⟨rfl, -, -⟩
    · exact hf.editSelf ho hedit hentries hlists
    · -- Nothing had to be changed, so that the table had these entries before.
      obtain ⟨o, hget, htells⟩ := hf
      obtain ⟨o', hget', hbody⟩ := entriesAt?_eq_some.1 hentries
      obtain rfl := Option.some.inj (hget.symm.trans hget')
      exact ⟨o, hget, htells.retell ⟨entries, hbody, hlists⟩⟩

/-! ### Changes of tables -/

/-- Every lookup table can be given a key. What the key had is released, so that objects may
    be gone, the table among them. -/
theorem putEntry_eq (hentries : h.entriesAt? t = some entries) (key v : Value) :
    ∃ h', putEntry t key v h = .ok () h' ∧
      (h.setBody t (.table (putIn entries key v))).Shrinks h' := by
  obtain ⟨o, ho, hbody⟩ := entriesAt?_eq_some.1 hentries
  cases hi : entries.findIdx? (·.1 == key) with
  | none =>
    refine ⟨_, changeBody_bind (a := (entries.length, none))
      (b := .table (putIn entries key v)) ho ?_,
      (Shrinks.retainValues _ [key]).trans (.record _ t _)⟩
    rw [hbody, putIn, hi]
    simp [asTable, hi, bind, Except.bind, pure, Except.pure]
  | some i =>
    obtain ⟨w, hw⟩ := exists_of_findIdx?_eq_some hi
    refine ⟨_, changeBody_bind (a := (i, some w)) (b := .table (putIn entries key v)) ho ?_,
      .record _ t _⟩
    rw [hbody, putIn, hi]
    simp [asTable, hi, hw, bind, Except.bind, pure, Except.pure]

theorem Follows.putEntry (hf : h.Follows t l) (ho : h.Orderly) (key v : Value)
    (hlive : (h.performed (.putEntry t key v)).contains t = true) :
    (h.performed (.putEntry t key v)).Follows t (l.change (.put key v)) := by
  obtain ⟨entries, hentries, hlists⟩ := hf.exists_entries
  obtain ⟨h', hok, hsh⟩ := putEntry_eq hentries key v
  exact hf.editsSelf ho (putEntry_edits h t key v) rfl hok hsh (hlists.put key v) hlive

theorem Follows.removeEntry (hf : h.Follows t l) (ho : h.Orderly) (key : Value)
    (hlive : (h.performed (.removeEntry t key)).contains t = true) :
    (h.performed (.removeEntry t key)).Follows t (l.change (.remove key)) := by
  obtain ⟨entries, hentries, hlists⟩ := hf.exists_entries
  obtain ⟨h', hok, hsh⟩ := removeEntry_eq hentries key
  exact hf.editsSelf ho (removeEntry_edits h t key) rfl hok hsh (hlists.remove key) hlive

/-- What changes tables fails on everything else. -/
theorem changeBody_bind_error_of_none {α β : Type} {f : Body → Except HeapError (α × Body)}
    {k : α → HeapM β} (hf : ∀ b r, f b = .ok r → ∃ entries, asTable id b = .ok entries)
    (hnone : h.entriesAt? id = none) : ∃ e, (changeBody id f >>= k) h = .error e h := by
  rcases changeBody_cases h id f with ⟨e, he⟩ | ⟨o, a, body, ho, hok, -⟩
  · exact ⟨e, bind_eq_of_error he⟩
  · obtain ⟨entries, hentries⟩ := hf _ _ hok
    have hsome : h.entriesAt? id = some entries :=
      entriesAt?_eq_some.2 ⟨_, get?_eq_some_iff.2 ⟨o, ho, rfl⟩, asTable_eq_ok hentries⟩
    rw [hnone] at hsome
    cases hsome

theorem performed_putEntry_of_none (hnone : h.entriesAt? id = none) (key v : Value) :
    h.performed (.putEntry id key v) = h := by
  obtain ⟨e, herr⟩ : ∃ e, Heap.putEntry id key v h = .error e h :=
    changeBody_bind_error_of_none (fun _ _ hok => (Except.bind_eq_ok.1 hok).imp fun _ h => h.1)
      hnone
  exact performed_of_error rfl herr

theorem performed_removeEntry_of_none (hnone : h.entriesAt? id = none) (key : Value) :
    h.performed (.removeEntry id key) = h := by
  obtain ⟨e, herr⟩ : ∃ e, Heap.removeEntry id key h = .error e h :=
    changeBody_bind_error_of_none (fun _ _ hok => (Except.bind_eq_ok.1 hok).imp fun _ h => h.1)
      hnone
  exact performed_of_error rfl herr

/-- A key that is not there is not taken out. -/
theorem performed_removeEntry_of_not_mem (hentries : h.entriesAt? id = some entries) {key : Value}
    (hkey : entries.lookup key = none) : h.performed (.removeEntry id key) = h := by
  obtain ⟨o, ho, hbody⟩ := entriesAt?_eq_some.1 hentries
  obtain ⟨oc, hoc, rfl⟩ := get?_eq_some_iff.1 ho
  have hi : entries.findIdx? (·.1 == key) = none := by
    rw [← Option.not_isSome_iff_eq_none, List.findIdx?_isSome, any_of_lookup_eq_none hkey]
    exact Bool.false_ne_true
  have hok : Heap.removeEntry id key h = .ok false (h.setBody id oc.object.body) := by
    refine changeBody_bind (a := none) ho ?_
    rw [hbody]
    simp [asTable, hi, bind, Except.bind, pure, Except.pure]
  rw [setBody_self hoc] at hok
  exact performed_of_ok rfl hok

/-! ### Going back -/

theorem Follows.beginSavepoint (hf : h.Follows t l) (ho : h.Orderly)
    (hlive : h.beginSavepoint.2.contains t = true) : h.beginSavepoint.2.Follows t l.save := by
  obtain ⟨o, hget, htells⟩ := hf
  refine ⟨o, ((Shrinks.beginSavepoint h).objects t hlive).trans hget, ?_⟩
  rw [undo_beginSavepoint]
  exact htells.save ho.log

theorem Follows.commit (hf : h.Follows t l) (hlive : h.commit.contains t = true) :
    h.commit.Follows t l.commit := by
  obtain ⟨o, hget, htells⟩ := hf
  refine ⟨o, ((Shrinks.commit h).objects t hlive).trans hget, ?_⟩
  rw [undo_commit]
  exact htells.commit

theorem Follows.undoTo (hf : h.Follows t l) (ho : h.Orderly) (n : UInt32)
    (hlive : (h.undoTo n).2.contains t = true) : (h.undoTo n).2.Follows t (l.undoTo n) := by
  obtain ⟨o, hget, htells⟩ := hf
  cases hs : h.undo.savepoints.find? (·.id == n) with
  | none =>
    have hself : (h.undoTo n).2 = h := by rw [Heap.undoTo, hs]
    rw [hself, htells.undoTo_eq_self hs]
    exact ⟨o, hget, htells⟩
  | some s =>
    obtain ⟨entries, hrewinds, htells'⟩ := htells.undoTo ho.log hs
    refine ⟨{ o with body := .table entries }, ?_, ?_⟩
    · -- The log is cut before the first record is reverted, which leaves the table alone.
      rw [undoTo_of_find? hs, UndoLog.toList_extract_right] at hlive ⊢
      have htruncated : (h.truncated n s.start).get? t = some o := hget
      rw [get?_foldl_applyUndo htruncated hlive]
      exact congrArg (fun body => some { o with body }) hrewinds.reverted_eq
    · rw [undo_undoTo hs]
      exact htells'

theorem Follows.undoLast (hf : h.Follows t l) (ho : h.Orderly)
    (hlive : h.undoLast.2.contains t = true) : h.undoLast.2.Follows t l.undoLast := by
  obtain ⟨o, hget, htells⟩ := hf
  rw [htells.undoLast_eq]
  rw [Heap.undoLast] at hlive ⊢
  cases hlast : h.undo.savepoints.getLast? with
  | none => exact ⟨o, hget, htells⟩
  | some s =>
    rw [hlast] at hlive
    exact Follows.undoTo ⟨o, hget, htells⟩ ho s.id hlive

/-! ## Every operation -/

/-- One operation, after which the table is still there. -/
theorem Follows.performed (hf : h.Follows t l) (ho : h.Orderly) (op : Operation)
    (hlive : (h.performed op).contains t = true) : (h.performed op).Follows t (l.step t op) := by
  obtain ⟨entries, hentries, -⟩ := hf.exists_entries
  cases op with
  | alloc object =>
    -- A new object has a place of its own.
    rcases ho.tidy.alloc object with ⟨id, h', hok, ha⟩ | herr
    · rw [performed_of_ok rfl hok]
      exact hf.congr (ha.get?_eq hf.contains) ha.frame.1
    · rw [performed_of_error rfl herr]
      exact hf
  | retain id => exact hf.shrinks (.retain h id) (undo_retainValue h (.obj id)) hlive
  | retainValue v => exact hf.shrinks (.retainValues h [v]) (undo_retainValue h v) hlive
  | release id => exact hf.shrinks (.release h id) (undo_releaseAll h _) hlive
  | releaseValue v => exact hf.shrinks (.releaseAll h _) (undo_releaseAll h _) hlive
  | releaseValues vs => exact hf.shrinks (.releaseValues h vs) (undo_releaseAll h _) hlive
  | collect roots =>
    exact hf.shrinks (ho.tidy.shrinks_collect roots) (undo_of_collect h roots) hlive
  | setProp id p v =>
    -- This fails on a table, and so do all changes of other kinds of objects.
    refine hf.editsAt ho (setProp_edits h id p v) rfl ?_ hlive
    exact fun hid => ⟨_, changeBody_bind_error (hid ▸ hentries) rfl⟩
  | removeProp id p =>
    refine hf.editsAt ho (removeProp_edits h id p) rfl ?_ hlive
    exact fun hid => ⟨_, changeBody_bind_error (hid ▸ hentries) rfl⟩
  | setElement id index v =>
    refine hf.editsAt ho (setElement_edits h id index v) rfl ?_ hlive
    exact fun hid => ⟨_, changeBody_bind_error (hid ▸ hentries) rfl⟩
  | insertElement id index v =>
    refine hf.editsAt ho (insertElement_edits h id index v) rfl ?_ hlive
    exact fun hid => ⟨_, changeBody_bind_error (hid ▸ hentries) rfl⟩
  | removeElement id index =>
    refine hf.editsAt ho (removeElement_edits h id index) rfl ?_ hlive
    exact fun hid => ⟨_, changeBody_bind_error (hid ▸ hentries) rfl⟩
  | putEntry id key v =>
    by_cases hid : id = t
    · subst hid
      rw [Ledger.step_putEntry, if_pos rfl]
      exact hf.putEntry ho key v hlive
    · rw [Ledger.step_putEntry, if_neg hid]
      exact hf.editsAt ho (putEntry_edits h id key v) rfl (fun heq => absurd heq hid) hlive
  | removeEntry id key =>
    by_cases hid : id = t
    · subst hid
      rw [Ledger.step_removeEntry, if_pos rfl]
      exact hf.removeEntry ho key hlive
    · rw [Ledger.step_removeEntry, if_neg hid]
      exact hf.editsAt ho (removeEntry_edits h id key) rfl (fun heq => absurd heq hid) hlive
  | beginSavepoint => exact hf.beginSavepoint ho hlive
  | undoTo n => exact hf.undoTo ho n hlive
  | undoLast => exact hf.undoLast ho hlive
  | commit => exact hf.commit hlive

/-- One operation after the other. The induction is on the operations, and the table is there
    all the time. -/
theorem Follows.through (hf : h.Follows t l) (ho : h.Orderly) {ops : List Operation}
    (hall : h.HasThrough t ops) : (h.through ops).Follows t (l.after t ops) := by
  induction ops generalizing h l with
  | nil => exact hf
  | cons op ops ih => exact ih (hf.performed ho op hall.1) (ho.performed op) hall.2

/-- A new table follows its ledger. -/
theorem follows_alloc {metaclass : MetaclassId} {cs : History}
    (ha : h.Allocated ⟨metaclass, .table entries⟩ t h') (hlists : cs.Lists entries)
    (hother : ∀ r ∈ h.undo.records, r.target ≠ t) : h'.Follows t (.start h.undo cs) := by
  refine ⟨_, ha.get?_new, ?_⟩
  rw [ha.frame.1]
  exact Ledger.tells_start hother hlists

end StoryMachine.Heap
