import StoryMachine.Proofs.Heap.Log
import StoryMachine.Proofs.Table.History

/-!
# The ledger of a table

A *ledger* says what has been done to a lookup table, and for each savepoint what had been
done when it was set. Going back to a savepoint goes back to that. The ledger of a table is
kept by what a caller does with the object table, of which it sees nothing but the operations.
The log of changes, on the other hand, has a record for each change, and no former entries. It
is as the ledger says if reverting what was recorded since a savepoint leads to the entries
that the table had then.

* `Ledger`, `Ledger.after`: a ledger, and what operations make of it;
* `Ledger.Tells`: a table and the log of changes are as the ledger says;
* `Tells.push`, `Tells.save`, `Tells.undoTo`: a change, a savepoint, and going back;
* `Ledger.tells_start`: a table that no record is about.
-/

namespace StoryMachine

/-! ## Ledgers -/

/-- What has been done to a table, and what had been done when the savepoints were set. -/
structure Ledger where
  /-- What has been done. -/
  history : History
  /-- The numbers of the savepoints, oldest first, with what had been done before. -/
  saved : List (UInt32 × History)
  /-- The most savepoints that are kept. -/
  limit : Nat
  /-- The number of the next savepoint. -/
  next : UInt32
deriving DecidableEq, Repr

namespace Ledger

/-- The ledger of a table that comes to be with a history. Going back does not go further than
    that. -/
def start (log : UndoLog) (birth : History) : Ledger where
  history := birth
  saved := log.savepoints.map fun s => (s.id, birth)
  limit := log.maxSavepoints
  next := log.nextId

/-- The table is changed. -/
def change (l : Ledger) (c : TableChange) : Ledger := { l with history := c :: l.history }

/-- A savepoint is set, and the oldest is dropped if there are too many. -/
def save (l : Ledger) : Ledger :=
  let kept := if l.limit ≤ l.saved.length then l.saved.tail else l.saved
  { l with saved := kept ++ [(l.next, l.history)], next := l.next + 1 }

/-- Back to a savepoint, if there is such a one. -/
def undoTo (l : Ledger) (n : UInt32) : Ledger :=
  match l.saved.find? (·.1 == n) with
  | none => l
  | some s => { l with history := s.2, saved := l.saved.takeWhile (·.1 != n) }

/-- Back to the latest savepoint, if there is one. -/
def undoLast (l : Ledger) : Ledger :=
  match l.saved.getLast? with
  | none => l
  | some s => l.undoTo s.1

/-- No going back any more. -/
def commit (l : Ledger) : Ledger := { l with saved := [] }

/-- The ledger of the table `t` after an operation. -/
def step (t : ObjectId) (l : Ledger) : Heap.Operation → Ledger
  | .putEntry id key v => if id = t then l.change (.put key v) else l
  | .removeEntry id key => if id = t then l.change (.remove key) else l
  | .beginSavepoint => l.save
  | .undoTo n => l.undoTo n
  | .undoLast => l.undoLast
  | .commit => l.commit
  | _ => l

theorem step_putEntry (t : ObjectId) (l : Ledger) (id : ObjectId) (key v : Value) :
    l.step t (.putEntry id key v) = if id = t then l.change (.put key v) else l := rfl

theorem step_removeEntry (t : ObjectId) (l : Ledger) (id : ObjectId) (key : Value) :
    l.step t (.removeEntry id key) = if id = t then l.change (.remove key) else l := rfl

/-- The ledger of the table `t` after some operations. -/
def after (t : ObjectId) (l : Ledger) (ops : List Heap.Operation) : Ledger := ops.foldl (step t) l

end Ledger

/-! ## Lists that go together -/

section Forall₂

variable {α β : Type} {R S : α → β → Prop} {l : List α} {u : List β} {p : α → Bool} {q : β → Bool}

theorem forall₂_imp_of_mem (h : List.Forall₂ R l u) (hRS : ∀ a ∈ l, ∀ b, R a b → S a b) :
    List.Forall₂ S l u := by
  induction h with
  | nil => exact .nil
  | cons hab _ ih =>
    exact .cons (hRS _ List.mem_cons_self _ hab) (ih fun a ha => hRS a (List.mem_cons_of_mem _ ha))

theorem forall₂_takeWhile (h : List.Forall₂ R l u) (hpq : ∀ a b, R a b → p a = q b) :
    List.Forall₂ R (l.takeWhile p) (u.takeWhile q) := by
  induction h with
  | nil => exact .nil
  | @cons a b l u hab _ ih =>
    rw [List.takeWhile_cons, List.takeWhile_cons, hpq a b hab]
    split
    · exact .cons hab ih
    · exact .nil

theorem forall₂_find?_eq_some (h : List.Forall₂ R l u) (hpq : ∀ a b, R a b → p a = q b) {a : α}
    (ha : l.find? p = some a) : ∃ b, u.find? q = some b ∧ R a b := by
  induction h with
  | nil => cases ha
  | @cons a' b l u hab _ ih =>
    rw [List.find?_cons] at ha ⊢
    rw [hpq a' b hab] at ha
    cases hq : q b with
    | true =>
      rw [hq] at ha
      obtain rfl := Option.some.inj ha
      exact ⟨b, rfl, hab⟩
    | false =>
      rw [hq] at ha
      exact ih ha

theorem forall₂_find?_eq_none (h : List.Forall₂ R l u) (hpq : ∀ a b, R a b → p a = q b)
    (hl : l.find? p = none) : u.find? q = none := by
  induction h with
  | nil => rfl
  | @cons a b l u hab _ ih =>
    rw [List.find?_eq_none, List.forall_mem_cons, ← List.find?_eq_none] at hl ⊢
    exact ⟨hpq a b hab ▸ hl.1, ih hl.2⟩

end Forall₂

/-! ## What a ledger says -/

theorem Body.Rewinds.append {b b₁ b₂ : Body} {cs ds : List Change} (hb : b.Rewinds cs b₁) :
    b.Rewinds (cs ++ ds) b₂ ↔ b₁.Rewinds ds b₂ := by
  induction cs generalizing b with
  | nil =>
    obtain rfl : b = b₁ := hb
    rfl
  | cons c cs ih => exact (and_iff_right hb.1).trans (ih hb.2)

namespace Ledger

open UndoRecord (changesTo)

variable {l : Ledger} {t : ObjectId} {b b' : Body} {log log' : UndoLog} {n : UInt32}
  {s : Savepoint} {r : UndoRecord} {cs : History} {entries : List (Value × Value)}

/-- The body and the log give the table as a history has it, once the changes since a place
    are reverted. -/
def HasBeen (t : ObjectId) (b : Body) (log : UndoLog) (start : Nat) (cs : History) : Prop :=
  ∃ entries, cs.Lists entries ∧ b.Rewinds (changesTo t (log.since start)) (.table entries)

/-- A savepoint is the one that has been saved: it has its number, and leads back to what the
    table was. -/
def Saves (t : ObjectId) (b : Body) (log : UndoLog) (s : Savepoint) (e : UInt32 × History) : Prop :=
  s.id = e.1 ∧ HasBeen t b log s.start e.2

/-- The table `t` with its body and the log of changes are as the ledger says. -/
structure Tells (l : Ledger) (t : ObjectId) (b : Body) (log : UndoLog) : Prop where
  /-- The entries are those of the history. -/
  entries : ∃ entries, b = .table entries ∧ l.history.Lists entries
  /-- The savepoints are those that stand. -/
  saved : List.Forall₂ (Saves t b log) log.savepoints l.saved
  /-- As many savepoints are kept. -/
  limit : log.maxSavepoints = l.limit
  /-- The next one has this number. -/
  next : log.nextId = l.next

/-- Another object is changed. -/
theorem Tells.pushOther (hl : l.Tells t b log) (hord : log.Ordered) (hr : r.target ≠ t) :
    l.Tells t b { log with records := log.records.push r } where
  entries := hl.entries
  saved := forall₂_imp_of_mem hl.saved fun s hs e ⟨hid, entries, hlists, hrewinds⟩ =>
    ⟨hid, entries, hlists, by
      rwa [UndoLog.since_push r (hord.start_le s hs), UndoRecord.changesTo_cons_of_ne hr]⟩
  limit := hl.limit
  next := hl.next

/-- The table is changed, and a record says how to take that back. -/
theorem Tells.push (hl : l.Tells t b log) (hord : log.Ordered) (hr : r.target = t)
    (hfits : r.change.Fits b') (hreverts : (r.change.revert b').1 = b)
    (hentries : ∃ entries, b' = .table entries ∧ cs.Lists entries) :
    Tells { l with history := cs } t b' { log with records := log.records.push r } where
  entries := hentries
  saved := forall₂_imp_of_mem hl.saved fun s hs e ⟨hid, entries, hlists, hrewinds⟩ =>
    ⟨hid, entries, hlists, by
      rw [UndoLog.since_push r (hord.start_le s hs), UndoRecord.changesTo_cons_self hr]
      exact ⟨hfits, hreverts.symm ▸ hrewinds⟩⟩
  limit := hl.limit
  next := hl.next

/-- The table is changed, and there is no going back. -/
theorem Tells.unrecorded (hl : l.Tells t b log) (hnone : log.savepoints = [])
    (hentries : ∃ entries, b' = .table entries ∧ cs.Lists entries) :
    Tells { l with history := cs } t b' log where
  entries := hentries
  saved := by
    have hsaved := hl.saved
    rw [hnone, List.forall₂_nil_left_iff] at hsaved ⊢
    exact hsaved
  limit := hl.limit
  next := hl.next

theorem Tells.length_saved (hl : l.Tells t b log) : log.savepoints.length = l.saved.length :=
  hl.saved.length_eq

/-- The oldest savepoint is dropped. -/
theorem Tells.dropFirst (hl : l.Tells t b log) (hord : log.Ordered) :
    Tells { l with saved := l.saved.tail } t b log.dropFirst := by
  have hsaved := hl.saved
  cases hsp : log.savepoints with
  | nil =>
    rw [hsp, List.forall₂_nil_left_iff] at hsaved
    rw [UndoLog.dropFirst_of_nil hsp, hsaved]
    refine ⟨hl.entries, ?_, hl.limit, hl.next⟩
    rw [hsp]
    exact .nil
  | cons s rest =>
    have hoverdue := hord.overdue_le hsp
    rw [hsp, List.forall₂_cons_left_iff] at hsaved
    obtain ⟨e, later, -, hlater, hcons⟩ := hsaved
    rw [UndoLog.dropFirst_of_cons hsp, hcons]
    refine ⟨hl.entries, ?_, hl.limit, hl.next⟩
    rw [List.forall₂_map_left_iff]
    refine forall₂_imp_of_mem hlater fun s' hs' e' ⟨hid, entries, hlists, hrewinds⟩ =>
      ⟨hid, entries, hlists, ?_⟩
    -- Its place moves with the records, so that the same records come after it.
    rwa [← UndoLog.since_dropped log.overdue (hoverdue s' hs')] at hrewinds

/-- A savepoint is set. -/
theorem Tells.mark (hl : l.Tells t b log) :
    Tells { l with saved := l.saved ++ [(l.next, l.history)], next := l.next + 1 } t b
      log.mark where
  entries := hl.entries
  saved := by
    obtain ⟨entries, hb, hlists⟩ := hl.entries
    -- Nothing has been recorded since, and so the table is what it has been then.
    have hsince : log.mark.since log.records.size = [] := log.since_size
    have hnew : Saves t b log.mark ⟨log.nextId, log.records.size⟩ (l.next, l.history) := by
      refine ⟨hl.next, entries, hlists, ?_⟩
      rw [hsince]
      exact hb
    exact List.rel_append hl.saved (.cons hnew .nil)
  limit := hl.limit
  next := congrArg (· + 1) hl.next

theorem Tells.commit (hl : l.Tells t b log) :
    l.commit.Tells t b { log with records := #[], savepoints := [] } :=
  ⟨hl.entries, .nil, hl.limit, hl.next⟩

theorem Saves.beq_eq {e : UInt32 × History} (hs : Saves t b log s e) (n : UInt32) :
    (s.id == n) = (e.1 == n) := by
  rw [hs.1]

/-- There is no such savepoint. -/
theorem Tells.undoTo_eq_self (hl : l.Tells t b log)
    (hnone : log.savepoints.find? (·.id == n) = none) : l.undoTo n = l := by
  rw [undoTo, forall₂_find?_eq_none hl.saved (fun _ _ hs => hs.beq_eq n) hnone]

/-- Reverting the changes since a savepoint leads to the table as it was, and the savepoints
    before it still stand. -/
theorem Tells.undoTo (hl : l.Tells t b log) (hord : log.Ordered)
    (hs : log.savepoints.find? (·.id == n) = some s) :
    ∃ entries, b.Rewinds (changesTo t (log.since s.start)) (.table entries) ∧
      (l.undoTo n).Tells t (.table entries) (log.cut n s.start) := by
  obtain ⟨e, he, hid, entries, hlists, hrewinds⟩ :=
    forall₂_find?_eq_some hl.saved (fun _ _ hs => hs.beq_eq n) hs
  obtain ⟨-, hstart⟩ := hord.takeWhile hs
  have hstop := hord.start_le s (List.mem_of_find?_eq_some hs)
  have hkept := forall₂_takeWhile (q := (·.1 != n)) hl.saved fun s e hs =>
    congrArg (!·) (hs.beq_eq n)
  refine ⟨entries, hrewinds, ?_⟩
  rw [Ledger.undoTo, he]
  refine ⟨⟨entries, rfl, hlists⟩, forall₂_imp_of_mem hkept fun s' hs' e' => ?_, hl.limit, hl.next⟩
  rintro ⟨hid', entries', hlists', hrewinds'⟩
  refine ⟨hid', entries', hlists', ?_⟩
  -- The latest records are reverted first, and what is left leads further back.
  rw [UndoLog.since_eq_append (hstart s' hs') hstop n, UndoRecord.changesTo_append] at hrewinds'
  exact hrewinds.append.1 hrewinds'

/-- The latest savepoint is that which was saved last. -/
theorem Tells.undoLast_eq (hl : l.Tells t b log) :
    l.undoLast = (log.savepoints.getLast?.map Savepoint.id).elim l l.undoTo := by
  have hids : log.savepoints.map Savepoint.id = l.saved.map Prod.fst := by
    have hsame : List.Forall₂ (· = ·) (log.savepoints.map Savepoint.id) (l.saved.map Prod.fst) := by
      rw [List.forall₂_map_left_iff, List.forall₂_map_right_iff]
      exact hl.saved.imp fun _ _ hs => hs.1
    rwa [List.forall₂_eq_eq_eq] at hsame
  rw [← List.getLast?_map, hids, List.getLast?_map, undoLast]
  cases l.saved.getLast? <;> rfl

/-- A savepoint is set, and the oldest is dropped if there are too many. -/
theorem Tells.save (hl : l.Tells t b log) (hord : log.Ordered) : l.save.Tells t b
    (if log.maxSavepoints ≤ log.savepoints.length then log.dropFirst else log).mark := by
  rw [Ledger.save, hl.limit, ← hl.length_saved]
  split
  · exact (hl.dropFirst hord).mark
  · exact hl.mark

/-- The entries are those of another history as well. -/
theorem Tells.retell (hl : l.Tells t b log)
    (hentries : ∃ entries, b = .table entries ∧ cs.Lists entries) :
    Tells { l with history := cs } t b log :=
  ⟨hentries, hl.saved, hl.limit, hl.next⟩

/-- A table that no record is about has always been as it is. -/
theorem tells_start (hnone : ∀ r ∈ log.records, r.target ≠ t) (hlists : cs.Lists entries) :
    (start log cs).Tells t (.table entries) log where
  entries := ⟨entries, rfl, hlists⟩
  saved := by
    rw [start, List.forall₂_map_right_iff, List.forall₂_same]
    refine fun s _ => ⟨rfl, entries, hlists, ?_⟩
    -- Savepoints that were set before the table came to be do not change it.
    have hsilent : (log.since s.start).filter (·.target = t) = [] := by
      refine List.filter_eq_nil_iff.2 fun r hr htarget => ?_
      rw [UndoLog.since, List.mem_reverse] at hr
      exact hnone r (Array.mem_toList_iff.1 (List.mem_of_mem_drop hr)) (of_decide_eq_true htarget)
    rw [changesTo, hsilent]
    rfl
  limit := rfl
  next := rfl

end Ledger

end StoryMachine
