import StoryMachine.Proofs.Heap.Edit

/-!
# Savepoints and counts

Records that leave the log give up what they own: when a change is reverted it
goes back into the object or is released, and when it is forgotten it is released.
Either way the counts stay those that are owned.

* `Counted.applyUndo`, `Counted.discardRecord`: one record;
* `Counted.beginSavepoint`, `Counted.undoTo`, `Counted.commit`: the operations.
-/

namespace StoryMachine

namespace UndoLog

/-- What the log owns is what its first records own and what the others do. -/
theorem values_take_drop (log : UndoLog) (n : Nat) :
    (log.values : Multiset Value) =
      ((log.records.toList.take n).flatMap UndoRecord.values : List Value) +
        ((log.records.toList.drop n).flatMap UndoRecord.values : List Value) := by
  rw [Multiset.coe_add, ← List.flatMap_append, List.take_append_drop]
  rfl

theorem toList_extract_left (log : UndoLog) (n : Nat) :
    (log.records.extract 0 n).toList = log.records.toList.take n := by
  simp

theorem toList_extract_right (log : UndoLog) (n : Nat) :
    (log.records.extract n log.records.size).toList = log.records.toList.drop n := by
  simp

/-- The savepoints before one that is looked for. -/
theorem savepoints_of_find? {log : UndoLog} {n : UInt32} {s : Savepoint}
    (hs : log.savepoints.find? (·.id == n) = some s) :
    ∃ later, log.savepoints = log.savepoints.takeWhile (·.id != n) ++ s :: later := by
  obtain ⟨hn, before, later, heq, hbefore⟩ := List.find?_eq_some_iff_append.1 hs
  refine ⟨later, ?_⟩
  have htake : log.savepoints.takeWhile (·.id != n) = before := by
    rw [heq, List.takeWhile_append_of_pos fun a ha => by simpa [bne] using hbefore a ha]
    simp [bne, hn]
  rw [htake, heq]

/-- The savepoints before one that is gone back to are in order, and so are their
    places. -/
theorem Ordered.takeWhile {log : UndoLog} (hord : log.Ordered) {n : UInt32}
    {s : Savepoint} (hs : log.savepoints.find? (·.id == n) = some s) :
    Ordered { log with savepoints := log.savepoints.takeWhile (·.id != n) } ∧
      ∀ t ∈ log.savepoints.takeWhile (·.id != n), t.start ≤ s.start := by
  obtain ⟨later, heq⟩ := savepoints_of_find? hs
  have hasc := hord.ascending
  rw [heq, List.pairwise_append] at hasc
  refine ⟨⟨fun t ht => hord.start_le t ?_, hasc.1⟩, fun t ht => hasc.2.2 t ht s List.mem_cons_self⟩
  rw [heq]
  exact List.mem_append_left _ ht

end UndoLog

namespace Heap

variable {stale : Bool} {h : Heap} {held : Multiset Value}

/-! ## One record -/

theorem Counted.discardRecord {r : UndoRecord} (hc : h.Counted stale (r.values + held)) :
    (h.discardRecord r).Counted stale held := by
  refine Counted.release (Counted.releaseValues ?_)
  rwa [UndoRecord.values, ← Multiset.cons_coe, Multiset.cons_add, ← Multiset.add_cons] at hc

theorem Counted.applyUndo {r : UndoRecord} (hc : h.Counted stale (r.values + held)) :
    (h.applyUndo r).Counted stale held := by
  rw [UndoRecord.values, ← Multiset.cons_coe, Multiset.cons_add] at hc
  unfold Heap.applyUndo
  split
  · next ho => exact (hc.forget ho).releaseValues
  · next o ho =>
    refine Counted.release (Counted.releaseValues ?_)
    rw [← Multiset.add_cons] at hc
    exact hc.setBody ho (r.change.edges_revert o.object.body)

theorem Counted.foldl_discardRecord {rs : List UndoRecord}
    (hc : h.Counted stale ((rs.flatMap UndoRecord.values : List Value) + held)) :
    (rs.foldl Heap.discardRecord h).Counted stale held := by
  induction rs generalizing h with
  | nil => simpa using hc
  | cons r rs ih =>
    rw [List.flatMap_cons, ← Multiset.coe_add, add_assoc] at hc
    exact ih hc.discardRecord

theorem Counted.foldl_applyUndo {rs : List UndoRecord}
    (hc : h.Counted stale ((rs.flatMap UndoRecord.values : List Value) + held)) :
    (rs.foldl Heap.applyUndo h).Counted stale held := by
  induction rs generalizing h with
  | nil => simpa using hc
  | cons r rs ih =>
    rw [List.flatMap_cons, ← Multiset.coe_add, add_assoc] at hc
    exact ih hc.applyUndo

theorem Shrinks.discardRecord (h : Heap) (r : UndoRecord) : h.Shrinks (h.discardRecord r) :=
  (Shrinks.releaseValues h _).trans (.release _ _)

theorem Onward.applyUndo (h : Heap) (r : UndoRecord) : h.Onward (h.applyUndo r) := by
  unfold Heap.applyUndo
  split
  · exact (Shrinks.releaseValues h _).toOnward
  · next o _ =>
    exact ((Onward.setBody h r.target (r.change.revert o.object.body).1).trans
      (Shrinks.releaseValues _ _).toOnward).trans (Shrinks.release _ _).toOnward

/-! ## The operations -/

theorem Counted.dropOldest (hc : h.Counted stale held) : h.dropOldest.Counted stale held := by
  unfold Heap.dropOldest
  split
  · exact hc
  · next first rest hsp =>
    have hasc := hc.ordered.ascending
    rw [hsp, List.pairwise_cons] at hasc
    have hle := hc.ordered.start_le
    rw [hsp] at hle
    simp only
    generalize (rest.head?.map Savepoint.start).getD h.undo.records.size = n
    rw [← Array.foldl_toList]
    refine Counted.foldl_discardRecord (hc.withLog ⟨?_, ?_⟩ ?_)
    · rintro s hs
      obtain ⟨t, ht, rfl⟩ := List.mem_map.1 hs
      have := hle t (List.mem_cons_of_mem _ ht)
      simp only [Array.size_extract]
      omega
    · exact hasc.2.map _ fun s t hst => Nat.sub_le_sub_right hst n
    · rw [h.undo.values_take_drop n, UndoLog.values, UndoLog.toList_extract_right,
        UndoLog.toList_extract_left]
      abel

theorem Shrinks.foldl_discardRecord (h : Heap) (rs : List UndoRecord) :
    h.Shrinks (rs.foldl Heap.discardRecord h) :=
  List.foldlRecOn rs _ (.refl h) fun _ hsh r _ => hsh.trans (.discardRecord _ r)

theorem Shrinks.dropOldest (h : Heap) : h.Shrinks h.dropOldest := by
  unfold Heap.dropOldest
  split
  · exact .refl h
  · simp only [← Array.foldl_toList]
    exact (Shrinks.withLog h _).trans (.foldl_discardRecord _ _)

theorem Shrinks.beginSavepoint (h : Heap) : h.Shrinks h.beginSavepoint.2 := by
  unfold Heap.beginSavepoint
  split
  · exact (Shrinks.dropOldest h).congr rfl rfl rfl
  · exact .withLog h _

theorem Counted.beginSavepoint (hc : h.Counted stale held) :
    h.beginSavepoint.2.Counted stale held := by
  unfold Heap.beginSavepoint
  generalize hg : (if h.undo.maxSavepoints ≤ h.undo.savepoints.length then h.dropOldest else h) = g
  have hc' : g.Counted stale held := by
    rw [← hg]
    split
    · exact hc.dropOldest
    · exact hc
  refine hc'.withLog ⟨?_, ?_⟩ rfl
  · intro s hs
    rcases List.mem_append.1 hs with hs | hs
    · exact hc'.ordered.start_le s hs
    · rw [List.mem_singleton.1 hs]
  · refine List.pairwise_append.2 ⟨hc'.ordered.ascending, List.pairwise_singleton _ _, ?_⟩
    intro s hs t ht
    rw [List.mem_singleton.1 ht]
    exact hc'.ordered.start_le s hs

/-- The records after a place leave the log, the latest first. -/
theorem Counted.truncate (hc : h.Counted stale held) {start : Nat}
    (hstart : ∀ s ∈ h.undo.savepoints, s.start ≤ start) :
    Counted stale { h with undo := { h.undo with records := h.undo.records.extract 0 start } }
      (((h.undo.records.extract start h.undo.records.size).toList.reverse.flatMap
        UndoRecord.values : List Value) + held) := by
  refine hc.withLog ⟨fun s hs => ?_, hc.ordered.ascending⟩ ?_
  · have := hstart s hs
    have := hc.ordered.start_le s hs
    simp only [Array.size_extract]
    omega
  · have hrev := ((h.undo.records.toList.drop start).reverse_perm.flatMap_right UndoRecord.values)
    rw [h.undo.values_take_drop start, UndoLog.values, UndoLog.toList_extract_left,
      UndoLog.toList_extract_right, Multiset.coe_eq_coe.2 hrev, add_assoc]

theorem Counted.unwindTo (hc : h.Counted stale held) {start : Nat}
    (hstart : ∀ s ∈ h.undo.savepoints, s.start ≤ start) :
    (h.unwindTo start).Counted stale held :=
  (hc.truncate hstart).foldl_applyUndo

theorem Counted.undoTo (hc : h.Counted stale held) (n : UInt32) :
    (h.undoTo n).2.Counted stale held := by
  unfold Heap.undoTo
  split
  · exact hc
  · next s hs =>
    obtain ⟨hkept, hstart⟩ := hc.ordered.takeWhile hs
    exact (hc.withLog hkept rfl).unwindTo hstart

theorem Onward.unwindTo (h : Heap) (start : Nat) : h.Onward (h.unwindTo start) :=
  List.foldlRecOn _ _ (Shrinks.withLog h _).toOnward fun _ hon r _ => hon.trans (.applyUndo _ r)

theorem Onward.undoTo (h : Heap) (n : UInt32) : h.Onward (h.undoTo n).2 := by
  unfold Heap.undoTo
  split
  · exact .refl h
  · exact (Shrinks.withLog h _).toOnward.trans (.unwindTo _ _)

theorem Onward.undoLast (h : Heap) : h.Onward h.undoLast.2 := by
  unfold Heap.undoLast
  split
  · exact .refl h
  · exact .undoTo h _

theorem Shrinks.commit (h : Heap) : h.Shrinks h.commit := by
  unfold Heap.commit
  simp only [← Array.foldl_toList]
  exact (Shrinks.withLog h _).trans (.foldl_discardRecord _ _)

theorem Counted.undoLast (hc : h.Counted stale held) : h.undoLast.2.Counted stale held := by
  unfold Heap.undoLast
  split
  · exact hc
  · exact hc.undoTo _

theorem Counted.commit (hc : h.Counted stale held) : h.commit.Counted stale held := by
  unfold Heap.commit
  rw [← Array.foldl_toList]
  refine Counted.foldl_discardRecord (hc.withLog ⟨?_, .nil⟩ ?_)
  · exact fun s hs => absurd hs List.not_mem_nil
  · exact zero_add _

end Heap

end StoryMachine
