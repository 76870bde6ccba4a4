import StoryMachine.Proofs.Heap.Garbage
import StoryMachine.Proofs.Heap.Twins

/-!
# What is asked of tables with a past

Everything that can be asked of an object table is answered alike by a new table and one
with a past, and leaves them twins.

* `Twins.releaseAll`, `Twins.applyUndo`, `Twins.collect`: counts, going back, collections;
* `setProp_alike`, `putEntry_alike`, …: changes to objects;
* `Heap.Request`, `Heap.answers`: a list of requests, and the answers to them;
* `Twins.answers_eq`: the answers of twins.
-/

namespace StoryMachine

namespace Heap

namespace Twins

variable {ages : Nat → Nat} {h h' : Heap} {id : ObjectId} {i : Nat}

/-- One thing after the other. -/
theorem foldl {α β : Type} {g : Heap → α → Heap} {g' : Heap → β → Heap} {r : α → β}
    (ht : h.Twins ages h') (hg : ∀ k k' a, k.Twins ages k' → (g k a).Twins ages (g' k' (r a)))
    (as : List α) : (as.foldl g h).Twins ages ((as.map r).foldl g' h') := by
  induction as generalizing h h' with
  | nil => exact ht
  | cons a as ih => exact ih (hg h h' a ht)

/-! ## Counts -/

theorem retain (ht : h.Twins ages h') (id : ObjectId) :
    (h.retain id).Twins ages (h'.retain (id.later ages)) := by
  have hcounted : (h.modifyOccupant id Occupant.retain).Twins ages
      (h'.modifyOccupant (id.later ages) Occupant.retain) := ht.modifyOccupant id fun _ => rfl
  exact hcounted.congr ⟨rfl, rfl, rfl⟩ ⟨rfl, rfl, rfl⟩ hcounted.live hcounted.undo

theorem retainValue (ht : h.Twins ages h') (v : Value) :
    (h.retainValue v).Twins ages (h'.retainValue (v.rename (.later ages))) := by
  cases v with
  | obj id => exact ht.retain id
  | _ => exact ht

/-- Counts are released in the same order, and the same objects are freed. -/
theorem releaseAll (ht : h.Twins ages h') (work : List ObjectId) :
    (h.releaseAll work).Twins ages (h'.releaseAll (work.map (.later ages))) := by
  -- The other table has the same objects, so the induction is on the work of the new one.
  induction h, work using Heap.releaseAll.induct generalizing h' with
  | case1 h =>
    rw [Heap.releaseAll, List.map_nil, Heap.releaseAll]
    exact ht
  | case2 h id work ho ih =>
    have ho' := ht.occupant? id
    rw [ho, Option.map_none] at ho'
    rw [Heap.releaseAll, ho, List.map_cons, Heap.releaseAll, ho']
    exact ih ht
  | case3 h id work o ho hlast ih =>
    have ho' := ht.occupant? id
    rw [ho, Option.map_some] at ho'
    rw [Heap.releaseAll, ho, List.map_cons, Heap.releaseAll, ho']
    have hlast' : (o.rename (.later ages)).refs ≤ 1 ∧ (o.rename (.later ages)).persistent = false := hlast
    simp only [hlast, hlast', and_self, if_true]
    have hnext := ih (ht.vacate id.index.toNat)
    rw [List.map_append, List.map_reverse, ← Value.objects_rename, ← Body.edges_rename] at hnext
    exact hnext
  | case4 h id work o ho hlast ih =>
    have ho' := ht.occupant? id
    rw [ho, Option.map_some] at ho'
    rw [Heap.releaseAll, ho, List.map_cons, Heap.releaseAll, ho']
    have hlast' : ¬((o.rename (.later ages)).refs ≤ 1 ∧ (o.rename (.later ages)).persistent = false) := hlast
    simp only [hlast, hlast', if_false]
    exact ih (ht.modifyOccupant id fun _ => rfl)

theorem release (ht : h.Twins ages h') (id : ObjectId) :
    (h.release id).Twins ages (h'.release (id.later ages)) := ht.releaseAll [id]

theorem releaseValues (ht : h.Twins ages h') (vs : List Value) :
    (h.releaseValues vs).Twins ages (h'.releaseValues (vs.map (Value.rename (.later ages)))) := by
  rw [Heap.releaseValues, Heap.releaseValues, Value.objects_rename]
  exact ht.releaseAll _

/-! ## The log -/

theorem withUndo (ht : h.Twins ages h') {log log' : UndoLog} (hlog : log' = log.rename (.later ages)) :
    Twins ages { h with undo := log } { h' with undo := log' } :=
  ht.congr ⟨rfl, rfl, rfl⟩ ⟨rfl, rfl, rfl⟩ ht.live hlog

/-- What is recorded has the names of each table in it. -/
theorem record (ht : h.Twins ages h') (id : ObjectId) (c : Change) :
    (h.record id c).Twins ages (h'.record (id.later ages) (c.rename (.later ages))) := by
  have hrecording : h'.undo.isRecording = h.undo.isRecording := by
    rw [ht.undo]
    rfl
  unfold Heap.record
  rw [hrecording]
  split
  · have hretained := ht.retain id
    refine hretained.withUndo ?_
    rw [hretained.undo, UndoLog.rename, UndoLog.rename, Array.map_push]
    rfl
  · rw [Change.values_rename]
    exact ht.releaseValues _

theorem discardRecord (ht : h.Twins ages h') (r : UndoRecord) :
    (h.discardRecord r).Twins ages (h'.discardRecord (r.rename (.later ages))) := by
  unfold Heap.discardRecord
  rw [UndoRecord.rename, Change.values_rename]
  exact (ht.releaseValues _).release _

theorem applyUndo (ht : h.Twins ages h') (r : UndoRecord) :
    (h.applyUndo r).Twins ages (h'.applyUndo (r.rename (.later ages))) := by
  unfold Heap.applyUndo
  have ho' := ht.occupant? r.target
  rw [show (r.rename (.later ages)).target = r.target.later ages from rfl, ho']
  cases h.occupant? r.target with
  | none =>
    simp only [Option.map_none, UndoRecord.rename, Change.values_rename]
    exact ht.releaseValues _
  | some o =>
    simp only [Option.map_some, UndoRecord.rename, Occupant.rename, Object.rename,
      Change.revert_rename (ObjectId.later_injective ages)]
    refine Twins.release (Twins.releaseValues ?_ _) _
    exact ht.modifyOccupant _ fun _ => rfl

theorem discardRecords (ht : h.Twins ages h') (rs : Array UndoRecord) :
    (rs.foldl Heap.discardRecord h).Twins ages
      ((rs.map (UndoRecord.rename (.later ages))).foldl Heap.discardRecord h') := by
  rw [← Array.foldl_toList, ← Array.foldl_toList, Array.toList_map]
  exact ht.foldl (fun _ _ r ht => ht.discardRecord r) _

theorem dropOldest (ht : h.Twins ages h') : h.dropOldest.Twins ages h'.dropOldest := by
  unfold Heap.dropOldest
  rw [ht.undo, UndoLog.rename]
  cases h.undo.savepoints with
  | nil => exact ht
  | cons s rest =>
    dsimp only
    rw [Array.size_map, ← Array.map_extract, ← Array.map_extract]
    exact discardRecords (ht.withUndo rfl) _

theorem beginSavepoint (ht : h.Twins ages h') :
    h'.beginSavepoint.1 = h.beginSavepoint.1 ∧ h.beginSavepoint.2.Twins ages h'.beginSavepoint.2 := by
  have hdropped : (if h.undo.maxSavepoints ≤ h.undo.savepoints.length then h.dropOldest else h).Twins ages
      (if h'.undo.maxSavepoints ≤ h'.undo.savepoints.length then h'.dropOldest else h') := by
    rw [ht.undo, UndoLog.rename]
    split
    · exact ht.dropOldest
    · exact ht
  have hundo := hdropped.undo
  unfold Heap.beginSavepoint
  refine ⟨(congrArg UndoLog.nextId hundo).trans rfl, hdropped.withUndo ?_⟩
  rw [hundo, UndoLog.rename, UndoLog.rename]
  dsimp only
  rw [Array.size_map]

theorem unwindTo (ht : h.Twins ages h') (start : Nat) :
    (h.unwindTo start).Twins ages (h'.unwindTo start) := by
  unfold Heap.unwindTo
  rw [ht.undo, UndoLog.rename]
  dsimp only
  rw [Array.size_map, ← Array.map_extract, ← Array.map_extract, Array.toList_map, ← List.map_reverse]
  exact foldl (ht.withUndo rfl) (fun _ _ r ht => ht.applyUndo r) _

theorem undoTo (ht : h.Twins ages h') (n : UInt32) :
    (h'.undoTo n).1 = (h.undoTo n).1 ∧ (h.undoTo n).2.Twins ages (h'.undoTo n).2 := by
  unfold Heap.undoTo
  rw [ht.undo, UndoLog.rename]
  cases h.undo.savepoints.find? (·.id == n) with
  | none => exact ⟨rfl, ht⟩
  | some s => exact ⟨rfl, (ht.withUndo rfl).unwindTo s.start⟩

theorem undoLast (ht : h.Twins ages h') :
    h'.undoLast.1 = h.undoLast.1 ∧ h.undoLast.2.Twins ages h'.undoLast.2 := by
  have hsavepoints : h'.undo.savepoints = h.undo.savepoints := by rw [ht.undo, UndoLog.rename]
  unfold Heap.undoLast
  rw [hsavepoints]
  cases h.undo.savepoints.getLast? with
  | none => exact ⟨rfl, ht⟩
  | some s => exact ht.undoTo s.id

theorem commit (ht : h.Twins ages h') : h.commit.Twins ages h'.commit := by
  unfold Heap.commit
  rw [ht.undo, UndoLog.rename]
  exact discardRecords (ht.withUndo (by simp [UndoLog.rename])) _

end Twins

/-! ## Changes to objects -/

/-- Two changes to bodies that are the same up to names, where `g` says what has another name in
    what they tell about the change. -/
def Renames {α : Type} (ages : Nat → Nat) (g : α → α) (f f' : Body → Except HeapError (α × Body)) :
    Prop :=
  ∀ b, f' (b.rename (.later ages)) = match f b with
    | .ok (a, body) => .ok (g a, body.rename (.later ages))
    | .error e => .error (e.rename (.later ages))

section Changes

variable {α : Type} {ages : Nat → Nat} {g : α → α} {f f' : Body → Except HeapError (α × Body)}

theorem changeBody_alike (id : ObjectId) (hf : Renames ages g f f') :
    Alike ages g (changeBody id f) (changeBody (id.later ages) f') := fun h h' ht => by
  have ho' := ht.occupant? id
  unfold changeBody
  simp only [bind, EStateM.bind, get, getThe, MonadStateOf.get, EStateM.get, get?, ho']
  cases h.occupant? id with
  | none => exact ⟨rfl, ht⟩
  | some o =>
    have hbody := hf o.object.body
    simp only [Option.map_some, Occupant.rename, Object.rename, hbody]
    cases f o.object.body with
    | error e => exact ⟨rfl, ht⟩
    | ok r => exact ⟨rfl, ht.modifyOccupant id fun _ => rfl⟩

theorem record_alike (target : ObjectId) (c : Change) : Alike ages id (modify (·.record target c))
    (modify (·.record (target.later ages) (c.rename (.later ages)))) :=
  .modify fun _ _ ht => ht.record target c

theorem setProp_alike (target : ObjectId) (p : PropId) (v : Value) :
    Alike ages id (setProp target p v) (setProp (target.later ages) p (v.rename (.later ages))) := by
  refine (changeBody_alike (g := Option.map (Value.rename (.later ages))) target fun b => ?_).bind
    fun prior => record_alike target (.prop p prior)
  cases b with
  | program supers props =>
    simp only [Body.rename, asProgram, bind, Except.bind, pure, Except.pure, PropTable.get?_rename,
      PropTable.set_rename]
  | _ => rfl

theorem removeProp_alike (target : ObjectId) (p : PropId) :
    Alike ages id (removeProp target p) (removeProp (target.later ages) p) := by
  refine (changeBody_alike (g := Option.map (Value.rename (.later ages))) target fun b => ?_).bind
    fun prior => ?_
  · cases b with
    | program supers props =>
      simp only [Body.rename, asProgram, bind, Except.bind, pure, Except.pure, PropTable.get?_rename,
        PropTable.erase_rename]
    | _ => rfl
  · cases prior with
    | none => exact .pure rfl
    | some v => exact (record_alike target (.prop p (some v))).bind fun _ => .pure rfl

theorem setElement_alike (target : ObjectId) (index : Nat) (v : Value) :
    Alike ages id (setElement target index v)
      (setElement (target.later ages) index (v.rename (.later ages))) := by
  refine (changeBody_alike (g := Value.rename (.later ages)) target fun b => ?_).bind
    fun prior => record_alike target (.element index prior)
  cases b with
  | vector items =>
    simp only [Body.rename, asVector, bind, Except.bind, List.getElem?_map, List.length_map]
    cases items[index]? with
    | none => rfl
    | some prior => simp only [Option.map_some, List.map_set]
  | _ => rfl

theorem insertElement_alike (target : ObjectId) (index : Nat) (v : Value) :
    Alike ages id (insertElement target index v)
      (insertElement (target.later ages) index (v.rename (.later ages))) := by
  refine (changeBody_alike (g := id) target fun b => ?_).bind
    fun _ => record_alike target (.inserted index)
  cases b with
  | vector items =>
    simp only [Body.rename, asVector, bind, Except.bind, List.length_map]
    by_cases hlt : items.length < index
    · simp only [hlt, if_true]
      rfl
    · simp only [hlt, if_false, List.map_insertIdx, id]
  | _ => rfl

theorem removeElement_alike (target : ObjectId) (index : Nat) :
    Alike ages (Value.rename (.later ages)) (removeElement target index)
      (removeElement (target.later ages) index) := by
  refine (changeBody_alike (g := Value.rename (.later ages)) target fun b => ?_).bind fun removed => ?_
  · cases b with
    | vector items =>
      simp only [Body.rename, asVector, bind, Except.bind, List.getElem?_map, List.length_map]
      cases items[index]? with
      | none => rfl
      | some removed => simp only [Option.map_some, List.eraseIdx_map]
    | _ => rfl
  · exact (Alike.modify fun _ _ ht => ht.retainValue removed).bind fun _ =>
      (record_alike target (.removed index removed)).bind fun _ => .pure rfl

theorem findIdx?_rename (entries : List (Value × Value)) (key : Value) :
    (entries.map (Prod.map (Value.rename (.later ages)) (Value.rename (.later ages)))).findIdx?
        (·.1 == key.rename (.later ages)) = entries.findIdx? (·.1 == key) := by
  rw [List.findIdx?_map]
  congr 1
  funext e
  exact Value.beq_rename (ObjectId.later_injective ages) e.1 key

theorem putEntry_alike (target : ObjectId) (key v : Value) :
    Alike ages id (putEntry target key v)
      (putEntry (target.later ages) (key.rename (.later ages)) (v.rename (.later ages))) := by
  refine (changeBody_alike (g := Prod.map id (Option.map (Value.rename (.later ages)))) target
    fun b => ?_).bind fun r => ?_
  · cases b with
    | table entries =>
      simp only [Body.rename, asTable, bind, Except.bind, findIdx?_rename, List.length_map, List.getElem?_map]
      cases entries.findIdx? (·.1 == key) with
      | none =>
        simp only [pure, Except.pure, List.map_append]
        rfl
      | some i =>
        simp only [pure, Except.pure, List.map_set]
        cases entries[i]? <;> rfl
    | _ => rfl
  · obtain ⟨index, prior⟩ := r
    cases prior with
    | none =>
      exact (Alike.modify fun _ _ ht => ht.retainValue key).bind fun _ =>
        record_alike target (.entry index key none)
    | some prior => exact record_alike target (.entry index key (some prior))

theorem removeEntry_alike (target : ObjectId) (key : Value) :
    Alike ages id (removeEntry target key) (removeEntry (target.later ages) (key.rename (.later ages))) := by
  refine (changeBody_alike (g := Option.map (Prod.map id (Prod.map (Value.rename (.later ages))
    (Value.rename (.later ages))))) target fun b => ?_).bind fun removed => ?_
  · cases b with
    | table entries =>
      simp only [Body.rename, asTable, bind, Except.bind, findIdx?_rename, List.getElem?_map]
      cases entries.findIdx? (·.1 == key) with
      | none => rfl
      | some i =>
        simp only [pure, Except.pure, List.eraseIdx_map]
        cases entries[i]? <;> rfl
    | _ => rfl
  · cases removed with
    | none => exact .pure rfl
    | some r => exact (record_alike target (.entryRemoved r.1 r.2.1 r.2.2)).bind fun _ => .pure rfl

end Changes

/-! ## Collections -/

namespace Twins

variable {ages : Nat → Nat} {h h' : Heap} {i : Nat}

theorem slot_eq_empty (ht : h.Twins ages h') (hi : h.slots.size ≤ i) : (h'.slot i).occupant? = none := by
  rw [ht.occupants, slot_of_size_le hi]
  rfl

theorem idAt? (ht : h.Twins ages h') (i : Nat) : h'.idAt? i = (h.idAt? i).map (.later ages) := by
  rw [idAt?_eq_slot, idAt?_eq_slot, ht.occupants, Option.map_map, Option.map_map]
  cases ho : (h.slot i).occupant? with
  | none => rfl
  | some o =>
    have hoccupied : (h.slot i).occupant? ≠ none := by simp [ho]
    have hindex : (UInt32.ofNat i).toNat = i := UInt32.toNat_ofNat_of_lt
      (((lt_size_of_slot hoccupied).trans_le ht.size_le).trans ht.size_lt)
    simp only [Option.map_some, Function.comp, ObjectId.later, hindex, (ht.taken i hoccupied).1]

/-- Slots to spare come last. -/
theorem range_size (ht : h.Twins ages h') : List.range h'.slots.size =
    List.range h.slots.size ++ List.range' h.slots.size (h'.slots.size - h.slots.size) := by
  have happend := @List.range'_append_1 0 h.slots.size (h'.slots.size - h.slots.size)
  rw [Nat.zero_add, Nat.add_sub_cancel' ht.size_le] at happend
  rw [List.range_eq_range', List.range_eq_range', happend]

theorem ids (ht : h.Twins ages h') : h'.ids = h.ids.map (.later ages) := by
  have hspare : (List.range' h.slots.size (h'.slots.size - h.slots.size)).filterMap h'.idAt? = [] := by
    refine List.filterMap_eq_nil_iff.2 fun i hi => ?_
    rw [idAt?_eq_slot, ht.slot_eq_empty (List.mem_range'_1.1 hi).1]
    rfl
  rw [Heap.ids, Heap.ids, ht.range_size, List.filterMap_append, hspare, List.append_nil, List.map_filterMap]
  exact congrArg (List.filterMap · _) (funext ht.idAt?)

theorem persistentIds (ht : h.Twins ages h') : h'.persistentIds = h.persistentIds.map (.later ages) := by
  have hpersistent (id : ObjectId) : h'.isPersistent (id.later ages) = h.isPersistent id := by
    rw [Heap.isPersistent, Heap.isPersistent, ht.occupant?, Option.any_map]
    rfl
  rw [Heap.persistentIds, Heap.persistentIds, ht.ids, List.filter_map]
  exact congrArg (fun p => (h.ids.filter p).map _) (funext hpersistent)

/-- The same slots are marked, and none to spare. -/
theorem mark (ht : h.Twins ages h') {marks : Array Bool} (hm : marks.size = h.slots.size) (k : Nat)
    (work : List ObjectId) : h'.mark (marks ++ Array.replicate k false) (work.map (.later ages)) =
      h.mark marks work ++ Array.replicate k false := by
  have hslot (id : ObjectId) {o : Occupant} (marks : Array Bool) (hm : marks.size = h.slots.size)
      (ho : h.occupant? id = some o) : id.index.toNat < marks.size := by
    obtain ⟨s, hs, -, -⟩ := occupant?_eq_some_iff.1 ho
    exact hm ▸ (Array.getElem?_eq_some_iff.1 hs).1
  -- Both do the same work, so the induction is on that of the new table.
  induction marks, work using Heap.mark.induct h with
  | case1 marks => rw [Heap.mark, List.map_nil, Heap.mark]
  | case2 marks id work o ho hmark ih =>
    have hlt := hslot id marks hm ho
    have ho' := ht.occupant? id
    rw [ho, Option.map_some] at ho'
    have hmark' : (marks ++ Array.replicate k false)[(id.later ages).index.toNat]? = some false := by
      rw [← hmark]
      exact Array.getElem?_append_left hlt
    have hnext := ih (by rw [Array.size_setIfInBounds, hm])
    rw [List.map_cons, Heap.mark, Heap.mark]
    split
    · next o₁ ho₁ _ =>
      obtain rfl := Option.some.inj (ho'.symm.trans ho₁)
      split
      · next o₂ ho₂ _ =>
        obtain rfl := Option.some.inj (ho.symm.trans ho₂)
        have hset : (marks ++ Array.replicate k false).setIfInBounds id.index.toNat true =
            marks.setIfInBounds id.index.toNat true ++ Array.replicate k false :=
          Array.setIfInBounds_append_left hlt
        rw [List.map_append, ← Value.objects_rename, ← Body.edges_rename, ← hset] at hnext
        exact hnext
      · next hno => exact absurd hmark (hno o ho)
    · next hno => exact absurd hmark' (hno _ ho')
  | case3 marks id work hnot ih =>
    rw [List.map_cons, Heap.mark, Heap.mark]
    split
    · next o₁ ho₁ hmark₁ =>
      -- The name means an object that is not marked, in the other table too.
      rw [ht.occupant?] at ho₁
      obtain ⟨o, ho, rfl⟩ := Option.map_eq_some_iff.1 ho₁
      refine absurd ?_ (hnot o ho)
      rw [← hmark₁]
      exact (Array.getElem?_append_left (hslot id marks hm ho)).symm
    · exact ih hm

theorem reached (ht : h.Twins ages h') (roots : List Value) :
    h'.reached (roots.map (Value.rename (.later ages))) =
      h.reached roots ++ Array.replicate (h'.slots.size - h.slots.size) false := by
  have hstart : Array.replicate h'.slots.size false =
      Array.replicate h.slots.size false ++ Array.replicate (h'.slots.size - h.slots.size) false := by
    rw [Array.replicate_append_replicate, Nat.add_sub_cancel' ht.size_le]
  rw [Heap.reached, Heap.reached, hstart, ← ht.mark Array.size_replicate, List.map_append, ht.undo,
    UndoLog.values_rename, ht.persistentIds, ← List.map_append, Value.objects_rename]

theorem unreached (ht : h.Twins ages h') (roots : List Value) :
    h'.unreached (roots.map (Value.rename (.later ages))) = h.unreached roots := by
  have hspare : (List.range' h.slots.size (h'.slots.size - h.slots.size)).filter (fun i =>
      h'.isOccupied i && !((h'.reached (roots.map (Value.rename (.later ages))))[i]?.getD false)) = [] := by
    refine List.filter_eq_nil_iff.2 fun i hi => ?_
    rw [isOccupied_eq_slot, ht.slot_eq_empty (List.mem_range'_1.1 hi).1]
    exact Bool.false_ne_true
  rw [Heap.unreached, Heap.unreached, ht.range_size, List.filter_append, hspare, List.append_nil]
  refine List.filter_congr fun i hi => ?_
  have hlt : i < (h.reached roots).size := (size_reached h roots).symm ▸ List.mem_range.1 hi
  rw [ht.isOccupied, ht.reached, Array.getElem?_append_left hlt]

theorem edgesAt (ht : h.Twins ages h') (i : Nat) :
    h'.edgesAt i = (h.edgesAt i).map (Value.rename (.later ages)) := by
  rw [edgesAt_eq_slot, edgesAt_eq_slot, Slot.edges, Slot.edges, ht.occupants]
  cases (h.slot i).occupant? with
  | none => rfl
  | some o => exact Body.edges_rename o.object.body

theorem releaseMany (ht : h.Twins ages h') (ids : List ObjectId) :
    (ids.foldl (fun h id => h.modifyOccupant id Occupant.release) h).Twins ages
      ((ids.map (.later ages)).foldl (fun h id => h.modifyOccupant id Occupant.release) h') :=
  ht.foldl (fun k k' id (ht : k.Twins ages k') =>
    show (k.modifyOccupant id Occupant.release).Twins ages
      (k'.modifyOccupant (id.later ages) Occupant.release) from
        ht.modifyOccupant id fun _ => rfl) ids

/-- A collection frees the same objects. -/
theorem collect (ht : h.Twins ages h') (roots : List Value) :
    (h'.collect (roots.map (Value.rename (.later ages)))).1 = (h.collect roots).1 ∧
      (h.collect roots).2.Twins ages (h'.collect (roots.map (Value.rename (.later ages)))).2 := by
  have hswept := ht.foldl (r := id) (fun _ _ i ht => ht.vacate i) (h.unreached roots)
  have hedges : (h.unreached roots).flatMap h'.edgesAt =
      ((h.unreached roots).flatMap h.edgesAt).map (Value.rename (.later ages)) := by
    rw [List.map_flatMap]
    exact congrArg (List.flatMap · _) (funext ht.edgesAt)
  have hsettled := hswept.releaseMany (Value.objects ((h.unreached roots).flatMap h.edgesAt))
  rw [List.map_id, ← Value.objects_rename, ← hedges] at hsettled
  unfold Heap.collect
  rw [ht.unreached, ht.reached]
  refine ⟨?_, hsettled.congr ⟨rfl, rfl, rfl⟩ ⟨rfl, rfl, rfl⟩ hsettled.live hsettled.undo⟩
  have hmarked (k : Nat) : (h.reached roots ++ Array.replicate k false).countP id =
      (h.reached roots).countP id := by
    rw [Array.countP_append, Array.countP_replicate]
    rfl
  dsimp only
  rw [hmarked, hsettled.live]

/-! ## The objects one after the other -/

theorem findFrom? (ht : h.Twins ages h') (i : Nat) :
    h'.findFrom? (fun _ => true) i = (h.findFrom? (fun _ => true) i).map (.later ages) := by
  have hfilter (id? : Option ObjectId) : id?.filter (fun _ => true) = id? := by cases id? <;> rfl
  have hfound {k : Heap} {i : Nat} {id : ObjectId} (hi : k.idAt? i = some id) :
      k.findFrom? (fun _ => true) i = some id := by
    have hlt : i < k.slots.size := lt_size_of_slot fun hnone => by
      rw [idAt?_eq_slot, hnone] at hi
      cases hi
    rw [Heap.findFrom?, if_pos hlt, hi]
    rfl
  have hskip {k : Heap} {i : Nat} (hi : k.idAt? i = none) :
      k.findFrom? (fun _ => true) i = k.findFrom? (fun _ => true) (i + 1) := by
    by_cases hlt : i < k.slots.size
    · rw [Heap.findFrom?, if_pos hlt, hi, Option.filter_none]
    · rw [Heap.findFrom?, if_neg hlt, Heap.findFrom?, if_neg fun h => hlt (Nat.lt_of_succ_lt h)]
  induction i using Heap.findFrom?.induct h' (fun _ => true) with
  | case1 i hlt id' hid' =>
    rw [hfilter] at hid'
    rw [hfound hid']
    rw [ht.idAt?] at hid'
    obtain ⟨id, hid, rfl⟩ := Option.map_eq_some_iff.1 hid'
    rw [hfound hid, Option.map_some]
  | case2 i hlt hnone ih =>
    rw [hfilter] at hnone
    rw [hskip hnone, ih]
    rw [ht.idAt?, Option.map_eq_none_iff] at hnone
    rw [hskip hnone]
  | case3 i hlt =>
    rw [Heap.findFrom?, if_neg hlt, Heap.findFrom?, if_neg fun hlt' => hlt (hlt'.trans_le ht.size_le)]
    rfl

theorem nextId? (ht : h.Twins ages h') (after? : Option ObjectId) :
    h'.nextId? (after?.map (.later ages)) = (h.nextId? after?).map (.later ages) := by
  have hslot : slotAfter (after?.map (.later ages)) = slotAfter after? := by cases after? <;> rfl
  rw [Heap.nextId?, Heap.nextId?, Heap.find?, Heap.find?, hslot]
  exact ht.findFrom? _

end Twins

end Heap

end StoryMachine
