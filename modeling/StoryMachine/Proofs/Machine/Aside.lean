import StoryMachine.Proofs.Machine.Exceptions
import StoryMachine.Proofs.Machine.Stays
import StoryMachine.Proofs.SavedState.Restore

/-!
# Parts that leave the stack alone

Operators, native methods, intrinsic functions and what is done about failures leave the
stack as it is, with a single exception: when another state is put in place, what the
stack holds of objects that are gone becomes nil. All of them leave objects of their
kinds.

* `arithmetic_stays`, `elementAt_stays`, `withElement_stays`: operators;
* `construct_stays`, `NativeMethod.call_stays`: objects that programs make, and methods;
* `Intrinsic.call_stays`: functions;
* `raise_stays`, `findHandler_stays`, `unhandled_stays`: exceptions.
-/

namespace StoryMachine

namespace Machine

variable {α : Type} {base : Machine} {I : Machine → Prop} [hI : Lasting base I]

include hI

/-! ## Values -/

theorem deref_stays (id : ObjectId) : Stays I (deref id) := .of_peeks fun _ => deref_peeks id

theorem stringValue_stays (v : Value) : Stays I (stringValue v) :=
  .of_peeks fun _ => stringValue_peeks v

theorem expectString_stays (v : Value) : Stays I (expectString v) :=
  .of_peeks fun _ => expectString_peeks v

theorem expectInt_stays (v : Value) : Stays I (expectInt v) :=
  .of_peeks fun _ => expectInt_peeks v

theorem expectObject_stays (v : Value) : Stays I (expectObject v) :=
  .of_peeks fun _ => expectObject_peeks v

theorem zeroBased_stays (position : Int32) (length : Nat) :
    Stays I (zeroBased position length) :=
  .of_peeks fun _ => zeroBased_peeks position length

theorem compareValues_stays (v w : Value) : Stays I (compareValues v w) :=
  .of_peeks fun _ => compareValues_peeks v w

theorem argument_stays (args : List Value) (i : Nat) : Stays I (argument args i) :=
  .of_peeks fun _ => argument_peeks args i

theorem listItems_stays (v : Value) : Stays I (listItems v) := by
  unfold listItems
  split
  · have hread (ofs : UInt32) : Stays I (onPools (·.readList ofs)) :=
      .of_peeks fun _ => Peeks.reads fun pools => pools.later_readList ofs
    exact (hread _).bind fun _ => .pure _
  · refine (deref_stays _).bind fun o => ?_
    split <;> exact .pure _
  · exact .pure _

theorem immutableItems_stays (v : Value) : Stays I (immutableItems v) := by
  unfold immutableItems
  split
  · refine (deref_stays _).bind fun o => ?_
    split <;> exact .pure _
  · exact listItems_stays v

theorem expectList_stays (v : Value) : Stays I (expectList v) := by
  refine (listItems_stays v).bind fun items? => ?_
  cases items? with
  | some items => exact .pure items
  | none => exact .fail _

theorem valuesEqualTo_stays (depth : Nat) (v w : Value) : Stays I (valuesEqualTo depth v w) := by
  induction depth generalizing v w with
  | zero => exact .throw _
  | succ depth ih =>
    unfold valuesEqualTo
    split
    · exact .pure _
    · exact .pure _
    · split
      · exact .pure _
      refine (stringValue_stays v).bind fun s => (stringValue_stays w).bind fun t => ?_
      split
      · exact .pure _
      refine (immutableItems_stays v).bind fun xs => (immutableItems_stays w).bind fun ys => ?_
      split
      · split
        · exact .allM (fun _ => ih _ _) _
        · exact .pure _
      · exact .pure _

theorem valuesEqual_stays (v w : Value) : Stays I (valuesEqual v w) :=
  .get fun _ _ => valuesEqualTo_stays _ v w

theorem displayWith_stays (nested : Option (Value → MachineM String))
    (hnested : ∀ f ∈ nested, ∀ w, Stays I (f w)) (v : Value) :
    Stays I (displayWith nested v) := by
  refine (stringValue_stays v).bind fun text? => ?_
  split
  · exact .pure _
  refine (listItems_stays v).bind fun items? => ?_
  split
  · exact .pure _
  split
  · exact .pure _
  · next f => exact (Stays.mapM (hnested f rfl) _).bind fun _ => .pure _

theorem displayTo_stays (depth : Nat) (v : Value) : Stays I (displayTo depth v) := by
  induction depth generalizing v with
  | zero => exact displayWith_stays none (by simp) v
  | succ depth ih => exact displayWith_stays _ (by simpa using ih) v

theorem displayText_stays (v : Value) : Stays I (displayText v) := displayTo_stays 16 v

/-! ## Operators -/

theorem addValues_stays (a b : Value) : Stays I (addValues a b) := by
  refine (stringValue_stays a).bind fun text? => ?_
  split
  · exact (displayText_stays b).bind fun _ => newString_stays _
  refine (listItems_stays a).bind fun items? => ?_
  cases items? with
  | none => exact .fail _
  | some items =>
    refine (listItems_stays b).bind fun more? => ?_
    cases more? with
    | some more => exact newList_stays _
    | none => exact newList_stays _

theorem subtractValues_stays (a b : Value) : Stays I (subtractValues a b) := by
  refine (listItems_stays a).bind fun items? => ?_
  cases items? with
  | none => exact .fail _
  | some items =>
    refine (listItems_stays b).bind fun more? => (Stays.filterM (fun v => ?_) items).bind fun _ =>
      newList_stays _
    exact (Stays.anyM (fun w => valuesEqual_stays v w) _).bind fun _ => .pure _

theorem arithmetic_stays (op : Arith) (a b : Value) : Stays I (arithmetic op a b) := by
  unfold arithmetic
  split
  · exact (Stays.liftExcept _).bind fun _ => .pure _
  · exact (Stays.liftExcept _).bind fun _ => .pure _
  · cases op with
    | add => exact addValues_stays a b
    | sub => exact subtractValues_stays a b
    | _ => exact .fail _

theorem compareBy_stays (rel : Relation) (a b : Value) : Stays I (compareBy rel a b) := by
  cases rel with
  | eq | ne => exact (valuesEqual_stays a b).bind fun _ => .pure _
  | _ => exact (compareValues_stays a b).bind fun _ => .pure _

omit hI in
theorem bodyOf?_stays (v : Value) : Stays I (bodyOf? v) := by
  unfold bodyOf?
  split
  · exact .get fun _ _ => .pure _
  · exact .pure none

theorem elementAt_stays (container position : Value) : Stays I (elementAt container position) := by
  refine (bodyOf?_stays container).bind fun body? => ?_
  split
  · exact owned_stays _
  refine (listItems_stays container).bind fun items? => ?_
  cases items? with
  | none => exact .fail _
  | some items =>
    exact (expectInt_stays position).bind fun n => (zeroBased_stays n _).bind fun i => owned_stays _

theorem copyWithElement_stays (container position v : Value) :
    Stays I (copyWithElement container position v) := by
  refine (listItems_stays container).bind fun items? => ?_
  cases items? with
  | none => exact .fail _
  | some items =>
    exact (expectInt_stays position).bind fun n => (zeroBased_stays n _).bind fun i => newList_stays _

theorem giveTo_stays {change : HeapM α} {id : ObjectId} {given values : List Value}
    {taken : α → List Value} (he : ∀ h : Heap, Heap.EditsAt change h id given taken) :
    Stays I (giveTo values change) :=
  (retainValues_stays values).bind fun _ => (Stays.edit he).onFault (releaseValues_stays values)

theorem withElement_stays (container position v : Value) :
    Stays I (withElement container position v) := by
  unfold withElement
  split
  · next id =>
    refine (deref_stays id).bind fun o => ?_
    split
    · refine (expectInt_stays position).bind fun n => (zeroBased_stays n _).bind fun i => ?_
      exact (giveTo_stays fun h => h.setElement_edits id i v).bind fun _ => owned_stays _
    · exact (giveTo_stays fun h => h.putEntry_edits id position v).bind fun _ => owned_stays _
    · exact copyWithElement_stays _ _ _
  · exact copyWithElement_stays _ _ _

/-! ## Native methods -/

theorem positionAfter_stays (skipped : Nat) (v : Value) (items : List Value) :
    Stays I (positionAfter skipped v items) := by
  induction items generalizing skipped with
  | nil => exact .pure _
  | cons item items ih =>
    refine (valuesEqual_stays item v).bind fun same => ?_
    split
    · exact .pure _
    · exact ih (skipped + 1)

theorem vectorItems_stays (v : Value) : Stays I (vectorItems v) := by
  refine (expectObject_stays v).bind fun id => (deref_stays id).bind fun o => ?_
  split
  · exact .pure _
  · exact .fail _

theorem tableEntries_stays (v : Value) : Stays I (tableEntries v) :=
  .of_peeks fun _ => tableEntries_peeks v

/-- A new object is of the given metaclass, so this has to be one for its kind. -/
theorem construct_stays {metaclass : MetaclassId} {kind : Kind}
    (hkind : (base.image.metaclasses.get? metaclass).map (·.kind) = some kind) (args : List Value) :
    Stays I (construct metaclass kind args) := by
  cases kind with
  | program =>
    refine (Stays.mapM (fun v => ?_) args).bind fun supers =>
      (retainValues_stays args).bind fun _ => allocate_stays fun _ => hkind
    exact (expectObject_stays v).bind fun id => (deref_stays id).bind fun _ => .pure _
  | list => exact (retainValues_stays args).bind fun _ => allocate_stays fun _ => hkind
  | vector => exact (retainValues_stays args).bind fun _ => allocate_stays fun _ => hkind
  | string => exact (Stays.mapM displayText_stays args).bind fun _ => allocate_stays fun _ => hkind
  | table =>
    unfold construct
    cases entriesOf? [] args with
    | none => exact .fail _
    | some entries => exact (retainValues_stays _).bind fun _ => allocate_stays fun _ => hkind

end Machine

open Machine

theorem NativeMethod.call_stays {base : Machine} {I : Machine → Prop} [Lasting base I]
    (method : NativeMethod) (this : Value) (args : List Value) : Stays I (method.call this args) := by
  cases method with
  | createInstance =>
    exact (expectObject_stays this).bind fun id => (deref_stays id).bind fun _ => newProgram_stays _
  | ofKind =>
    refine (expectObject_stays this).bind fun id => (argument_stays args 0).bind fun w => ?_
    split
    · exact .get fun _ _ => .pure _
    · exact .pure _
  | superclassList =>
    exact (expectObject_stays this).bind fun id => (deref_stays id).bind fun _ => newList_stays _
  | propDefined =>
    refine (expectObject_stays this).bind fun id => (argument_stays args 0).bind fun w => ?_
    split
    · exact (deref_stays id).bind fun _ => .get fun _ _ => .pure _
    · exact .fail _
  | listLength => exact (expectList_stays this).bind fun _ => .pure _
  | car =>
    refine (expectList_stays this).bind fun items => ?_
    cases items with
    | nil => exact .pure _
    | cons v items => exact owned_stays v
  | cdr =>
    refine (expectList_stays this).bind fun items => ?_
    cases items with
    | nil => exact .pure _
    | cons v items => exact newList_stays items
  | listIndexOf =>
    exact (expectList_stays this).bind fun _ => (argument_stays args 0).bind fun _ =>
      positionAfter_stays 0 _ _
  | listAppend =>
    exact (expectList_stays this).bind fun _ => (argument_stays args 0).bind fun _ => newList_stays _
  | sublist =>
    exact (expectList_stays this).bind fun items =>
      (Stays.of_peeks fun _ => excerpt_peeks items args).bind fun _ => newList_stays _
  | vectorLength => exact (vectorItems_stays this).bind fun _ => .pure _
  | vectorAppend =>
    refine (vectorItems_stays this).bind fun items => (expectObject_stays this).bind fun id =>
      (argument_stays args 0).bind fun w => (owned_stays w).bind fun v => ?_
    exact ((Stays.edit fun h => h.insertElement_edits id items.length v).onFault
      (releaseValue_stays v)).bind fun _ => owned_stays this
  | removeElementAt =>
    refine (vectorItems_stays this).bind fun items => (argument_stays args 0).bind fun w =>
      (expectInt_stays w).bind fun n => (zeroBased_stays n _).bind fun i =>
      (expectObject_stays this).bind fun id => ?_
    exact .edit fun h => h.removeElement_edits id i
  | toList => exact (vectorItems_stays this).bind fun _ => newList_stays _
  | vectorIndexOf =>
    exact (vectorItems_stays this).bind fun _ => (argument_stays args 0).bind fun _ =>
      positionAfter_stays 0 _ _
  | stringLength => exact (expectString_stays this).bind fun _ => .pure _
  | toUpper => exact (expectString_stays this).bind fun _ => newString_stays _
  | toLower => exact (expectString_stays this).bind fun _ => newString_stays _
  | substr =>
    exact (expectString_stays this).bind fun text =>
      (Stays.of_peeks fun _ => excerpt_peeks text.toList args).bind fun _ => newString_stays _
  | find =>
    refine (expectString_stays this).bind fun text => (argument_stays args 0).bind fun w =>
      (expectString_stays w).bind fun needle => ?_
    split <;> exact .pure _
  | isKeyPresent =>
    exact (argument_stays args 0).bind fun _ => (tableEntries_stays this).bind fun _ => .pure _
  | removeElement =>
    refine (argument_stays args 0).bind fun key => (tableEntries_stays this).bind fun entries => ?_
    split
    · exact .pure _
    · next v _ =>
      refine (owned_stays v).bind fun w => (expectObject_stays this).bind fun id => ?_
      exact (Stays.edit fun h => h.removeEntry_edits id key).bind fun _ => .pure w
  | keysToList => exact (tableEntries_stays this).bind fun _ => newList_stays _
  | valsToList => exact (tableEntries_stays this).bind fun _ => newList_stays _
  | entryCount => exact (tableEntries_stays this).bind fun _ => .pure _

namespace Machine

variable {α : Type} {base m : Machine} {I : Machine → Prop} [hI : Lasting base I]

include hI

/-! ## Intrinsic functions -/

theorem Lasting.collectGarbage (hm : I m) : I m.collectGarbage.2 :=
  next hm rfl rfl (.refl _) fun hc => hc.ages (.collect m.heap m.roots)

theorem Lasting.saveState (hm : I m) : I m.saveState.2 := collectGarbage hm

theorem onFiles_stays (f : Host → Except String α × Host) : Stays I (onFiles f) := fun m hm => by
  unfold onFiles Ends
  rcases hr : f m.host with ⟨_ | a, host⟩
  · simp only
    exact Lasting.congr hm rfl rfl rfl rfl
  · simp only
    exact Lasting.congr hm rfl rfl rfl rfl

/-- A file that is stored may be the image that pages are read from. -/
theorem Lasting.storeFile (hm : I m) (name : String) (bs : Bytes) : I (m.storeFile name bs) := by
  unfold Machine.storeFile
  dsimp only
  split
  · exact next hm rfl rfl (m.pools.code.samePins_withSource _) fun hc => hc
  · exact congr hm rfl rfl rfl rfl

theorem saveToFile_stays (name : String) : Stays I (saveToFile name) :=
  (onFiles_stays _).bind fun _ => (Stays.modifyGet fun _ hm => Lasting.saveState hm).bind fun bs =>
    .modify fun _ hm => Lasting.storeFile hm name bs

theorem findNext_stays (after? class? : Option ObjectId) : Stays I (get >>= fun m =>
    match m.heap.find? (m.heap.isInstance class?) after? with
    | some id => owned (.obj id)
    | none => pure .nil) := by
  refine .get fun m _ => ?_
  split
  · exact owned_stays _
  · exact .pure _

theorem scanObjects_stays (after? : Option ObjectId) (class? : Option Value) :
    Stays I (scanObjects after? class?) := by
  cases class? with
  | none => exact findNext_stays after? none
  | some v => exact (expectObject_stays v).bind fun id => findNext_stays after? (some id)

theorem operandsOf_stays (args : List Value) : Stays I (operandsOf args) := by
  unfold operandsOf
  split
  · exact (listItems_stays _).bind fun _ => .pure _
  · exact .pure _

theorem extreme_stays (order : Ordering) (args : List Value) :
    Stays I (extreme order args) := by
  refine (operandsOf_stays args).bind fun vs => ?_
  cases vs with
  | nil => exact .fail _
  | cons v vs =>
    exact (Stays.of_peeks fun _ => extremeOf_peeks order v vs).bind fun _ => owned_stays _

theorem argumentOfCall_stays (n : Int32) : Stays I (argumentOfCall n) := by
  refine .get fun m _ => ?_
  dsimp only
  split
  · exact owned_stays _
  · exact .fail _

end Machine

/-- All functions but the one that puts another state in place leave the stack alone. -/
theorem Intrinsic.call_stays {base : Machine} {I : Machine → Prop} [Lasting base I] (f : Intrinsic)
    (hrestore : f = .restoreState → ∀ name, Stays I (restoreFromFile name)) (args : List Value) :
    Stays I (f.call args) := by
  cases f with
  | runGC => exact (Stays.modifyGet fun _ hm => Lasting.collectGarbage hm).bind fun _ => .pure _
  | vmVersion => exact .pure _
  | vmId => exact newString_stays _
  | debugTrace =>
    refine (argument_stays args 0).bind fun v => ?_
    dsimp only
    split
    · exact (Stays.mapM displayText_stays args).bind fun _ => .pure _
    · exact .pure _
  | stackDepth => exact .get fun _ _ => .pure _
  | globalSymbol =>
    exact (argument_stays args 0).bind fun v => (expectString_stays v).bind fun _ =>
      .get fun _ _ => owned_stays _
  | dataType => exact (argument_stays args 0).bind fun _ => .pure _
  | getArg =>
    exact (argument_stays args 0).bind fun v => (expectInt_stays v).bind fun n =>
      argumentOfCall_stays n
  | firstObj => exact scanObjects_stays none args.head?
  | nextObj =>
    exact (argument_stays args 0).bind fun v => (expectObject_stays v).bind fun id =>
      scanObjects_stays (some id) args[1]?
  | toString =>
    exact (argument_stays args 0).bind fun v => (displayText_stays v).bind fun _ =>
      newString_stays _
  | toInteger =>
    exact (argument_stays args 0).bind fun v => (Stays.of_peeks fun _ => integerOf_peeks v).bind
      fun _ => .pure _
  | getTime => exact .get fun _ _ => .pure _
  | savepoint => exact (Stays.withHeap Heap.Ages.beginSavepoint).bind fun _ => .pure _
  | undo => exact (Stays.withHeap Heap.Ages.undoLast).bind fun _ => .pure _
  | sum =>
    exact (operandsOf_stays args).bind fun vs => .of_peeks fun _ => sumOf_peeks (.int 0) vs rfl
  | max => exact extreme_stays .gt args
  | min => exact extreme_stays .lt args
  | toFloat =>
    exact (argument_stays args 0).bind fun v => (Stays.of_peeks fun _ => realOf_peeks v).bind
      fun _ => .pure _
  | restartGame | quit =>
    refine (Stays.modify fun m hm => ?_).bind fun _ => .pure _
    exact Lasting.congr hm rfl rfl rfl rfl
  | saveState =>
    exact (argument_stays args 0).bind fun v => (expectString_stays v).bind fun name =>
      (saveToFile_stays name).bind fun _ => .pure _
  | restoreState =>
    exact (argument_stays args 0).bind fun v => (expectString_stays v).bind fun name =>
      (hrestore rfl name).bind fun _ => .pure _
  | say =>
    refine (Stays.mapM displayText_stays args).bind fun _ =>
      (Stays.modify fun m hm => ?_).bind fun _ => .pure _
    exact Lasting.congr hm rfl rfl rfl rfl

namespace Machine

/-! ## Exceptions -/

variable {base : Machine} {I : Machine → Prop} [hI : Lasting base I]

include hI

theorem setNumber_stays (id : ObjectId) (p? : Option PropId) (n : Nat) : Stays I (do
    if let some p := p? then
      onHeap (Heap.setProp id p (.ofCount n))) := by
  cases p? with
  | none => exact .pure ()
  | some p => exact .edit fun h => Heap.setProp_edits h id p _

theorem describe_stays (id : ObjectId) (f : Failure) : Stays I (describe id f) := by
  refine .get fun m _ => ?_
  dsimp only
  split
  · next p _ =>
    refine .get fun _ _ => (newString_stays _).bind fun text => Stays.bind ?_ fun _ => setNumber_stays id _ _
    exact .edit fun h => Heap.setProp_edits h id p text
  · exact setNumber_stays id _ _

theorem raise_stays (f : Failure) : Stays I (raise f) := by
  refine .get fun m _ => (newProgram_stays _).bind fun v => ?_
  split
  · next id =>
    refine ((describe_stays id f).onFault (releaseValue_stays _)).bind fun _ =>
      (Stays.modify fun m hm => ?_).bind fun _ => .pure _
    exact Lasting.congr hm rfl rfl rfl rfl
  · exact .pure _

theorem findHandler_stays (exception : Value) : Stays I (findHandler exception) :=
  .of_peeks fun _ => findHandler_peeks exception

theorem thrownText_stays (exception : Value) : Stays I (thrownText exception) := by
  refine .get fun m _ => ?_
  dsimp only
  split
  · exact .pure _
  · refine (displayText_stays _).attempt.bind fun r => ?_
    cases r with
    | ok text => exact .pure _
    | error e => exact .pure _

theorem unhandled_stays (exception : Value) : Stays I (unhandled exception) := by
  refine .get fun m _ => ?_
  dsimp only
  split
  · exact .pure _
  · exact (thrownText_stays exception).bind fun _ => .pure _

end Machine

/-! ## Another state -/

theorem Heap.insertRestored_grows (h : Heap) (id : ObjectId) (object : Object) (persistent : Bool) :
    Ends (insertRestored id object persistent h) (fun _ h' => h.slots.size ≤ h'.slots.size)
      fun _ _ => True := by
  cases hid : h.checkRestorable id with
  | error e =>
    refine Ends.get ?_
    rw [hid]
    exact Ends.bind_error rfl trivial
  | ok _ =>
    cases hempty : h.isOccupied id.index.toNat with
    | true =>
      refine Ends.get ?_
      rw [hid]
      refine Ends.bind_ok rfl (Ends.bind_ok rfl ?_)
      rw [isOccupied_grow, hempty]
      exact Ends.bind_error rfl trivial
    | false =>
      rw [insertRestored_eq_ok object persistent hid hempty]
      change h.slots.size ≤ (h.place _ _).slots.size
      rw [size_place]
      exact le_max_left _ _

/-- A table that has been filled keeps to the limits that it had. -/
theorem Heap.Classed.restored {h₀ h : Heap} {os : List SavedObject} {roots : List Value}
    (hc : h₀.Classed base) (hf : h₀.clear.Filled os h) (hgrows : h₀.clear.slots.size ≤ h.slots.size)
    (htyped : base.image.metaclasses.entries.size ≤ 65536 → ∀ id o,
      (h.openHoles.rebuildCounts roots).get? id = some o → o.Typed base.image.metaclasses) :
    (h.openHoles.rebuildCounts roots).Classed base := by
  have hsettings : h.settings = h₀.settings := hf.frame.1
  have hsize : h.slots.size ≤ max 1 h.settings.maxObjects.toNat := by
    have hfilled : h.slots.size ≤ max h₀.clear.slots.size h₀.settings.maxObjects.toNat := hf.size_le
    rw [size_clear] at hfilled
    rw [hsettings]
    exact hfilled.trans (max_le hc.size_le (le_max_right _ _))
  have hop : h.Opened h.openHoles :=
    opened_openHoles (hsize.trans_lt (max_lt (by decide) h.settings.maxObjects.toNat_lt))
  have hsettings' : (h.openHoles.rebuildCounts roots).settings = h.settings :=
    (frame_rebuildCounts _ _).1.trans hop.frame.2.1
  have hsize' : (h.openHoles.rebuildCounts roots).slots.size = h.slots.size := by
    rw [size_rebuildCounts, hop.size]
  refine ⟨hsettings'.trans (hsettings.trans hc.limits), ?_, ?_, htyped⟩
  · rw [hsize']
    rw [size_clear] at hgrows
    exact hc.size_ge.trans hgrows
  · rw [hsize', hsettings']
    exact hsize

namespace Machine

variable {base m m' : Machine} {S : Stack → Prop}

theorem Kept.collectGarbage (hm : m.Kept base S) : m.collectGarbage.2.Kept base S :=
  Lasting.collectGarbage (I := (·.Kept base S)) hm

theorem forM_insertSaved_grows (os : List SavedObject) (m : Machine) :
    Ends (os.forM insertSaved m) (fun _ m' => m.heap.slots.size ≤ m'.heap.slots.size)
      fun _ _ => True := by
  induction os generalizing m with
  | nil => exact le_rfl
  | cons o os ih =>
    have hinsert : Ends (insertSaved o m) (fun _ m' => m.heap.slots.size ≤ m'.heap.slots.size)
        fun _ _ => True := by
      have hends := m.heap.insertRestored_grows o.id o.object o.persistent
      unfold insertSaved
      dsimp only
      cases hr : Heap.insertRestored o.id o.object o.persistent m.heap with
      | ok _ h =>
        rw [hr] at hends
        exact hends
      | error e h => trivial
    exact hinsert.bind (fun _ m₁ hm₁ => (ih m₁).mono (fun _ _ hm₂ => hm₁.trans hm₂)
      fun _ _ he => he) fun _ _ he => he

/-- Another state changes the objects, the variables and the values on the stack. -/
theorem exists_adopt_of_restore {bs : Bytes} (hok : Machine.restore bs m = .ok () m') :
    ∃ (s : SavedState) (h : Heap), m.heap.clear.Filled s.objects h ∧
      m.heap.clear.slots.size ≤ h.slots.size ∧ m' = { m with heap := h }.adopt s.globals := by
  obtain ⟨s, hparse⟩ := exists_restore_eq_ok_iff.1 ⟨m', hok⟩
  have hs := SavedState.admissible_of_parse hparse
  obtain ⟨h, hinserted, hfilled⟩ := forM_insertSaved (m := { m with heap := m.heap.clear })
    m.heap.filled_clear (fun o ho => hs.placeable.restorable o ho)
    (by simpa using hs.placeable.distinct)
  have hgrows := forM_insertSaved_grows s.objects { m with heap := m.heap.clear }
  rw [hinserted] at hgrows
  have hreplace : replaceState s m = .ok () ({ m with heap := h }.adopt s.globals) := by
    change EStateM.bind (s.objects.forM insertSaved) _ { m with heap := m.heap.clear } = _
    rw [EStateM.bind, hinserted]
    rfl
  rw [restore_of_parse_ok hparse, hreplace] at hok
  exact ⟨s, h, by simpa using hfilled, hgrows, (EStateM.Result.ok.inj hok).2.symm⟩

/-- What was read from the bytes of a state goes by the metaclasses of the image. -/
theorem Kept.restore {bs : Bytes} (hm : m.Kept base S) (hscrub : ∀ s h, S s → S (s.scrub h))
    (hok : Machine.restore bs m = .ok () m') : m'.Kept base S := by
  have hwell : m'.WellFormed := by
    obtain ⟨s, hparse⟩ := exists_restore_eq_ok_iff.1 ⟨m', hok⟩
    obtain ⟨m'', hok', -, -, -, hwell⟩ := restore_eq_ok hm.classed.size_lt hparse
    rw [hok'] at hok
    exact (EStateM.Result.ok.inj hok).2 ▸ hwell
  obtain ⟨s, h, hfilled, hgrows, rfl⟩ := exists_adopt_of_restore hok
  exact ⟨hm.same, hscrub _ _ hm.stack, hm.classed.restored hfilled hgrows fun _ => hm.same ▸ hwell.typed⟩

/-- If a state cannot be put in place, then nothing has changed. -/
theorem eq_of_restore_error {bs : Bytes} {f : Failure} (herr : Machine.restore bs m = .error f m') :
    m' = m := by
  cases hparse : SavedState.parse m.heap m.image.metaclasses m.image.identity bs with
  | error _ =>
    rw [restore_of_parse_error hparse] at herr
    exact (EStateM.Result.error.inj herr).2.symm
  | ok s =>
    obtain ⟨m'', hok⟩ := exists_restore_eq_ok_iff.2 ⟨s, hparse⟩
    rw [hok] at herr
    cases herr

/-- A state from a file is put in place, or else nothing changes. -/
theorem restoreFromFile_stays_of {I : Machine → Prop} [Lasting base I]
    (hrestore : ∀ {bs : Bytes} {m m' : Machine}, I m → Machine.restore bs m = .ok () m' → I m')
    (name : String) : Stays I (restoreFromFile name) := by
  refine (onFiles_stays _).bind fun bs m hm => ?_
  unfold Ends
  cases hr : Machine.restore bs m with
  | ok _ m' => exact hrestore hm hr
  | error f m' => exact eq_of_restore_error hr ▸ hm

theorem restoreFromFile_stays (hscrub : ∀ s h, S s → S (s.scrub h)) (name : String) :
    Stays (·.Kept base S) (restoreFromFile name) :=
  restoreFromFile_stays_of (fun hm hok => hm.restore hscrub hok) name

end Machine

end StoryMachine
