import StoryMachine.Proofs.Machine.Operators

/-!
# Native methods

Native methods and `new` borrow their receiver and arguments, and give their result
with a count of its own.

* `construct_yields`: new objects;
* `NativeMethod.call_yields`: methods.
-/

namespace StoryMachine

namespace Machine

variable {α : Type} {terms : Terms} {m : Machine} {rest : Multiset Value} {v w : Value} {args : List Value}

/-! ## Arguments -/

theorem argument_peeks (args : List Value) (i : Nat) :
    m.Peeks (argument args i) fun v => v ∈ args := by
  unfold argument
  split
  · next v hv => exact .pure (List.mem_of_getElem? hv)
  · exact .fail _

theorem rest_peeks (xs : List α) (args : List Value) (skipped : Nat) :
    m.Peeks (match args[1]? with
      | none => pure (xs.drop skipped)
      | some limit => do return (xs.drop skipped).take (← expectInt limit).toInt.toNat)
      fun ys => ∀ y ∈ ys, y ∈ xs := by
  split
  · exact .pure fun y hy => List.mem_of_mem_drop hy
  · exact (expectInt_peeks _).bind fun limit _ =>
      .pure fun y hy => List.mem_of_mem_drop (List.mem_of_mem_take hy)

theorem excerpt_peeks (xs : List α) (args : List Value) :
    m.Peeks (excerpt xs args) fun ys => ∀ y ∈ ys, y ∈ xs := by
  refine (argument_peeks args 0).bind fun start _ => (expectInt_peeks start).bind fun n _ => ?_
  dsimp only
  split
  · exact rest_peeks xs args xs.length
  · exact (zeroBased_peeks n _).bind fun skipped _ => rest_peeks xs args skipped

theorem positionAfter_peeks (skipped : Nat) (v : Value) (items : List Value) :
    m.Peeks (positionAfter skipped v items) fun w => w.obj? = none := by
  induction items generalizing skipped with
  | nil => exact .pure rfl
  | cons item items ih =>
    refine (valuesEqual_peeks item v).bind fun same _ => ?_
    split
    · exact .pure rfl
    · exact ih (skipped + 1)

theorem vectorItems_peeks (hm : m.Sound terms rest) (v : Value) :
    m.Peeks (vectorItems v) fun items => ∀ w ∈ items, m.Knows terms w := by
  refine (expectObject_peeks v).bind fun id _ => (deref_peeks id).bind fun o ho => ?_
  split
  · next items hbody => exact .pure fun w hw => hm.knows_edge ho (by rw [hbody]; exact hw)
  · exact .fail _

theorem tableEntries_peeks (v : Value) :
    m.Peeks (tableEntries v) fun entries =>
      ∃ id o, v = .obj id ∧ m.heap.get? id = some o ∧ o.body = .table entries := by
  refine (expectObject_peeks v).bind fun id hid => (deref_peeks id).bind fun o ho => ?_
  split
  · next entries hbody => exact .pure ⟨id, o, hid, ho, hbody⟩
  · exact .fail _

/-! ## New objects -/

theorem mem_of_entriesOf? {entries final : List (Value × Value)} {vs : List Value}
    (hf : entriesOf? entries vs = some final) {e : Value × Value} (he : e ∈ final) :
    e ∈ entries ∨ e.1 ∈ vs ∧ e.2 ∈ vs := by
  induction entries, vs using entriesOf?.induct with
  | case1 entries =>
    rw [entriesOf?, Option.some.injEq] at hf
    exact .inl (hf ▸ he)
  | case2 entries k =>
    rw [entriesOf?] at hf
    cases hf
  | case3 entries k v vs hnone ih =>
    rw [entriesOf?, hnone] at hf
    rcases ih hf with hmem | hmem
    · rcases List.mem_append.1 hmem with hmem | hmem
      · exact .inl hmem
      · rw [List.mem_singleton.1 hmem]
        simp
    · simp [hmem]
  | case4 entries k v vs i hsome ih =>
    rw [entriesOf?, hsome] at hf
    rcases ih hf with hmem | hmem
    · rcases List.mem_or_eq_of_mem_set hmem with hmem | hmem
      · exact .inl hmem
      · rw [hmem]
        simp
    · simp [hmem]

theorem construct_yields (hm : m.Sound terms rest) (metaclass : MetaclassId) (kind : Kind)
    (hargs : ∀ v ∈ args, m.Knows terms v) : m.Yields terms rest (construct metaclass kind args) := by
  cases kind with
  | program =>
    refine .peek hm (Peeks.mapM (R := fun v id => v = .obj id) fun v _ => ?_) fun supers hsupers => ?_
    · refine (expectObject_peeks v).bind fun id hid => (deref_peeks id).bind fun o _ => ?_
      exact .pure hid
    · have hedges : (Body.program supers .empty).edges = args := by
        have hmap := List.forall₂_map_right_iff.2 hsupers
        rw [List.forall₂_eq_eq_eq] at hmap
        rw [hmap]
        simp [Body.edges, PropTable.empty]
      exact .retainValues hm hargs fun m' hm' => allocate_yields (by rwa [hedges])
  | list => exact .retainValues hm hargs fun m' hm' => allocate_yields hm'
  | vector => exact .retainValues hm hargs fun m' hm' => allocate_yields hm'
  | string =>
    refine .peek hm (Peeks.mapM (R := fun _ _ => True) fun v _ => displayText_peeks v)
      fun texts _ => allocate_yields ?_
    simpa [Body.edges] using hm
  | table =>
    unfold construct
    cases hentries : entriesOf? [] args with
    | none => exact .fail hm _
    | some entries =>
      refine .retainValues hm (fun v hv => ?_) fun m' hm' => allocate_yields hm'
      obtain ⟨e, he, hv⟩ := List.mem_flatMap.1 hv
      obtain ⟨hkey, hval⟩ : e.1 ∈ args ∧ e.2 ∈ args := by
        simpa using mem_of_entriesOf? hentries he
      rcases List.mem_pair.1 hv with rfl | rfl
      · exact hargs _ hkey
      · exact hargs _ hval

theorem newProgram_ends (hm : m.Sound terms rest) {supers : List ObjectId}
    (hk : ∀ id ∈ supers, m.Knows terms (.obj id)) :
    Ends (newProgram supers m)
      (fun v m' => m.Gave terms rest {v} m' ∧ ∃ id metaclass, v = .obj id ∧
        m'.heap.get? id = some ⟨metaclass, .program supers .empty⟩) (m.Faulted terms rest) := by
  have hprogram : Kind.program ∈ MetaclassTable.required := by decide
  obtain ⟨metaclass, hmetaclass⟩ := metaclassOf_eq_ok hm.ready hprogram
  refine Ends.bind_ok hmetaclass (Ends.bind_ok rfl ?_)
  have hbeside : m.Beside { m with heap := m.heap.retainValues (supers.map .obj) } :=
    .withHeap (Heap.Shrinks.retainValues m.heap _).toOnward
  have hknown : ∀ v ∈ supers.map Value.obj, m.Knows terms v := by simpa using hk
  have hsound : Sound { m with heap := m.heap.retainValues (supers.map .obj) } terms
      ((Body.program supers .empty).edges + rest) := by
    simpa [Body.edges, PropTable.empty] using hm.retainValues hknown
  refine (@allocate_ends _ _ _ metaclass _ hsound).mono
    (fun v m' ha => ⟨ha.1.of_beside hbeside, ?_⟩) fun e m' he =>
    ⟨hbeside.trans he.1, he.2.1, .inl he.2.2⟩
  obtain ⟨-, id, hid, ha⟩ := ha
  exact ⟨id, metaclass, hid, ha.get?_new⟩

theorem newProgram_yields (hm : m.Sound terms rest) {supers : List ObjectId}
    (hk : ∀ id ∈ supers, m.Knows terms (.obj id)) : m.Yields terms rest (newProgram supers) :=
  .of_ends fun _ hm' => (newProgram_ends (hm.peeked hm') fun id hid => (hk id hid).peeked hm').mono
    (fun _ _ hg => hg.1) fun _ _ hf => hf

/-! ## Methods -/

theorem Sound.knows_entries (hm : m.Sound terms rest) {entries : List (Value × Value)}
    (he : ∃ id o, v = .obj id ∧ m.heap.get? id = some o ∧ o.body = .table entries) :
    ∀ e ∈ entries, m.Knows terms e.1 ∧ m.Knows terms e.2 := by
  obtain ⟨id, o, -, ho, hbody⟩ := he
  intro e he
  obtain ⟨hkey, hval⟩ := mem_edges_of_mem he
  exact ⟨hm.knows_edge ho (hbody ▸ hkey), hm.knows_edge ho (hbody ▸ hval)⟩

theorem appendElement_keeps (hm : m.Sound terms rest) (hw : m.Knows terms w) (id : ObjectId) (length : Nat) :
    m.Keeps terms rest (owned w >>= fun w =>
      onFault (onHeap (Heap.insertElement id length w)) (releaseValue w)) := by
  refine .of_ends fun m' hm' => Ends.bind_ok rfl ?_
  have hbeside : m'.Beside { m' with heap := m'.heap.retainValue w } :=
    .withHeap (Heap.Shrinks.retainValues m'.heap [w]).toOnward
  have hsound := (hm.peeked hm').retainValue (hw.peeked hm')
  exact (onHeap_gives (Heap.insertElement_edits _ id length w) hsound fun _ => rfl).mono
    (fun _ _ hg => ⟨hbeside.trans hg.1, hg.2⟩) fun _ _ hf => hf.of_beside hbeside

/-- The value of a key is in the machine's hands before the key is taken out, which
    cannot fail then. -/
theorem takeEntry_yields (hm : m.Sound terms rest) {id : ObjectId} {o : Object}
    {entries : List (Value × Value)} (ho : m.heap.get? id = some o) (hbody : o.body = .table entries)
    (key : Value) (hw : m.Knows terms w) :
    m.Yields terms rest (owned w >>= fun w => onHeap (Heap.removeEntry id key) >>= fun _ => pure w) := by
  refine .of_ends fun m' hm' => Ends.bind_ok rfl ?_
  have hbeside : m'.Beside { m' with heap := m'.heap.retainValue w } :=
    .withHeap (Heap.Shrinks.retainValues m'.heap [w]).toOnward
  have hsound := (hm.peeked hm').retainValue (hw.peeked hm')
  have hobject : (m'.heap.retainValue w).get? id = some o := by
    rw [Heap.get?_retainValue, hm'.heap, ho]
  obtain ⟨b, h, hok⟩ := Heap.removeEntry_eq_ok hobject hbody key
  have hsound' : Sound { m' with heap := m'.heap.retainValue w } terms
      (([] : List Value) + ({w} + rest)) := by simpa using hsound
  have hends := onHeap_edits (Heap.removeEntry_edits (m'.heap.retainValue w) id key) hsound'
  rw [onHeap_ok hok] at hends
  refine Ends.bind_ok (onHeap_ok hok) ⟨hbeside.trans hends.1, ?_⟩
  simpa using hends.2

end Machine

open Machine

variable {terms : Terms} {m : Machine} {rest : Multiset Value} {v : Value} {args : List Value}

/-- A native method borrows its receiver and its arguments. -/
theorem NativeMethod.call_yields (hm : m.Sound terms rest) (method : NativeMethod)
    (hv : v ∈ m.placed + rest) (hargs : ∀ w ∈ args, m.Knows terms w) :
    m.Yields terms rest (method.call v args) := by
  cases method with
  | createInstance =>
    refine .peek hm (expectObject_peeks v) fun id hid => .peek hm (deref_peeks id) fun o _ => ?_
    exact newProgram_yields hm (by simpa [← hid] using hm.knows_owned hv)
  | ofKind =>
    refine .peek hm (expectObject_peeks v) fun id _ => ?_
    refine .peek hm (argument_peeks args 0) fun w _ => ?_
    split
    · exact .peek hm .get fun _ _ => .pure hm (Value.obj?_ofBool _)
    · exact .pure hm rfl
  | superclassList =>
    refine .peek hm (expectObject_peeks v) fun id _ => .peek hm (deref_peeks id) fun o ho => ?_
    refine newList_yields hm fun w hw => hm.knows_edge ho ?_
    cases hbody : o.body with
    | program supers props =>
      rw [hbody] at hw
      exact List.mem_append_left _ hw
    | _ => simp [hbody, Body.supers] at hw
  | propDefined =>
    refine .peek hm (expectObject_peeks v) fun id _ => ?_
    refine .peek hm (argument_peeks args 0) fun w _ => ?_
    split
    · refine .peek hm (deref_peeks id) fun o _ => .peek hm .get fun _ _ => ?_
      exact .pure hm (Value.obj?_ofBool _)
    · exact .fail hm _
  | listLength => exact .peek hm (expectList_peeks hm v) fun _ _ => .pure hm rfl
  | car =>
    refine .peek hm (expectList_peeks hm v) fun items hitems => ?_
    cases items with
    | nil => exact .pure hm rfl
    | cons w items => exact owned_yields hm (hitems w List.mem_cons_self)
  | cdr =>
    refine .peek hm (expectList_peeks hm v) fun items hitems => ?_
    cases items with
    | nil => exact .pure hm rfl
    | cons w items => exact newList_yields hm (List.forall_mem_cons.1 hitems).2
  | listIndexOf =>
    refine .peek hm (expectList_peeks hm v) fun items _ => ?_
    refine .peek hm (argument_peeks args 0) fun w _ => ?_
    exact (positionAfter_peeks 0 w items).yields hm
  | listAppend =>
    refine .peek hm (expectList_peeks hm v) fun items hitems => ?_
    refine .peek hm (argument_peeks args 0) fun w hw => ?_
    exact newList_yields hm (List.forall_mem_append.2 ⟨hitems, by simpa using hargs w hw⟩)
  | sublist =>
    refine .peek hm (expectList_peeks hm v) fun items hitems => ?_
    refine .peek hm (excerpt_peeks items args) fun part hpart => ?_
    exact newList_yields hm fun w hw => hitems w (hpart w hw)
  | vectorLength => exact .peek hm (vectorItems_peeks hm v) fun _ _ => .pure hm rfl
  | vectorAppend =>
    refine .peek hm (vectorItems_peeks hm v) fun items _ => ?_
    refine .peek hm (expectObject_peeks v) fun id _ => ?_
    refine .peek hm (argument_peeks args 0) fun w hw => ?_
    have := (appendElement_keeps hm (hargs w hw) id items.length).yields fun _ m' hm' hsound =>
      owned_yields hsound (hsound.knows_owned (hm'.placed ▸ hv))
    rwa [bind_assoc] at this
  | removeElementAt =>
    refine .peek hm (vectorItems_peeks hm v) fun items _ => ?_
    refine .peek hm (argument_peeks args 0) fun w _ => .peek hm (expectInt_peeks w) fun n _ => ?_
    refine .peek hm (zeroBased_peeks n _) fun i _ => .peek hm (expectObject_peeks v) fun id _ => ?_
    refine .of_ends fun m' hm' => ?_
    refine (onHeap_edits (m'.heap.removeElement_edits id i) ?_).mono (fun _ _ hg => hg) ?_
    · simpa using hm.peeked hm'
    · rintro e _ ⟨rfl, hplain⟩
      exact ⟨.refl _, hplain, .inr (hm.peeked hm')⟩
  | toList => exact .peek hm (vectorItems_peeks hm v) fun items hitems => newList_yields hm hitems
  | vectorIndexOf =>
    refine .peek hm (vectorItems_peeks hm v) fun items _ => ?_
    refine .peek hm (argument_peeks args 0) fun w _ => ?_
    exact (positionAfter_peeks 0 w items).yields hm
  | stringLength => exact .peek hm (expectString_peeks v) fun _ _ => .pure hm rfl
  | toUpper => exact .peek hm (expectString_peeks v) fun _ _ => newString_yields hm _
  | toLower => exact .peek hm (expectString_peeks v) fun _ _ => newString_yields hm _
  | substr =>
    refine .peek hm (expectString_peeks v) fun text _ => ?_
    exact .peek hm (excerpt_peeks text.toList args) fun _ _ => newString_yields hm _
  | find =>
    refine .peek hm (expectString_peeks v) fun text _ => ?_
    refine .peek hm (argument_peeks args 0) fun w _ => ?_
    refine .peek hm (expectString_peeks w) fun needle _ => ?_
    split <;> exact .pure hm rfl
  | isKeyPresent =>
    refine .peek hm (argument_peeks args 0) fun key _ => ?_
    exact .peek hm (tableEntries_peeks v) fun _ _ => .pure hm (Value.obj?_ofBool _)
  | removeElement =>
    refine .peek hm (argument_peeks args 0) fun key _ => ?_
    refine .peek hm (tableEntries_peeks v) fun entries hentries => ?_
    have hk := hm.knows_entries hentries
    obtain ⟨id, o, rfl, ho, hbody⟩ := hentries
    split
    · exact .pure hm rfl
    · next w hw => exact takeEntry_yields hm ho hbody key (hk _ (mem_of_lookup hw)).2
  | keysToList =>
    refine .peek hm (tableEntries_peeks v) fun entries hentries => newList_yields hm fun w hw => ?_
    obtain ⟨e, he, rfl⟩ := List.mem_map.1 hw
    exact (hm.knows_entries hentries e he).1
  | valsToList =>
    refine .peek hm (tableEntries_peeks v) fun entries hentries => newList_yields hm fun w hw => ?_
    obtain ⟨e, he, rfl⟩ := List.mem_map.1 hw
    exact (hm.knows_entries hentries e he).2
  | entryCount => exact .peek hm (tableEntries_peeks v) fun _ _ => .pure hm rfl

end StoryMachine
