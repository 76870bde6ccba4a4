import StoryMachine.Proofs.Machine.Parts

/-!
# Looking at values

Reading texts and elements, comparing values and finding their texts only look at
the machine. What is read out of an object or a constant may be held.

* `listItems_peeks`: elements;
* `valuesEqual_peeks`, `compareValues_peeks`: equality and order;
* `displayText_peeks`: texts.
-/

namespace StoryMachine.Machine

variable {α : Type} {terms : Terms} {m : Machine} {rest : Multiset Value} {v w : Value}

/-! ## Content -/

theorem deref_peeks (id : ObjectId) : m.Peeks (deref id) fun o => m.heap.get? id = some o := by
  refine Peeks.get.bind fun m' hm' => ?_
  rw [Heap.deref, hm'.heap]
  cases ho : m.heap.get? id with
  | some o => exact .pure rfl
  | none => exact .fail _

theorem deref_eq_ok {id : ObjectId} {o : Object} (ho : m.heap.get? id = some o) :
    deref id m = .ok o m := by
  simp only [deref, bind, EStateM.bind, get, getThe, MonadStateOf.get, EStateM.get, Heap.deref, ho]
  rfl

theorem stringValue_peeks (v : Value) : m.Peeks (stringValue v) fun _ => True := by
  unfold stringValue
  split
  · exact (Peeks.reads fun pools => pools.later_readString _).bind fun _ _ => .pure trivial
  · refine (deref_peeks _).bind fun o _ => ?_
    split <;> exact .pure trivial
  · exact .pure trivial

theorem listItems_peeks (hm : m.Sound terms rest) (v : Value) :
    m.Peeks (listItems v) fun items? => ∀ items ∈ items?, ∀ w ∈ items, m.Knows terms w := by
  unfold listItems
  split
  · refine (Peeks.onPools (P := fun items => ∀ w ∈ items, m.Knows terms w)
      (fun pools => pools.later_readList _) fun pools items hitems w hw =>
        .of_portable (Pools.readList_portable hitems w hw)).bind fun items hitems => .pure ?_
    simpa using hitems
  · refine (deref_peeks _).bind fun o ho => ?_
    have hedges : ∀ items, o.body.edges = items → ∀ w ∈ items, m.Knows terms w :=
      fun items hitems w hw => hm.knows_edge ho (hitems ▸ hw)
    split
    · next items hbody => exact .pure (by simpa using hedges items (by rw [hbody]; rfl))
    · next items hbody => exact .pure (by simpa using hedges items (by rw [hbody]; rfl))
    · exact .pure (by simp)
  · exact .pure (by simp)

theorem items_peeks (v : Value) : m.Peeks (listItems v) fun _ => True := by
  unfold listItems
  split
  · exact (Peeks.reads fun pools => pools.later_readList _).bind fun _ _ => .pure trivial
  · refine (deref_peeks _).bind fun o _ => ?_
    split <;> exact .pure trivial
  · exact .pure trivial

theorem immutableItems_peeks (v : Value) : m.Peeks (immutableItems v) fun _ => True := by
  unfold immutableItems
  split
  · refine (deref_peeks _).bind fun o _ => ?_
    split <;> exact .pure trivial
  · exact items_peeks v

theorem expectString_peeks (v : Value) : m.Peeks (expectString v) fun _ => True := by
  refine (stringValue_peeks v).bind fun text? _ => ?_
  cases text? with
  | some text => exact .pure trivial
  | none => exact .fail _

theorem expectList_peeks (hm : m.Sound terms rest) (v : Value) :
    m.Peeks (expectList v) fun items => ∀ w ∈ items, m.Knows terms w := by
  refine (listItems_peeks hm v).bind fun items? hitems => ?_
  cases items? with
  | some items => exact .pure (hitems items rfl)
  | none => exact .fail _

theorem expectInt_peeks (v : Value) : m.Peeks (expectInt v) fun _ => True := by
  unfold expectInt
  split
  · exact .pure trivial
  · exact .fail _

theorem expectObject_peeks (v : Value) : m.Peeks (expectObject v) fun id => v = .obj id := by
  unfold expectObject
  split
  · exact .pure rfl
  · exact .fail _

theorem zeroBased_peeks (position : Int32) (length : Nat) :
    m.Peeks (zeroBased position length) fun _ => True := by
  dsimp only [zeroBased]
  split
  · exact (Peeks.fail _).bind fun _ (_ : True) => .pure trivial
  · exact .pure trivial

/-! ## Equality and order -/

theorem valuesEqualTo_peeks (depth : Nat) (v w : Value) :
    m.Peeks (valuesEqualTo depth v w) fun _ => True := by
  induction depth generalizing v w with
  | zero => exact .endless
  | succ depth ih =>
    unfold valuesEqualTo
    split
    · exact .pure trivial
    · exact .pure trivial
    · split
      · exact .pure trivial
      refine (stringValue_peeks v).bind fun s _ => (stringValue_peeks w).bind fun t _ => ?_
      split
      · exact .pure trivial
      refine (immutableItems_peeks v).bind fun xs _ => ?_
      refine (immutableItems_peeks w).bind fun ys _ => ?_
      split
      · split
        · exact .allM fun _ => ih _ _
        · exact .pure trivial
      · exact .pure trivial

theorem valuesEqual_peeks (v w : Value) : m.Peeks (valuesEqual v w) fun _ => True :=
  Peeks.get.bind fun _ _ => valuesEqualTo_peeks _ v w

theorem compareValues_peeks (v w : Value) : m.Peeks (compareValues v w) fun _ => True := by
  unfold compareValues
  split
  · exact .pure trivial
  · split
    · exact .pure trivial
    · exact .fail _
  · refine (stringValue_peeks v).bind fun s _ => (stringValue_peeks w).bind fun t _ => ?_
    split
    · exact .pure trivial
    · exact .fail _

/-! ## Text -/

theorem displayWith_peeks (nested : Option (Value → MachineM String))
    (hnested : ∀ f ∈ nested, ∀ w, m.Peeks (f w) fun _ => True) (v : Value) :
    m.Peeks (displayWith nested v) fun _ => True := by
  refine (stringValue_peeks v).bind fun text? _ => ?_
  split
  · exact .pure trivial
  refine (items_peeks v).bind fun items? _ => ?_
  split
  · exact .pure trivial
  split
  · exact .pure trivial
  · next f =>
    exact (Peeks.mapM (R := fun _ _ => True) fun w _ => hnested f rfl w).bind fun _ _ => .pure trivial

theorem displayTo_peeks (depth : Nat) (v : Value) :
    m.Peeks (displayTo depth v) fun _ => True := by
  induction depth generalizing v with
  | zero => exact displayWith_peeks none (by simp) v
  | succ depth ih => exact displayWith_peeks _ (by simpa using ih) v

theorem displayText_peeks (v : Value) : m.Peeks (displayText v) fun _ => True :=
  displayTo_peeks 16 v

end StoryMachine.Machine
