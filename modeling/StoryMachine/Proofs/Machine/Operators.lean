import StoryMachine.Proofs.Machine.Values

/-!
# Operators

Operators borrow their operands, and give their result with a count of its own.

* `arithmetic_yields`, `compareBy_yields`: arithmetic and comparisons;
* `elementAt_yields`, `withElement_yields`: elements.
-/

namespace StoryMachine

theorem Value.obj?_ofBool (c : Bool) : (Value.ofBool c).obj? = none := by
  cases c <;> rfl

namespace Machine

variable {α : Type} {terms : Terms} {m : Machine} {rest : Multiset Value} {a b v w : Value} {args : List Value}

/-! ## Operators -/

theorem addValues_yields (hm : m.Sound terms rest) (hb : m.Knows terms b) :
    m.Yields terms rest (addValues a b) := by
  refine .peek hm (stringValue_peeks a) fun text? _ => ?_
  split
  · exact .peek hm (displayText_peeks b) fun _ _ => newString_yields hm _
  refine .peek hm (listItems_peeks hm a) fun items? hitems => ?_
  cases items? with
  | none => exact .fail hm _
  | some items =>
    refine .peek hm (listItems_peeks hm b) fun more? hmore => ?_
    cases more? with
    | some more =>
      exact newList_yields hm (List.forall_mem_append.2 ⟨hitems items rfl, hmore more rfl⟩)
    | none =>
      exact newList_yields hm (List.forall_mem_append.2 ⟨hitems items rfl, by simpa using hb⟩)

theorem subtractValues_yields (hm : m.Sound terms rest) : m.Yields terms rest (subtractValues a b) := by
  refine .peek hm (listItems_peeks hm a) fun items? hitems => ?_
  cases items? with
  | none => exact .fail hm _
  | some items =>
    refine .peek hm (listItems_peeks hm b) fun more? _ => ?_
    refine .peek hm (Peeks.filterM fun v => ?_) fun kept hkept =>
      newList_yields hm fun w hw => hitems items rfl w (hkept w hw)
    exact (Peeks.anyM fun w => valuesEqual_peeks v w).bind fun _ _ => .pure trivial

theorem arithmetic_yields (hm : m.Sound terms rest) (op : Arith) (hb : m.Knows terms b) :
    m.Yields terms rest (arithmetic op a b) := by
  unfold arithmetic
  split
  · exact .peek hm (.liftExcept (P := fun _ => True) fun _ _ => trivial) fun _ _ => .pure hm rfl
  · exact .peek hm (.liftExcept (P := fun _ => True) fun _ _ => trivial) fun _ _ => .pure hm rfl
  · cases op with
    | add => exact addValues_yields hm hb
    | sub => exact subtractValues_yields hm
    | _ => exact .fail hm _

theorem compareBy_yields (hm : m.Sound terms rest) (rel : Relation) : m.Yields terms rest (compareBy rel a b) := by
  cases rel with
  | eq | ne =>
    exact .peek hm (valuesEqual_peeks a b) fun _ _ => .pure hm (Value.obj?_ofBool _)
  | _ => exact .peek hm (compareValues_peeks a b) fun _ _ => .pure hm (Value.obj?_ofBool _)

theorem bodyOf?_peeks (hm : m.Sound terms rest) (v : Value) :
    m.Peeks (bodyOf? v) fun body? => ∀ body ∈ body?, ∀ w ∈ body.edges, m.Knows terms w := by
  unfold bodyOf?
  split
  · next id =>
    refine Peeks.get.bind fun m' hm' => .pure fun body hbody => ?_
    rw [hm'.heap] at hbody
    obtain ⟨o, ho, rfl⟩ := Option.map_eq_some_iff.1 hbody
    exact fun w hw => hm.knows_edge ho hw
  · exact .pure (by simp)

theorem knows_nil : m.Knows terms .nil := .of_portable (.of_obj? rfl)

theorem mem_edges_of_mem {entries : List (Value × Value)} {e : Value × Value} (he : e ∈ entries) :
    e.1 ∈ (Body.table entries).edges ∧ e.2 ∈ (Body.table entries).edges :=
  ⟨List.mem_flatMap.2 ⟨e, he, by simp⟩, List.mem_flatMap.2 ⟨e, he, by simp⟩⟩

theorem mem_of_lookup {α β : Type} [BEq α] [LawfulBEq α] {l : List (α × β)} {a : α} {b : β}
    (hb : l.lookup a = some b) : (a, b) ∈ l := by
  obtain ⟨l₁, l₂, rfl, -⟩ := List.lookup_eq_some_iff.1 hb
  simp

theorem elementAt_yields (hm : m.Sound terms rest) : m.Yields terms rest (elementAt a b) := by
  refine .peek hm (bodyOf?_peeks hm a) fun body? hbody => ?_
  split
  · next entries =>
    refine owned_yields hm ?_
    cases hv : entries.lookup b with
    | none => exact knows_nil
    | some v => exact hbody _ rfl v (mem_edges_of_mem (mem_of_lookup hv)).2
  refine .peek hm (listItems_peeks hm a) fun items? hitems => ?_
  cases items? with
  | none => exact .fail hm _
  | some items =>
    refine .peek hm (expectInt_peeks b) fun n _ => .peek hm (zeroBased_peeks n _) fun i _ => ?_
    refine owned_yields hm ?_
    rw [List.getD_eq_getElem?_getD]
    cases hv : items[i]? with
    | none => exact knows_nil
    | some v => exact hitems items rfl v (List.mem_of_getElem? hv)

theorem copyWithElement_yields (hm : m.Sound terms rest) (hv : m.Knows terms v) :
    m.Yields terms rest (copyWithElement a b v) := by
  refine .peek hm (listItems_peeks hm a) fun items? hitems => ?_
  cases items? with
  | none => exact .fail hm _
  | some items =>
    refine .peek hm (expectInt_peeks b) fun n _ => .peek hm (zeroBased_peeks n _) fun i _ => ?_
    refine newList_yields hm fun w hw => ?_
    rcases List.mem_or_eq_of_mem_set hw with hw | rfl
    · exact hitems items rfl w hw
    · exact hv

/-- Values given to an object are in the machine's hands until it has them, or are
    released. -/
theorem giveTo_keeps {change : HeapM α} {id : ObjectId} {values : List Value} (hm : m.Sound terms rest)
    (hk : ∀ v ∈ values, m.Knows terms v)
    (he : ∀ h : Heap, Heap.EditsAt change h id values fun _ => []) :
    m.Keeps terms rest (giveTo values change) := by
  refine .of_ends fun m' hm' => Ends.bind_ok rfl ?_
  have hbeside : m'.Beside { m' with heap := m'.heap.retainValues values } :=
    .withHeap (Heap.Shrinks.retainValues m'.heap values).toOnward
  have hsound := (hm.peeked hm').retainValues fun v hv => (hk v hv).peeked hm'
  exact (onHeap_gives (he _) hsound fun _ => rfl).mono
    (fun _ _ hg => ⟨hbeside.trans hg.1, hg.2⟩) fun _ _ hf => hf.of_beside hbeside

theorem withElement_yields (hm : m.Sound terms rest) (ha : a ∈ m.placed + rest) (hb : m.Knows terms b)
    (hv : m.Knows terms v) : m.Yields terms rest (withElement a b v) := by
  unfold withElement
  split
  · next id =>
    refine .peek hm (deref_peeks id) fun o _ => ?_
    split
    · refine .peek hm (expectInt_peeks b) fun n _ => .peek hm (zeroBased_peeks n _) fun i _ => ?_
      refine (giveTo_keeps hm (by simpa using hv) fun h => h.setElement_edits id i v).yields
        fun _ m' hm' hsound => owned_yields hsound (hsound.knows_owned (hm'.placed ▸ ha))
    · refine (giveTo_keeps hm (by simpa using ⟨hb, hv⟩) fun h => h.putEntry_edits id b v).yields
        fun _ m' hm' hsound => owned_yields hsound (hsound.knows_owned (hm'.placed ▸ ha))
    · exact copyWithElement_yields hm hv
  · exact copyWithElement_yields hm hv

end Machine

end StoryMachine
