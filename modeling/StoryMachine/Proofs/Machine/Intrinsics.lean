import StoryMachine.Proofs.Machine.Native

/-!
# Intrinsic functions

Intrinsic functions borrow their arguments, and give their result with a count of
its own. Collections, savepoints and what concerns the host leave the counts as
they are.

* `Machine.Sound.collectGarbage`: collections;
* `Intrinsic.call_yields`: functions, apart from the one that puts another state in
  place of the machine's.
-/

namespace StoryMachine

namespace Heap

variable {h : Heap} {id : ObjectId}

theorem Tidy.contains_of_idAt? (ht : h.Tidy) {i : Nat} (hid : h.idAt? i = some id) :
    h.contains id = true := by
  unfold idAt? at hid
  split at hid
  · cases hid
  · next s hs =>
    obtain ⟨o, ho, rfl⟩ := Option.map_eq_some_iff.1 hid
    have hi : (UInt32.ofNat i).toNat = i :=
      UInt32.toNat_ofNat_of_lt ((Array.getElem?_eq_some_iff.1 hs).1.trans ht.size_lt)
    exact contains_iff.2 ⟨o, occupant?_eq_some_iff.2 ⟨s, by rwa [hi], rfl, ho⟩⟩

theorem Tidy.contains_of_findFrom? (ht : h.Tidy) {p : ObjectId → Bool} {i : Nat}
    (hid : h.findFrom? p i = some id) : h.contains id = true := by
  induction i using findFrom?.induct (h := h) (p := p) with
  | case1 i hi id' hid' =>
    rw [findFrom?, if_pos hi, hid'] at hid
    obtain rfl := Option.some.inj hid
    exact ht.contains_of_idAt? (Option.eq_some_of_filter_eq_some hid')
  | case2 i hi hnone ih =>
    rw [findFrom?, if_pos hi, hnone] at hid
    exact ih hid
  | case3 i hi =>
    rw [findFrom?, if_neg hi] at hid
    cases hid

end Heap

namespace Machine

variable {α β : Type} {terms : Terms} {m : Machine} {rest : Multiset Value} {v w : Value}
  {args : List Value}

/-! ## Parts that keep the counts -/

theorem Keeps.bind {x : MachineM α} {f : α → MachineM β} (hx : m.Keeps terms rest x)
    (hf : ∀ a m', m.Beside m' → m'.Sound terms rest → m'.Keeps terms rest (f a)) :
    m.Keeps terms rest (x >>= f) := fun m' hm' =>
  (hx m' hm').bind (fun a m'' ha => (hf a m'' ha.1 ha.2 m'' (.refl m'')).mono
    (fun _ _ hg => ⟨ha.1.trans hg.1, hg.2⟩) fun _ _ hf => hf.of_beside ha.1) fun _ _ he => he

/-- A change of what surrounds the machine. -/
theorem Keeps.modify (hm : m.Sound terms rest) {f : Machine → Machine}
    (hb : ∀ m' : Machine, m'.Beside (f m'))
    (hh : ∀ m', (f m').heap = m'.heap) : m.Keeps terms rest (modify f) :=
  .of_ends fun m' hm' => by
    refine ⟨hb m', (hm.peeked hm').beside (hb m') ?_⟩
    rw [hh]
    exact (hm.peeked hm').counted

theorem Keeps.withHeap (hm : m.Sound terms rest) {f : Heap → α × Heap}
    (hon : ∀ h : Heap, h.Onward (f h).2)
    (hc : ∀ (h : Heap) held, h.Counted terms.stale held → (f h).2.Counted terms.stale held) :
    m.Keeps terms rest (withHeap f) :=
  .of_ends fun _ hm' =>
    ⟨.withHeap (hon _), (hm.peeked hm').withHeap (hon _) (hc _ _ (hm.peeked hm').counted)⟩

theorem Keeps.onFiles (hm : m.Sound terms rest) (f : Host → Except String α × Host) :
    m.Keeps terms rest (onFiles f) :=
  .of_ends fun m' hm' => by
    unfold StoryMachine.onFiles Ends
    have hb (host : Host) : m'.Beside { m' with host } := ⟨rfl, rfl, rfl, rfl, .refl _⟩
    rcases hr : f m'.host with ⟨_ | a, host⟩
    · simp only
      exact ⟨hb host, trivial, .inr ((hm.peeked hm').beside (hb host) (hm.peeked hm').counted)⟩
    · simp only
      exact ⟨hb host, (hm.peeked hm').beside (hb host) (hm.peeked hm').counted⟩

theorem Beside.collectGarbage (hm : m.Sound terms rest) : m.Beside m.collectGarbage.2 :=
  ⟨rfl, rfl, rfl, rfl, (hm.counted.tidy.shrinks_collect m.roots).toOnward⟩

theorem mem_roots_of_mem_placed (hv : v ∈ m.placed) : v ∈ m.roots := by
  rw [placed, ← Multiset.coe_singleton, Multiset.coe_add, Multiset.coe_add, Multiset.mem_coe] at hv
  simp only [roots, List.mem_append] at hv ⊢
  tauto

/-- All that the machine holds is among the roots of a collection, so only counts
    in its hands may be of objects that it does not find. -/
theorem Sound.collectGarbage (hm : m.Sound terms rest) (hrest : terms.stale = false → rest = 0) :
    m.collectGarbage.2.Sound terms rest :=
  hm.beside (.collectGarbage hm) (hm.counted.collect fun hstale id hid => by
    rw [hrest hstale, add_zero] at hid
    exact .inr (mem_roots_of_mem_placed hid))

theorem collectGarbage_keeps (hm : m.Sound terms rest) (hrest : terms.stale = false → rest = 0) :
    m.Keeps terms rest (modifyGet collectGarbage) :=
  .of_ends fun _ hm' =>
    ⟨.collectGarbage (hm.peeked hm'), (hm.peeked hm').collectGarbage hrest⟩

theorem saveState_keeps (hm : m.Sound terms rest) (hrest : terms.stale = false → rest = 0) :
    m.Keeps terms rest (modifyGet saveState) :=
  .of_ends fun _ hm' =>
    ⟨.collectGarbage (hm.peeked hm'), (hm.peeked hm').collectGarbage hrest⟩

theorem Beside.storeFile (m : Machine) (name : String) (bs : Bytes) :
    m.Beside (m.storeFile name bs) ∧ (m.storeFile name bs).heap = m.heap := by
  unfold Machine.storeFile
  dsimp only
  split
  · exact ⟨⟨rfl, rfl, rfl, rfl, .refl _⟩, rfl⟩
  · exact ⟨⟨rfl, rfl, rfl, rfl, .refl _⟩, rfl⟩

theorem saveToFile_keeps (hm : m.Sound terms rest) (hrest : terms.stale = false → rest = 0)
    (name : String) : m.Keeps terms rest (saveToFile name) := by
  refine (Keeps.onFiles hm _).bind fun _ m₁ _ hm₁ =>
    (saveState_keeps hm₁ hrest).bind fun bs m₂ _ hm₂ => ?_
  exact .modify hm₂ (fun m' => (Beside.storeFile m' name bs).1) fun m' =>
    (Beside.storeFile m' name bs).2

/-! ## Objects and numbers -/

theorem mem_placed_of_mem_values (hv : v ∈ m.stack.values) : v ∈ m.placed :=
  Multiset.mem_add.2 (.inl (Multiset.mem_add.2 (.inl (Multiset.mem_coe.2
    (List.mem_append_left _ (Array.mem_toList_iff.2 hv))))))

theorem mem_placed_of_arg? {i : Nat} (hv : m.stack.arg? i = some v) : v ∈ m.placed := by
  obtain ⟨f, -, hv⟩ := Option.bind_eq_some_iff.1 hv
  split at hv
  · cases hv
  · exact mem_placed_of_mem_values (Array.mem_of_getElem? hv)


theorem findNext_yields (hm : m.Sound terms rest) (after? : Option ObjectId)
    (class? : Option ObjectId) :
    m.Yields terms rest (get >>= fun m =>
      match m.heap.find? (m.heap.isInstance class?) after? with
      | some id => owned (.obj id)
      | none => pure .nil) := by
  refine .peek hm .get fun m' hm' => ?_
  rw [hm'.heap]
  split
  · next id hid => exact owned_yields hm (.of_contains (hm.counted.tidy.contains_of_findFrom? hid))
  · exact .pure hm rfl

theorem scanObjects_yields (hm : m.Sound terms rest) (after? : Option ObjectId) (class? : Option Value) :
    m.Yields terms rest (scanObjects after? class?) := by
  cases class? with
  | none => exact findNext_yields hm after? none
  | some v => exact .peek hm (expectObject_peeks v) fun id _ => findNext_yields hm after? (some id)

theorem operandsOf_peeks (hm : m.Sound terms rest) (hargs : ∀ v ∈ args, m.Knows terms v) :
    m.Peeks (operandsOf args) fun vs => ∀ v ∈ vs, m.Knows terms v := by
  unfold operandsOf
  split
  · next v =>
    refine (listItems_peeks hm v).bind fun items? hitems => .pure ?_
    cases items? with
    | none => exact hargs
    | some items => exact hitems items rfl
  · exact .pure hargs

theorem sumOf_peeks (total : Value) (vs : List Value) (htotal : total.obj? = none) :
    m.Peeks (sumOf total vs) fun v => v.obj? = none := by
  induction vs generalizing total with
  | nil => exact .pure htotal
  | cons v vs ih =>
    unfold sumOf
    split
    · exact (Peeks.liftExcept (P := fun _ => True) fun _ _ => trivial).bind fun _ _ => ih _ rfl
    · exact (Peeks.liftExcept (P := fun _ => True) fun _ _ => trivial).bind fun _ _ => ih _ rfl
    · exact .fail _

theorem extremeOf_peeks (order : Ordering) (best : Value) (vs : List Value) :
    m.Peeks (extremeOf order best vs) fun v => v ∈ best :: vs := by
  induction vs generalizing best with
  | nil => exact .pure List.mem_cons_self
  | cons v vs ih =>
    refine (compareValues_peeks v best).bind fun o _ => (ih _).mono fun w hw => ?_
    split at hw
    · exact List.mem_cons_of_mem _ hw
    · rcases List.mem_cons.1 hw with rfl | hw
      · exact List.mem_cons_self
      · exact List.mem_cons_of_mem _ (List.mem_cons_of_mem _ hw)

theorem extreme_yields (hm : m.Sound terms rest) (order : Ordering) (hargs : ∀ v ∈ args, m.Knows terms v) :
    m.Yields terms rest (extreme order args) := by
  refine .peek hm (operandsOf_peeks hm hargs) fun vs hvs => ?_
  cases vs with
  | nil => exact .fail hm _
  | cons v vs =>
    exact .peek hm (extremeOf_peeks order v vs) fun w hw => owned_yields hm (hvs w hw)

theorem integerOf_peeks (v : Value) : m.Peeks (integerOf v) fun _ => True := by
  unfold integerOf
  cases v with
  | int n => exact .pure trivial
  | truth => exact .pure trivial
  | nil => exact .pure trivial
  | float bits =>
    dsimp only
    by_cases hfinite : Binary.isFinite bits
    · rw [if_pos hfinite]
      exact .liftExcept fun _ _ => trivial
    · rw [if_neg hfinite]
      exact .fail _
  | _ =>
    refine (expectString_peeks _).bind fun text _ => ?_
    cases Decimal.parseInt? (Text.trim text) with
    | some n => exact .pure trivial
    | none => exact .fail _

theorem realOf_peeks (v : Value) : m.Peeks (realOf v) fun _ => True := by
  unfold realOf
  split
  · exact .pure trivial
  · exact .pure trivial
  · refine (expectString_peeks v).bind fun text _ => ?_
    split
    · exact .pure trivial
    · exact .fail _

theorem argumentOfCall_yields (hm : m.Sound terms rest) (n : Int32) :
    m.Yields terms rest (argumentOfCall n) := by
  refine .peek hm .get fun m' hm' => ?_
  obtain ⟨pools, -, rfl⟩ := hm'
  dsimp only
  split
  · next v hv =>
    refine owned_yields hm (hm.knows_placed ?_)
    split at hv
    · cases hv
    · exact mem_placed_of_arg? hv
  · exact .fail hm _

end Machine

open Machine

variable {terms : Terms} {m : Machine} {rest : Multiset Value} {args : List Value}

/-- An intrinsic function borrows its arguments. -/
theorem Intrinsic.call_yields (hm : m.Sound terms rest) (hrest : terms.stale = false → rest = 0)
    (f : Intrinsic) (hf : f ≠ .restoreState) (hargs : ∀ v ∈ args, m.Knows terms v) :
    m.Yields terms rest (f.call args) := by
  cases f with
  | runGC => exact (collectGarbage_keeps hm hrest).yields fun _ _ _ hm' => .pure hm' rfl
  | vmVersion => exact .pure hm rfl
  | vmId => exact newString_yields hm _
  | debugTrace =>
    refine .peek hm (argument_peeks args 0) fun v _ => ?_
    dsimp only
    split
    · exact .peek hm (Peeks.mapM (R := fun _ _ => True) fun w _ => displayText_peeks w)
        fun _ _ => .pure hm rfl
    · exact .pure hm rfl
  | stackDepth => exact .peek hm .get fun _ _ => .pure hm rfl
  | globalSymbol =>
    refine .peek hm (argument_peeks args 0) fun v _ => ?_
    refine .peek hm (expectString_peeks v) fun name _ => .peek hm .get fun m' hm' => ?_
    obtain ⟨pools, -, rfl⟩ := hm'
    refine owned_yields hm (.of_portable ?_)
    cases hv : m.image.exports.lookup name with
    | none =>
      simp only [export?, hv]
      exact .of_obj? rfl
    | some v =>
      simp only [export?, hv]
      exact hm.ready.exports _ (mem_of_lookup hv)
  | dataType => exact .peek hm (argument_peeks args 0) fun _ _ => .pure hm rfl
  | getArg =>
    refine .peek hm (argument_peeks args 0) fun v _ => .peek hm (expectInt_peeks v) fun n _ => ?_
    exact argumentOfCall_yields hm n
  | firstObj => exact scanObjects_yields hm none args.head?
  | nextObj =>
    refine .peek hm (argument_peeks args 0) fun v _ => .peek hm (expectObject_peeks v) fun id _ => ?_
    exact scanObjects_yields hm (some id) args[1]?
  | toString =>
    refine .peek hm (argument_peeks args 0) fun v _ => ?_
    exact .peek hm (displayText_peeks v) fun _ _ => newString_yields hm _
  | toInteger =>
    refine .peek hm (argument_peeks args 0) fun v _ => ?_
    exact .peek hm (integerOf_peeks v) fun _ _ => .pure hm rfl
  | getTime => exact .peek hm .get fun _ _ => .pure hm rfl
  | savepoint =>
    exact (Keeps.withHeap hm (fun h => (Heap.Shrinks.beginSavepoint h).toOnward)
      fun _ _ hc => hc.beginSavepoint).yields fun _ _ _ hm' => .pure hm' rfl
  | undo =>
    exact (Keeps.withHeap hm Heap.Onward.undoLast fun _ _ hc => hc.undoLast).yields
      fun _ _ _ hm' => .pure hm' (Value.obj?_ofBool _)
  | sum =>
    refine .peek hm (operandsOf_peeks hm hargs) fun vs _ => ?_
    exact (sumOf_peeks (.int 0) vs rfl).yields hm
  | max => exact extreme_yields hm .gt hargs
  | min => exact extreme_yields hm .lt hargs
  | toFloat =>
    refine .peek hm (argument_peeks args 0) fun v _ => ?_
    exact .peek hm (realOf_peeks v) fun _ _ => .pure hm rfl
  | restartGame | quit =>
    refine Keeps.yields (Keeps.modify hm (fun _ => ?_) fun _ => rfl) fun _ _ _ hm' => .pure hm' rfl
    exact ⟨rfl, rfl, rfl, rfl, .refl _⟩
  | saveState =>
    refine .peek hm (argument_peeks args 0) fun v _ => .peek hm (expectString_peeks v) fun name _ => ?_
    exact (saveToFile_keeps hm hrest name).yields fun _ _ _ hm' => .pure hm' rfl
  | restoreState => exact absurd rfl hf
  | say =>
    refine .peek hm (Peeks.mapM (R := fun _ _ => True) fun w _ => displayText_peeks w)
      fun texts _ => ?_
    refine Keeps.yields (Keeps.modify hm (fun _ => ?_) fun _ => rfl) fun _ _ _ hm' => .pure hm' rfl
    exact ⟨rfl, rfl, rfl, rfl, .refl _⟩

end StoryMachine
