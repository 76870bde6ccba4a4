import StoryMachine.Proofs.Machine.Sound

/-!
# Parts of instructions

An instruction is made of parts. Some only look at the machine; others give a value
with a count of its own and leave the stack and the variables alone. A part that
finds no memory may lose counts, and no other fault does.

* `Machine.Peeks`: parts that look;
* `Machine.Yields`: parts that give a value;
* `owned_yields`, `newString_yields`, `newList_yields`: where values come from;
* `onHeap_edits`: changes to objects.
-/

namespace StoryMachine

namespace Machine

variable {α β : Type} {terms : Terms} {m m' : Machine} {rest : Multiset Value} {v : Value} {vs : List Value}
  {x : MachineM α} {f : α → MachineM β} {P : α → Prop} {T : β → Prop}

/-! ## Parts that look -/

/-- The part only looks at the machine, and its result is as `P` says. -/
def Peeks (m : Machine) (x : MachineM α) (P : α → Prop) : Prop :=
  ∀ m', m.Peeked m' →
    Ends (x m') (fun a m'' => m.Peeked m'' ∧ P a) fun e m'' => m.Peeked m'' ∧ e.Plain

theorem Peeks.pure {a : α} (ha : P a) : m.Peeks (Pure.pure a) P := fun _ hm => ⟨hm, ha⟩

theorem Peeks.fail (e : Failure) : m.Peeks (fail e) P := fun _ hm => ⟨hm, trivial⟩

theorem Peeks.endless : m.Peeks (throw .endless) P := fun _ hm => ⟨hm, trivial⟩

theorem Peeks.get : m.Peeks get (m.Peeked ·) := fun _ hm => ⟨hm, hm⟩

theorem Peeks.bind (hx : m.Peeks x P) (hf : ∀ a, P a → m.Peeks (f a) T) :
    m.Peeks (x >>= f) T := fun m' hm =>
  (hx m' hm).bind (fun a m'' ha => hf a ha.2 m'' ha.1) fun _ _ he => he

theorem Peeks.mono {R : α → Prop} (hx : m.Peeks x P) (hP : ∀ a, P a → R a) : m.Peeks x R :=
  fun m' hm => (hx m' hm).mono (fun a _ ha => ⟨ha.1, hP a ha.2⟩) fun _ _ he => he

theorem Peeks.liftExcept {r : Except Failure α} (hr : ∀ a, r = .ok a → P a) :
    m.Peeks (liftExcept r) P := by
  cases r with
  | ok a => exact .pure (hr a rfl)
  | error e => exact .fail e

theorem Peeks.onPools {g : Pools → Except Failure α × Pools}
    (hlater : ∀ pools : Pools, pools.Later (g pools).2) (hg : ∀ pools a, (g pools).1 = .ok a → P a) :
    m.Peeks (onPools g) P := by
  rintro _ ⟨pools, hpools, rfl⟩
  have hread := hpools.trans (hlater pools)
  unfold StoryMachine.onPools Ends
  rcases hr : g pools with ⟨_ | a, pools'⟩
  · rw [hr] at hread
    simp only [hr]
    exact ⟨⟨pools', hread, rfl⟩, trivial⟩
  · rw [hr] at hread
    simp only [hr]
    exact ⟨⟨pools', hread, rfl⟩, hg pools a (by rw [hr])⟩

theorem Peeks.reads {g : Pools → Except Failure α × Pools}
    (hlater : ∀ pools : Pools, pools.Later (g pools).2) : m.Peeks (StoryMachine.onPools g) fun _ => True :=
  .onPools hlater fun _ _ _ => trivial

theorem Peeks.mapM {g : α → MachineM β} {R : α → β → Prop} {xs : List α}
    (hg : ∀ a ∈ xs, m.Peeks (g a) (R a)) : m.Peeks (xs.mapM g) (List.Forall₂ R xs) := by
  induction xs with
  | nil =>
    rw [List.mapM_nil]
    exact .pure .nil
  | cons a xs ih =>
    rw [List.mapM_cons]
    refine (hg a List.mem_cons_self).bind fun b hb => ?_
    refine (ih fun a' ha' => hg a' (List.mem_cons_of_mem _ ha')).bind fun bs hbs => .pure ?_
    exact .cons hb hbs

theorem Peeks.allM {p : α → MachineM Bool} {xs : List α}
    (hp : ∀ a, m.Peeks (p a) fun _ => True) : m.Peeks (xs.allM p) fun _ => True := by
  induction xs with
  | nil => exact .pure trivial
  | cons a xs ih =>
    refine (hp a).bind fun b _ => ?_
    cases b with
    | true => exact ih
    | false => exact .pure trivial

theorem Peeks.anyM {p : α → MachineM Bool} {xs : List α}
    (hp : ∀ a, m.Peeks (p a) fun _ => True) : m.Peeks (xs.anyM p) fun _ => True := by
  induction xs with
  | nil => exact .pure trivial
  | cons a xs ih =>
    refine (hp a).bind fun b _ => ?_
    cases b with
    | true => exact .pure trivial
    | false => exact ih

theorem Peeks.filterM {p : α → MachineM Bool} {xs : List α}
    (hp : ∀ a, m.Peeks (p a) fun _ => True) :
    m.Peeks (xs.filterM p) fun ys => ∀ a ∈ ys, a ∈ xs := by
  have haux (ys acc : List α) (hys : ∀ a ∈ ys, a ∈ xs) (hacc : ∀ a ∈ acc, a ∈ xs) :
      m.Peeks (List.filterAuxM p ys acc) fun zs => ∀ a ∈ zs, a ∈ xs := by
    induction ys generalizing acc with
    | nil => exact .pure hacc
    | cons a ys ih =>
      refine (hp a).bind fun b _ => ih _ (fun a' ha' => hys a' (List.mem_cons_of_mem _ ha')) ?_
      cases b with
      | true => exact List.forall_mem_cons.2 ⟨hys a List.mem_cons_self, hacc⟩
      | false => exact hacc
  refine (haux xs [] (fun a ha => ha) (by simp)).bind fun zs hzs => .pure fun a ha => ?_
  exact hzs a (List.mem_reverse.1 ha)

/-! ## Parts that give a value -/

/-- The part has ended with counts of `news` in the machine's hands. -/
def Gave (m : Machine) (terms : Terms) (rest news : Multiset Value) (m' : Machine) : Prop :=
  m.Beside m' ∧ m'.Sound terms (news + rest)

/-- The part has ended with a fault. Counts are lost only if there was no
    memory. -/
def Faulted (m : Machine) (terms : Terms) (rest : Multiset Value) (e : Fault) (m' : Machine) : Prop :=
  m.Beside m' ∧ e.Plain ∧ (e.isMemory = true ∨ m'.Sound terms rest)

/-- The part gives a value with a count of its own. -/
def Yields (m : Machine) (terms : Terms) (rest : Multiset Value) (x : MachineM Value) : Prop :=
  ∀ m', m.Peeked m' → Ends (x m') (fun v => m.Gave terms rest {v}) (m.Faulted terms rest)

theorem Faulted.of_peeked (hm : m.Sound terms rest) {e : Fault} (hp : m.Peeked m') (he : e.Plain) :
    m.Faulted terms rest e m' :=
  ⟨hp.beside, he, .inr (hm.peeked hp)⟩

theorem Gave.of_beside {base : Machine} {news : Multiset Value} (hg : m.Gave terms rest news m')
    (hb : base.Beside m) : base.Gave terms rest news m' :=
  ⟨hb.trans hg.1, hg.2⟩

theorem Faulted.of_beside {base : Machine} {e : Fault} (hf : m.Faulted terms rest e m')
    (hb : base.Beside m) : base.Faulted terms rest e m' :=
  ⟨hb.trans hf.1, hf.2⟩

/-- What a part does on a machine that has been looked at it does on the machine. -/
theorem Yields.of_ends {x : MachineM Value}
    (hx : ∀ m', m.Peeked m' → Ends (x m') (fun v => m'.Gave terms rest {v}) (m'.Faulted terms rest)) :
    m.Yields terms rest x := fun m' hm =>
  (hx m' hm).mono (fun _ _ hg => hg.of_beside hm.beside) fun _ _ hf => hf.of_beside hm.beside

theorem Yields.peek {f : α → MachineM Value} (hm : m.Sound terms rest) (hx : m.Peeks x P)
    (hf : ∀ a, P a → m.Yields terms rest (f a)) : m.Yields terms rest (x >>= f) := fun m' hm' =>
  (hx m' hm').bind (fun a m'' ha => hf a ha.2 m'' ha.1) fun _ _ he =>
    .of_peeked hm he.1 he.2

/-- The part neither takes nor gives counts. -/
def Keeps (m : Machine) (terms : Terms) (rest : Multiset Value) (x : MachineM α) : Prop :=
  ∀ m', m.Peeked m' → Ends (x m') (fun _ m'' => m.Beside m'' ∧ m''.Sound terms rest) (m.Faulted terms rest)

theorem Keeps.of_ends (hx : ∀ m', m.Peeked m' →
      Ends (x m') (fun _ m'' => m'.Beside m'' ∧ m''.Sound terms rest) (m'.Faulted terms rest)) :
    m.Keeps terms rest x := fun m' hm =>
  (hx m' hm).mono (fun _ _ hg => ⟨hm.beside.trans hg.1, hg.2⟩) fun _ _ hf => hf.of_beside hm.beside

theorem Keeps.yields {f : α → MachineM Value} (hx : m.Keeps terms rest x)
    (hf : ∀ a m', m.Beside m' → m'.Sound terms rest → m'.Yields terms rest (f a)) :
    m.Yields terms rest (x >>= f) := fun m' hm' =>
  (hx m' hm').bind (fun a m'' ha => (hf a m'' ha.1 ha.2 m'' (.refl m'')).mono
    (fun _ _ hg => hg.of_beside ha.1) fun _ _ hf => hf.of_beside ha.1) fun _ _ he => he

/-- A value that names no object needs no count. -/
theorem Sound.add_plain (hm : m.Sound terms rest) (hv : v.obj? = none) : m.Sound terms ({v} + rest) :=
  hm.congr fun id => by
    have hne : Value.obj id ≠ v := fun he => by rw [← he] at hv; cases hv
    rw [Multiset.count_add, Multiset.count_singleton, if_neg hne, zero_add]

theorem Sound.drop_plain (hm : m.Sound terms ({v} + rest)) (hv : v.obj? = none) : m.Sound terms rest :=
  hm.congr fun id => by
    have hne : Value.obj id ≠ v := fun he => by rw [← he] at hv; cases hv
    rw [Multiset.count_add, Multiset.count_singleton, if_neg hne, zero_add]

theorem Peeks.yields {x : MachineM Value} (hm : m.Sound terms rest)
    (hx : m.Peeks x fun v => v.obj? = none) : m.Yields terms rest x := fun m' hm' =>
  (hx m' hm').mono (fun _ _ ha => ⟨ha.1.beside, (hm.peeked ha.1).add_plain ha.2⟩) fun _ _ he =>
    .of_peeked hm he.1 he.2

theorem Yields.pure (hm : m.Sound terms rest) (hv : v.obj? = none) : m.Yields terms rest (Pure.pure v) :=
  Peeks.yields hm (.pure hv)

theorem Yields.fail (hm : m.Sound terms rest) (e : Failure) : m.Yields terms rest (fail e) :=
  Peeks.yields hm (.fail e)

/-! ## Counts -/

theorem Sound.withHeap {held : Multiset Value} {h : Heap} (hm : m.Sound terms held)
    (hon : m.heap.Onward h) (hc : h.Counted terms.stale (m.placed + rest)) :
    Sound { m with heap := h } terms rest :=
  hm.beside (.withHeap hon) hc

theorem Sound.retainValue (hm : m.Sound terms rest) (hk : m.Knows terms v) :
    Sound { m with heap := m.heap.retainValue v } terms ({v} + rest) := by
  refine hm.withHeap (Heap.Shrinks.retainValues m.heap [v]).toOnward ?_
  rw [add_left_comm]
  exact hm.counted.retainValue hk

theorem Knows.retainValue (hk : m.Knows terms v) (w : Value) :
    Knows { m with heap := m.heap.retainValue w } terms v := by
  cases w with
  | obj id => exact fun id' hid hr => (hk id' hid hr.of_retain).modifyOccupant id Occupant.retain
  | _ => exact hk

theorem Sound.retainValues (hm : m.Sound terms rest) (hk : ∀ v ∈ vs, m.Knows terms v) :
    Sound { m with heap := m.heap.retainValues vs } terms (vs + rest) := by
  refine hm.withHeap (Heap.Shrinks.retainValues m.heap vs).toOnward ?_
  rw [add_left_comm]
  exact hm.counted.retainValues fun hr id hid => hk _ hid id rfl hr

theorem Sound.releaseValues (hm : m.Sound terms (vs + rest)) :
    Sound { m with heap := m.heap.releaseValues vs } terms rest := by
  refine hm.withHeap (Heap.Shrinks.releaseValues m.heap vs).toOnward ?_
  have hc := hm.counted
  rw [add_left_comm] at hc
  exact hc.releaseValues

theorem Sound.releaseValue (hm : m.Sound terms ({v} + rest)) :
    Sound { m with heap := m.heap.releaseValue v } terms rest :=
  have hm' : m.Sound terms (([v] : List Value) + rest) := hm
  hm'.releaseValues

theorem Beside.releaseValues (m : Machine) (vs : List Value) :
    m.Beside { m with heap := m.heap.releaseValues vs } :=
  .withHeap (Heap.Shrinks.releaseValues m.heap vs).toOnward

/-- Counts that a fault has left in the machine's hands can be released. -/
theorem Faulted.releaseValues {e : Fault} (hf : m.Faulted terms (vs + rest) e m') :
    m.Faulted terms rest e { m' with heap := m'.heap.releaseValues vs } :=
  ⟨hf.1.trans (.releaseValues m' vs), hf.2.1, hf.2.2.imp_right Sound.releaseValues⟩

theorem owned_yields (hm : m.Sound terms rest) (hk : m.Knows terms v) : m.Yields terms rest (owned v) := by
  rintro _ ⟨pools, -, rfl⟩
  exact ⟨⟨rfl, rfl, rfl, rfl, (Heap.Shrinks.retainValues m.heap [v]).toOnward⟩,
    (hm.retainValue hk).withPools pools⟩

/-! ## New objects -/

/-- The machine finds the metaclasses of the kinds that it makes on its own. -/
theorem metaclassOf_eq_ok (hm : m.image.Ready) {kind : Kind} (hk : kind ∈ MetaclassTable.required) :
    ∃ id, metaclassOf kind m = .ok id m := by
  have hkind := hm.required kind hk
  obtain ⟨i, hi⟩ : ∃ i, m.image.metaclasses.entries.findIdx? (·.kind == kind) = some i := by
    rw [MetaclassTable.hasKind, ← Array.findIdx?_isSome] at hkind
    exact Option.isSome_iff_exists.1 hkind
  refine ⟨UInt16.ofNat i, ?_⟩
  change liftExcept (m.image.metaclasses.idOf kind) m = _
  rw [MetaclassTable.idOf, hi]
  rfl

theorem onHeap_ok {f : HeapM α} {a : α} {h : Heap} (hf : f m.heap = .ok a h) :
    onHeap f m = .ok a { m with heap := h } := by
  rw [onHeap]
  simp only [hf]

theorem onHeap_error {f : HeapM α} {e : HeapError} {h : Heap} (hf : f m.heap = .error e h) :
    onHeap f m = .error (.failed e.failure) { m with heap := h } := by
  rw [onHeap]
  simp only [hf]

theorem onPools_ok {f : Pools → Except Failure α × Pools} {a : α} (hf : (f m.pools).1 = .ok a) :
    onPools f m = .ok a { m with pools := (f m.pools).2 } := by
  unfold onPools
  rcases hr : f m.pools with ⟨_ | b, pools⟩
  · rw [hr] at hf
    cases hf
  · rw [hr] at hf
    obtain rfl := Except.ok.inj hf
    simp only [hr]

theorem onPools_error {f : Pools → Except Failure α × Pools} {e : Failure}
    (hf : (f m.pools).1 = .error e) :
    onPools f m = .error (.failed e) { m with pools := (f m.pools).2 } := by
  unfold onPools
  rcases hr : f m.pools with ⟨e' | b, pools⟩
  · rw [hr] at hf
    obtain rfl := Except.error.inj hf
    simp only [hr]
  · rw [hr] at hf
    cases hf

/-- A new object owns what was in the machine's hands for it. -/
theorem allocate_ends {metaclass : MetaclassId} {body : Body} (hm : m.Sound terms (body.edges + rest)) :
    Ends (allocate metaclass body m)
      (fun v m' => m.Gave terms rest {v} m' ∧ ∃ id, v = .obj id ∧
        m.heap.Allocated ⟨metaclass, body⟩ id m'.heap)
      fun e m' => m.Beside m' ∧ e.Plain ∧ e.isMemory = true := by
  rcases hm.counted.tidy.alloc ⟨metaclass, body⟩ with ⟨id, h, hok, ha⟩ | herr
  · refine Ends.bind_ok (onHeap_ok hok) ⟨⟨.withHeap ha.onward, ?_⟩, id, rfl, ha⟩
    refine hm.withHeap ha.onward ?_
    have hc := hm.counted
    rw [add_left_comm] at hc ⊢
    exact hc.alloc ha
  · exact Ends.bind_error (onHeap_error herr) ⟨.refl m, trivial, rfl⟩

theorem allocate_yields {metaclass : MetaclassId} {body : Body}
    (hm : m.Sound terms (body.edges + rest)) : m.Yields terms rest (allocate metaclass body) :=
  .of_ends fun _ hm' => (allocate_ends (hm.peeked hm')).mono (fun _ _ ha => ha.1)
    fun _ _ he => ⟨he.1, he.2.1, .inl he.2.2⟩

/-- What a new object is to hold is taken into the machine's hands first. -/
theorem Yields.retainValues (hm : m.Sound terms rest) (hk : ∀ v ∈ vs, m.Knows terms v) {x : MachineM Value}
    (hx : ∀ m' : Machine, m'.Sound terms (vs + rest) → m'.Yields terms rest x) :
    m.Yields terms rest (modifyHeap (·.retainValues vs) >>= fun _ => x) := by
  refine .of_ends fun m' hm' => Ends.bind_ok rfl ?_
  have hk' : ∀ v ∈ vs, m'.Knows terms v := fun v hv => (hk v hv).peeked hm'
  refine (hx _ ((hm.peeked hm').retainValues hk') _ (.refl _)).mono
    (fun _ _ hg => hg.of_beside ?_) fun _ _ hf => hf.of_beside ?_
  all_goals exact .withHeap (Heap.Shrinks.retainValues m'.heap vs).toOnward

/-- A metaclass that the machine needs is there. -/
theorem Yields.metaclassOf (hm : m.Sound terms rest) {kind : Kind} (hk : kind ∈ MetaclassTable.required)
    {f : MetaclassId → MachineM Value} (hf : ∀ id, m.Yields terms rest (f id)) :
    m.Yields terms rest (metaclassOf kind >>= f) := fun m' hm' => by
  obtain ⟨id, hid⟩ := metaclassOf_eq_ok (hm.peeked hm').ready hk
  exact Ends.bind_ok hid (hf id m' hm')

/-- A string needs nothing but room. -/
theorem newString_ends (hm : m.Sound terms rest) (text : String) :
    Ends (newString text m)
      (fun v m' => m.Gave terms rest {v} m' ∧
        ∀ id, m.heap.contains id = true → m'.heap.get? id = m.heap.get? id)
      fun e m' => m.Beside m' ∧ e.Plain ∧ e.isMemory = true := by
  have hstring : Kind.string ∈ MetaclassTable.required := by decide
  obtain ⟨metaclass, hmetaclass⟩ := metaclassOf_eq_ok hm.ready hstring
  have hedges : m.Sound terms ((Body.string text).edges + rest) := by simpa [Body.edges] using hm
  have hallocate := @allocate_ends _ _ _ metaclass _ hedges
  refine Ends.bind_ok hmetaclass (hallocate.mono (fun v m' ha => ?_) fun _ _ he => he)
  obtain ⟨hgave, new, -, ha⟩ := ha
  exact ⟨hgave, fun id hid => ha.get?_eq hid⟩

theorem newString_yields (hm : m.Sound terms rest) (text : String) :
    m.Yields terms rest (newString text) :=
  .of_ends fun _ hm' => (newString_ends (hm.peeked hm') text).mono (fun _ _ hg => hg.1)
    fun _ _ he => ⟨he.1, he.2.1, .inl he.2.2⟩

theorem newList_yields (hm : m.Sound terms rest) (hk : ∀ v ∈ vs, m.Knows terms v) :
    m.Yields terms rest (newList vs) :=
  .metaclassOf hm (by decide) fun _ => .retainValues hm hk fun _ hm' => allocate_yields hm'

/-! ## Changes to objects -/

/-- A change to an object takes what it is given and hands out what it takes out,
    or fails and does nothing. -/
theorem onHeap_edits {f : HeapM α} {id : ObjectId} {given : List Value} {taken : α → List Value}
    (he : Heap.EditsAt f m.heap id given taken) (hm : m.Sound terms (given + rest)) :
    Ends (onHeap f m) (fun a => m.Gave terms rest (taken a)) fun e m' => m' = m ∧ e.Plain := by
  rcases he with ⟨e, herr⟩ | ⟨a, h, hok, hedit | ⟨rfl, rfl, htaken⟩⟩
  · rw [onHeap_error herr]
    exact ⟨rfl, trivial⟩
  · rw [onHeap_ok hok]
    refine ⟨.withHeap hedit.onward, hm.withHeap hedit.onward ?_⟩
    have hc := hm.counted
    rw [add_left_comm] at hc ⊢
    exact hc.edit hedit
  · rw [onHeap_ok hok]
    refine ⟨.refl m, ?_⟩
    rw [htaken]
    exact hm

/-- What a change is given goes to the object, or is released. -/
theorem onHeap_gives {f : HeapM α} {cleanup : MachineM Unit} {id : ObjectId} {given : List Value}
    (he : Heap.EditsAt f m.heap id given fun _ => []) (hm : m.Sound terms (given + rest))
    (hcleanup : ∀ m', cleanup m' = .ok () { m' with heap := m'.heap.releaseValues given }) :
    Ends (onFault (onHeap f) cleanup m) (fun _ m' => m.Beside m' ∧ m'.Sound terms rest)
      (m.Faulted terms rest) := by
  refine Ends.onFault ((onHeap_edits he hm).mono (fun _ _ hg => ⟨hg.1, ?_⟩) fun _ _ he => he) ?_
  · simpa using hg.2
  · rintro e _ ⟨rfl, hplain⟩
    exact ⟨_, hcleanup _, Faulted.releaseValues ⟨.refl _, hplain, .inr hm⟩⟩

end Machine

end StoryMachine
