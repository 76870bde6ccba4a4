import StoryMachine.Proofs.Machine.Values
import StoryMachine.Proofs.Pool.Pins

/-!
# How parts that look end

A part that only looks at the machine may read constants, and if pages are read on
demand then it leaves others in memory than it has found. This has no influence on the
next part: as long as the pages stay what they are, how a part ends depends on the
machine alone, whatever has been read before.

* `Machine.outcome`, `Machine.Hangs`: how a part ends, and that it does not;
* `Machine.Looks`: parts that look, with the faults in which they may end;
* `Looks.outcome_bind`: one part after the other;
* `stringValue_looks`, `listItems_looks`, `immutableItems_looks`: what is looked at.
-/

namespace StoryMachine

/-- How a part ends that is done on the machine. -/
def Machine.outcome {α : Type} (m : Machine) (x : MachineM α) : Except Fault α :=
  match x m with
  | .ok a _ => .ok a
  | .error e _ => .error e

/-- The part has no end. -/
def Machine.Hangs {α : Type} (m : Machine) (x : MachineM α) : Prop := m.outcome x = .error .endless

/-- The machine after some of its constants have been read. -/
def Machine.Later (m m' : Machine) : Prop :=
  ∃ constant, m.pools.constant.Later constant ∧ m' = { m with pools := { m.pools with constant } }

/-- The part reads no more than constants, and ends the same whichever have been read
    before. If it faults, then in one of the ways in `E`. -/
def Machine.Looks {α : Type} (m : Machine) (E : Fault → Prop) (x : MachineM α) : Prop :=
  ∀ m', m.Later m' → Ends (x m') (fun a m'' => m.outcome x = .ok a ∧ m.Later m'')
    fun e m'' => m.outcome x = .error e ∧ m.Later m'' ∧ E e

namespace Machine

variable {α β : Type} {m m' : Machine} {E F : Fault → Prop} {x : MachineM α} {f : α → MachineM β}

theorem Later.refl (m : Machine) : m.Later m := ⟨_, .refl, rfl⟩

theorem Looks.mono (hx : m.Looks E x) (hE : ∀ e, E e → F e) : m.Looks F x := fun m' hm' =>
  (hx m' hm').mono (fun _ _ ha => ha) fun e _ he => ⟨he.1, he.2.1, hE e he.2.2⟩

theorem Looks.outcome_eq (hx : m.Looks E x) (hm' : m.Later m') : m'.outcome x = m.outcome x := by
  have hends := hx m' hm'
  unfold outcome
  cases hr : x m' with
  | ok a m'' => rw [hr] at hends; exact hends.1.symm
  | error e m'' => rw [hr] at hends; exact hends.1.symm

theorem fault_of_ends {Q : α → Machine → Prop} (hx : Ends (x m) Q fun e _ => E e) {e : Fault}
    (he : m.outcome x = .error e) : E e := by
  unfold outcome at he
  cases hr : x m with
  | ok a m' => rw [hr] at he; cases he
  | error e' m' =>
    rw [hr] at he hx
    exact Except.error.inj he ▸ hx

theorem exists_ok_of_outcome {a : α} (hok : m.outcome x = .ok a) : ∃ m', x m = .ok a m' := by
  unfold outcome at hok
  cases hr : x m with
  | ok a' m' =>
    rw [hr] at hok
    exact ⟨m', by rw [Except.ok.inj hok]⟩
  | error e m' =>
    rw [hr] at hok
    cases hok

theorem Looks.fault (hx : m.Looks E x) {e : Fault} (he : m.outcome x = .error e) : E e :=
  fault_of_ends ((hx m (.refl m)).mono (fun _ _ ha => ha) fun _ _ he => he.2.2) he

theorem Looks.exists_later {a : α} (hx : m.Looks E x) (hm' : m.Later m') (hok : m.outcome x = .ok a) :
    ∃ m'', m.Later m'' ∧ x m' = .ok a m'' := by
  have hends := hx m' hm'
  rw [hok] at hends
  cases hr : x m' with
  | ok a' m'' =>
    rw [hr] at hends
    obtain rfl := Except.ok.inj hends.1
    exact ⟨m'', hends.2, rfl⟩
  | error e m'' =>
    rw [hr] at hends
    cases hends.1

theorem Looks.exists_outcome_of_bind {c : β} (hx : m.Looks E x) (hm' : m.Later m')
    (hok : m'.outcome (x >>= f) = .ok c) :
    ∃ a m'', m.outcome x = .ok a ∧ m.Later m'' ∧ m''.outcome (f a) = .ok c := by
  have hends := hx m' hm'
  cases hr : x m' with
  | ok a m'' =>
    rw [hr] at hends
    rw [outcome, bind_eq_of_ok hr] at hok
    exact ⟨a, m'', hends.1, hends.2, hok⟩
  | error e m'' =>
    rw [outcome, bind_eq_of_error hr] at hok
    cases hok

theorem Looks.outcome_bind (hx : m.Looks E x) (hf : ∀ a, m.Looks E (f a)) :
    m.outcome (x >>= f) = m.outcome x >>= fun a => m.outcome (f a) := by
  have hends := hx m (.refl m)
  cases hr : x m with
  | ok a m' =>
    rw [hr] at hends
    have hbind : m.outcome (x >>= f) = m'.outcome (f a) := by
      rw [outcome, outcome, bind_eq_of_ok hr]
    rw [hbind, hends.1, (hf a).outcome_eq hends.2]
    rfl
  | error e m' =>
    rw [hr] at hends
    have hbind : m.outcome (x >>= f) = .error e := by rw [outcome, bind_eq_of_error hr]
    rw [hbind, hends.1]
    rfl

theorem Looks.bind (hx : m.Looks E x) (hf : ∀ a, m.Looks E (f a)) : m.Looks E (x >>= f) := by
  intro m' hm'
  rw [hx.outcome_bind hf]
  refine (hx m' hm').bind (fun a m'' ha => ?_) fun e m'' he => ?_
  · rw [ha.1]
    exact hf a m'' ha.2
  · rw [he.1]
    exact ⟨rfl, he.2⟩

/-- A part whose result does not depend on the constants at all. -/
theorem Looks.of_conclude {r : Except Fault α} (hr : ∀ e, r = .error e → E e)
    (hx : ∀ m', m.Later m' → x m' = conclude r m') : m.Looks E x := by
  intro m' hm'
  rw [outcome, hx m (.refl m), hx m' hm']
  cases r with
  | ok a => exact ⟨rfl, hm'⟩
  | error e => exact ⟨rfl, hm', hr e rfl⟩

theorem Looks.pure (a : α) : m.Looks E (Pure.pure a) :=
  .of_conclude (r := .ok a) (by simp) fun _ _ => rfl

theorem Looks.endless (hE : E .endless) : m.Looks E (throw .endless : MachineM α) :=
  .of_conclude (r := .error .endless) (by simpa using hE) fun _ _ => rfl

theorem Looks.allM {f : α → MachineM Bool} (hf : ∀ a, m.Looks E (f a)) (xs : List α) :
    m.Looks E (xs.allM f) := by
  induction xs with
  | nil => exact .pure true
  | cons a xs ih =>
    refine (hf a).bind fun passed => ?_
    cases passed with
    | true => exact ih
    | false => exact .pure false

theorem outcome_allM {f : α → MachineM Bool} (hf : ∀ a, m.Looks E (f a)) (xs : List α) :
    m.outcome (xs.allM f) = xs.allM fun a => m.outcome (f a) := by
  induction xs with
  | nil => rfl
  | cons a xs ih =>
    refine ((hf a).outcome_bind fun passed => ?_).trans (bind_congr fun passed => ?_)
    · cases passed with
      | true => exact .allM hf xs
      | false => exact .pure false
    · cases passed with
      | true => exact ih
      | false => rfl

theorem Looks.anyM {f : α → MachineM Bool} {xs : List α} (hf : ∀ a ∈ xs, m.Looks E (f a)) :
    m.Looks E (xs.anyM f) := by
  induction xs with
  | nil => exact .pure false
  | cons a xs ih =>
    rw [List.forall_mem_cons] at hf
    refine hf.1.bind fun found => ?_
    cases found with
    | true => exact .pure true
    | false => exact ih hf.2

theorem Looks.filterM {f : α → MachineM Bool} {xs : List α} (hf : ∀ a ∈ xs, m.Looks E (f a)) :
    m.Looks E (xs.filterM f) := by
  have haux (ys acc : List α) (hys : ∀ a ∈ ys, m.Looks E (f a)) :
      m.Looks E (List.filterAuxM f ys acc) := by
    induction ys generalizing acc with
    | nil => exact .pure acc
    | cons a ys ih =>
      rw [List.forall_mem_cons] at hys
      exact hys.1.bind fun _ => ih _ hys.2
  exact (haux xs [] hf).bind fun ys => .pure ys.reverse

theorem hangs_bind_pure_iff (x : MachineM α) (g : α → β) :
    m.Hangs (x >>= fun a => Pure.pure (g a)) ↔ m.Hangs x := by
  unfold Hangs outcome
  cases hr : x m with
  | ok a m' => rw [bind_eq_of_ok hr]; exact ⟨nofun, nofun⟩
  | error e m' => rw [bind_eq_of_error hr]; simp

/-! ## What is looked at -/

/-- Reading a constant fails or not, but does not go on forever. -/
theorem readConstant_looks (hm : m.pools.constant.Steady) (ofs : UInt32)
    (g : Slice → Except Failure α) :
    m.Looks (· ≠ .endless)
      (onPools fun ps => ((ps.constantSlice ofs).1.bind g, (ps.constantSlice ofs).2)) := by
  rintro _ ⟨constant, hlater, rfl⟩
  have hsame := hm constant hlater ofs
  unfold outcome onPools Pools.constantSlice
  dsimp only
  rw [hsame]
  cases (m.pools.constant.slice ofs).1.bind g with
  | ok a => exact ⟨rfl, _, hlater.slice ofs, rfl⟩
  | error e => exact ⟨rfl, ⟨_, hlater.slice ofs, rfl⟩, nofun⟩

theorem deref_looks (m : Machine) (id : ObjectId) : m.Looks (· ≠ .endless) (deref id) := by
  refine .of_conclude (r := (m.heap.deref id).mapError (.failed ·.failure)) (fun e he => ?_) ?_
  · cases ho : m.heap.deref id with
    | ok o => rw [ho] at he; cases he
    | error e' => rw [ho] at he; cases he; nofun
  · rintro _ ⟨constant, -, rfl⟩
    rw [deref, bind_eq_of_ok (x := get) rfl]
    dsimp only
    cases m.heap.deref id <;> rfl

theorem get?_of_deref {id : ObjectId} {o : Object} (hok : m.outcome (deref id) = .ok o) :
    m.heap.get? id = some o := by
  have hends := deref_peeks id m (.refl m)
  unfold outcome at hok
  cases hr : deref id m with
  | ok o' m' =>
    rw [hr] at hok hends
    exact Except.ok.inj hok ▸ hends.2
  | error e m' =>
    rw [hr] at hok
    cases hok

theorem stringValue_looks (hm : m.pools.constant.Steady) (v : Value) :
    m.Looks (· ≠ .endless) (stringValue v) := by
  unfold stringValue
  split
  · exact (readConstant_looks hm _ _).bind fun _ => .pure _
  · refine (deref_looks m _).bind fun o => ?_
    split <;> exact .pure _
  · exact .pure _

theorem listItems_looks (hm : m.pools.constant.Steady) (v : Value) :
    m.Looks (· ≠ .endless) (listItems v) := by
  unfold listItems
  split
  · exact (readConstant_looks hm _ _).bind fun _ => .pure _
  · refine (deref_looks m _).bind fun o => ?_
    split <;> exact .pure _
  · exact .pure _

theorem immutableItems_looks (hm : m.pools.constant.Steady) (v : Value) :
    m.Looks (· ≠ .endless) (immutableItems v) := by
  unfold immutableItems
  split
  · refine (deref_looks m _).bind fun o => ?_
    split <;> exact .pure _
  · exact listItems_looks hm v

/-- A new list may find no room, but it is made or not. -/
theorem newList_ends (m : Machine) (items : List Value) :
    Ends (newList items m) (fun _ _ => True) fun e _ => e ≠ .endless := by
  refine Ends.bind (Q := fun _ _ => True) (E := fun e _ => e ≠ .endless) ?_ (fun metaclass m' _ => ?_)
    fun _ _ he => he
  · change Ends (liftExcept (m.image.metaclasses.idOf .list) m) _ _
    cases m.image.metaclasses.idOf .list with
    | ok id => trivial
    | error e => exact nofun
  · refine Ends.bind_ok rfl ?_
    cases hr : Heap.alloc ⟨metaclass, .list items⟩ (m'.heap.retainValues items) with
    | ok id h => exact Ends.bind_ok (onHeap_ok hr) trivial
    | error e h => exact Ends.bind_error (onHeap_error hr) nofun

end Machine

end StoryMachine
