import StoryMachine.Code.Assembler
import StoryMachine.Image.Draft
import StoryMachine.Proofs.Heap.Ages
import StoryMachine.Proofs.Heap.Restored
import StoryMachine.Proofs.Image.Loader
import StoryMachine.Proofs.Machine.Parts

/-!
# New objects that fail

A new list, vector, table or program object holds values, of which it owns counts. The
counts are taken before the object gets its slot, and if there is no slot left then nothing
takes them back. All other ways in which it can fail come before.

* `Heap.Gains`: a value of which one more count can be taken;
* `Heap.retainValues_eq_iff`: when taking counts changes nothing;
* `Creation`: the new objects that take counts;
* `Creation.run_ends`: how they fail;
* `Creation.leaves_heap_iff`: when the object table is left alone.
-/

namespace StoryMachine

namespace Occupant

/-- Several counts more are no change only if there is no larger number of them. -/
theorem isFull_of_iterate_retain {o : Occupant} {n : Nat} (hn : 0 < n)
    (ho : Occupant.retain^[n] o = o) : o.isFull = true := by
  have hrefs := toNat_refs_iterate_retain o n
  have hlt := o.refs.toNat_lt
  rw [ho] at hrefs
  have hmax : o.refs.toNat = (0xFFFFFFFF : UInt32).toNat := by
    have hvalue : (0xFFFFFFFF : UInt32).toNat = 4294967295 := rfl
    omega
  exact beq_iff_eq.2 (UInt32.toNat_inj.1 hmax)

end Occupant

namespace Heap

variable {h : Heap} {v : Value} {vs : List Value}

/-- The value names an object of which one more count can be taken. -/
def Gains (h : Heap) (v : Value) : Prop :=
  ∃ id o, v = .obj id ∧ h.occupant? id = some o ∧ o.isFull = false

/-- If no count can be taken, none is. -/
theorem retainValue_of_not_gains (hv : ¬h.Gains v) :
    ∃ saturated, h.retainValue v = { h with saturated } := by
  cases v with
  | obj id =>
    have hsame : h.modifyOccupant id Occupant.retain = h := by
      refine modifyOccupant_eq_self fun o ho => ?_
      have hfull : o.isFull = true := by
        by_contra hfull
        exact hv ⟨id, o, rfl, ho, Bool.eq_false_iff.2 hfull⟩
      rw [Occupant.retain, if_pos hfull]
    refine ⟨h.saturated || (h.occupant? id).any Occupant.isFull, ?_⟩
    rw [retainValue, retain, hsame]
  | _ => exact ⟨h.saturated, rfl⟩

/-- Taking counts changes nothing exactly if none can be taken. -/
theorem retainValues_eq_iff :
    (∃ saturated, h.retainValues vs = { h with saturated }) ↔ ∀ v ∈ vs, ¬h.Gains v := by
  refine ⟨fun ⟨saturated, heq⟩ v hv ⟨id, o, hid, ho, hfull⟩ => ?_, fun hvs => ?_⟩
  · have hcount : 0 < vs.count (.obj id) := List.count_pos_iff.2 (hid ▸ hv)
    have hsame : (h.retainValues vs).occupant? id = some o := by
      rw [heq]
      exact ho
    rw [occupant?_retainValues, ho, Option.map_some, Option.some.injEq] at hsame
    rw [Occupant.isFull_of_iterate_retain hcount hsame] at hfull
    cases hfull
  · induction vs generalizing h with
    | nil => exact ⟨h.saturated, rfl⟩
    | cons v vs ih =>
      obtain ⟨hv, hvs⟩ := List.forall_mem_cons.1 hvs
      obtain ⟨saturated, hstep⟩ := retainValue_of_not_gains hv
      rw [retainValues, List.foldl_cons, ← retainValues, hstep]
      exact ih hvs

/-- What fails for want of a slot has changed nothing. -/
theorem alloc_ends (object : Object) (h : Heap) : Ends (alloc object h) (fun _ _ => True)
    fun e h' => e = .outOfMemory h.settings.maxObjects ∧ h' = h := by
  cases hfree : h.free with
  | cons n rest =>
    rw [alloc_of_cons hfree]
    trivial
  | nil =>
    by_cases hfull : h.settings.maxObjects ≤ UInt32.ofNat h.slots.size
    · rw [alloc_of_full hfree hfull]
      exact ⟨rfl, rfl⟩
    · rw [alloc_of_nil hfree hfull]
      trivial

end Heap

/-! ## Before counts are taken -/

section Checks

variable {α β : Type} {x : MachineM α} {f : α → MachineM β}

/-- The part only checks what it has been given, and needs no memory. -/
def Checks (x : MachineM α) : Prop := ∀ m : Machine,
  Ends (x m) (fun _ m' => m' = m) fun e m' => m' = m ∧ e.isMemory = false

theorem Checks.pure (a : α) : Checks (Pure.pure a) := fun _ => rfl

theorem Checks.fail {failure : Failure} (hcode : (failure.code == .outOfMemory) = false) :
    Checks (StoryMachine.fail failure : MachineM α) := fun _ => ⟨rfl, hcode⟩

theorem Checks.bind (hx : Checks x) (hf : ∀ a, Checks (f a)) : Checks (x >>= f) := fun m => by
  refine (hx m).bind (fun a m' hm' => ?_) fun _ _ he => he
  subst hm'
  exact hf a m'

theorem Checks.mapM (hf : ∀ a, Checks (f a)) (xs : List α) : Checks (xs.mapM f) := by
  induction xs with
  | nil =>
    rw [List.mapM_nil]
    exact .pure _
  | cons a xs ih =>
    rw [List.mapM_cons]
    exact (hf a).bind fun _ => ih.bind fun _ => .pure _

theorem expectObject_checks (v : Value) : Checks (expectObject v) := by
  cases v <;> first | exact .pure _ | exact .fail rfl

theorem deref_checks (id : ObjectId) : Checks (deref id) := fun m => by
  refine Ends.get ?_
  unfold Heap.deref
  split
  · exact rfl
  · exact ⟨rfl, rfl⟩

theorem metaclassOf_checks (kind : Kind) : Checks (metaclassOf kind) := fun m => by
  refine Ends.get ?_
  unfold MetaclassTable.idOf
  split
  · exact rfl
  · exact ⟨rfl, rfl⟩

end Checks

/-! ## New objects -/

/-- A new object that takes counts of the values that it holds. -/
inductive Creation where
  /-- A list. -/
  | list (items : List Value)
  /-- A program object without properties. -/
  | program (supers : List ObjectId)
  /-- What `new` makes of its arguments. A string holds no values. -/
  | construct (metaclass : MetaclassId) (kind : Kind) (hkind : kind ≠ .string) (args : List Value)

namespace Creation

/-- Makes the object. -/
def run : Creation → MachineM Value
  | list items => newList items
  | program supers => newProgram supers
  | construct metaclass kind _ args => StoryMachine.construct metaclass kind args

/-- The values of which counts are taken. -/
def taken : Creation → List Value
  | list items => items
  | program supers => supers.map .obj
  | construct _ .table _ args => ((entriesOf? [] args).map fun entries => (Body.table entries).edges).getD []
  | construct _ _ _ args => args

variable {c : Creation} {m m' : Machine} {e : Fault}

/-- If there is no slot left, then the counts have been taken. -/
theorem takes_ends (vs : List Value) (metaclass : MetaclassId) (body : Body) (m : Machine) :
    Ends ((modifyHeap (·.retainValues vs) >>= fun _ => allocate metaclass body) m) (fun _ _ => True)
      fun e m' => e.isMemory = true ∧ m' = { m with heap := m.heap.retainValues vs } := by
  refine Ends.bind_ok rfl ?_
  have halloc := Heap.alloc_ends ⟨metaclass, body⟩ (m.heap.retainValues vs)
  cases hr : Heap.alloc ⟨metaclass, body⟩ (m.heap.retainValues vs) with
  | ok id h => exact Ends.bind_ok (Machine.onHeap_ok hr) trivial
  | error e h =>
    rw [hr] at halloc
    obtain ⟨rfl, rfl⟩ := halloc
    exact Ends.bind_error (Machine.onHeap_error hr) ⟨rfl, rfl⟩

/-- All else that can be wrong is found before. -/
theorem run_ends (c : Creation) (m : Machine) : Ends (c.run m) (fun _ _ => True) fun e m' =>
    m' = { m with heap := if e.isMemory then m.heap.retainValues c.taken else m.heap } := by
  have htakes (vs : List Value) (metaclass : MetaclassId) (body : Body) :
      Ends ((modifyHeap (·.retainValues vs) >>= fun _ => allocate metaclass body) m)
        (fun _ _ => True) fun e m' =>
          m' = { m with heap := if e.isMemory then m.heap.retainValues vs else m.heap } :=
    (takes_ends vs metaclass body m).mono (fun _ _ h => h) fun e m' ⟨he, hm'⟩ => by
      rw [if_pos he, hm']
  have hchecks {e : Fault} {m' : Machine} {vs : List Value} (he : m' = m ∧ e.isMemory = false) :
      m' = { m with heap := if e.isMemory then m.heap.retainValues vs else m.heap } := by
    rw [he.1, he.2]
    rfl
  cases c with
  | list items =>
    refine (metaclassOf_checks .list m).bind (fun metaclass m' hm' => ?_) fun _ _ => hchecks
    subst hm'
    exact htakes items metaclass _
  | program supers =>
    refine (metaclassOf_checks .program m).bind (fun metaclass m' hm' => ?_) fun _ _ => hchecks
    subst hm'
    exact htakes (supers.map .obj) metaclass _
  | construct metaclass kind hkind args =>
    cases kind with
    | program =>
      have hsupers : Checks (args.mapM fun v => do
          let id ← expectObject v
          let _ ← deref id
          return id) :=
        .mapM (fun v => (expectObject_checks v).bind fun id => (deref_checks id).bind fun _ => .pure id) args
      refine (hsupers m).bind (fun supers m' hm' => ?_) fun _ _ => hchecks
      subst hm'
      exact htakes args metaclass _
    | list => exact htakes args metaclass _
    | vector => exact htakes args metaclass _
    | string => exact absurd rfl hkind
    | table =>
      -- Keys that come twice are found before the values are taken.
      rw [run, StoryMachine.construct, taken]
      cases hentries : entriesOf? [] args with
      | none => exact hchecks ⟨rfl, rfl⟩
      | some entries => exact htakes (Body.table entries).edges metaclass _

/-- When a new object fails, nothing has changed but the object table, and that only if there
    was no slot left and a count could be taken of one of the values. -/
theorem leaves_heap_iff (herr : c.run m = .error e m') :
    m' = { m with heap := m'.heap } ∧
      m'.heap = (if e.isMemory then m.heap.retainValues c.taken else m.heap) ∧
      ((∃ saturated, m'.heap = { m.heap with saturated }) ↔
        (e.isMemory = true → ∀ v ∈ c.taken, ¬m.heap.Gains v)) := by
  have hends := c.run_ends m
  rw [herr] at hends
  obtain rfl := hends
  refine ⟨rfl, rfl, ?_⟩
  dsimp only
  cases e.isMemory with
  | true => simpa using Heap.retainValues_eq_iff
  | false => exact ⟨fun _ => nofun, fun _ => ⟨m.heap.saturated, rfl⟩⟩

/-- An image with an empty list, and a program that does nothing. -/
def oneList : Bytes :=
  let program := [Instr.retNil].foldl Assembler.emit (Assembler.method {})
  ImageDraft.encode {
    metaclasses := #[("list", [])]
    code := program.finish.toArray
    objects := #[⟨1, 0, [0, 0]⟩]
    entry? := some 0 }

/-- There is room for one object. -/
def small : MachineSettings := { heap := { maxObjects := 2 } }

/-- The list in the image is put into a list for which there is no room, and the count stays. -/
theorem leaves_heap_iff_oneList : ∃ m e m', Machine.load oneList small {} = .ok m ∧
    (list [.obj ⟨1, 0⟩]).run m = .error e m' ∧ e.isMemory = true ∧
    m.heap.refCount? ⟨1, 0⟩ = some 0 ∧ m'.heap.refCount? ⟨1, 0⟩ = some 1 ∧
    ¬∃ saturated, m'.heap = { m.heap with saturated } := by
  have hrun : (Machine.load oneList small {}).toOption.any (fun m =>
      match (list [.obj ⟨1, 0⟩]).run m with
      | .ok _ _ => false
      | .error e m' => e.isMemory && m.heap.refCount? ⟨1, 0⟩ == some 0 &&
        m'.heap.refCount? ⟨1, 0⟩ == some 1) = true := by decide +kernel
  obtain ⟨m, hload, hrun⟩ := Machine.exists_load_of_any hrun
  cases herr : (list [.obj ⟨1, 0⟩]).run m with
  | ok v m' => simp [herr] at hrun
  | error e m' =>
    simp only [herr, Bool.and_eq_true, beq_iff_eq] at hrun
    obtain ⟨⟨hmemory, hbefore⟩, hafter⟩ := hrun
    refine ⟨m, e, m', hload, herr, hmemory, hbefore, hafter, fun hsame => ?_⟩
    have hfull := (leaves_heap_iff herr).2.2.1 hsame hmemory (.obj ⟨1, 0⟩) List.mem_cons_self
    obtain ⟨o, ho, hrefs⟩ := Option.map_eq_some_iff.1 hbefore
    exact hfull ⟨_, o, rfl, ho, by rw [Occupant.isFull, hrefs]; rfl⟩

/-- So the counts are not always left alone. -/
theorem not_leaves_heap : ¬∀ (bs : Bytes) (settings : MachineSettings) (host : Host)
    (m m' : Machine) (c : Creation) (e : Fault), Machine.load bs settings host = .ok m →
      c.run m = .error e m' → m'.heap.refCount? = m.heap.refCount? := by
  have hrun : (Machine.load oneList small {}).toOption.any (fun m =>
      match (list [.obj ⟨1, 0⟩]).run m with
      | .ok _ _ => false
      | .error _ m' => m'.heap.refCount? ⟨1, 0⟩ != m.heap.refCount? ⟨1, 0⟩) = true := by
    decide +kernel
  obtain ⟨m, hload, hrun⟩ := Machine.exists_load_of_any hrun
  intro hsame
  cases herr : (list [.obj ⟨1, 0⟩]).run m with
  | ok v m' => simp [herr] at hrun
  | error e m' =>
    rw [herr] at hrun
    exact bne_iff_ne.1 hrun (congrFun (hsame _ _ _ m m' _ e hload herr) ⟨1, 0⟩)

end Creation

end StoryMachine
