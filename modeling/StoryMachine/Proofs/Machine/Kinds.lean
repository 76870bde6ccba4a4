import StoryMachine.Code.Assembler
import StoryMachine.Image.Draft
import StoryMachine.Proofs.Machine.Life

/-!
# Receivers of native methods

A native method is found by the metaclass of its receiver. As objects are of
metaclasses for their kinds, the receiver is of the kind that the method is for, and no
method ever finds a value of another type in its place. To say so, turns are taken in
which each method is called in a given way, and the way that has a check of the
receiver in it makes no difference.

* `turnBy`: a turn with methods called in a given way;
* `NativeMethod.callIfFitting`: a call with a check of the receiver before it;
* `Life.Reachable.receivers_fit`: whole runs.
-/

namespace StoryMachine

/-! ## What methods expect -/

namespace NativeMethod

/-- The kind of objects that a method is for. -/
def kind : NativeMethod → Kind
  | createInstance | ofKind | superclassList | propDefined => .program
  | listLength | car | cdr | listIndexOf | listAppend | sublist => .list
  | vectorLength | vectorAppend | removeElementAt | toList | vectorIndexOf => .vector
  | stringLength | toUpper | toLower | substr | find => .string
  | isKeyPresent | removeElement | keysToList | valsToList | entryCount => .table

theorem kind_of_mem {method : NativeMethod} {kind : Kind} (h : method ∈ kind.methods) :
    method.kind = kind := by
  revert h
  cases kind <;> cases method <;> decide

end NativeMethod

/-- A value was of a wrong type. -/
def Fault.isBadType : Fault → Bool
  | failed f => f.code == .badType
  | _ => false

/-- Reads a receiver as the methods of a kind do. -/
def Kind.receive (kind : Kind) (this : Value) : MachineM Unit := do
  match kind with
  | program =>
    let _ ← expectObject this
  | list =>
    let _ ← expectList this
  | vector =>
    let _ ← vectorItems this
  | string =>
    let _ ← expectString this
  | table =>
    let _ ← tableEntries this

namespace NativeMethod

section Receive

variable {α β : Type} {method : NativeMethod} {this : Value} {args : List Value} {m m' : Machine}
  {e : Fault}

theorem bind_error_of_receive {x : MachineM α} {f : α → MachineM β}
    (he : (x >>= fun _ => pure ()) m = .error e m') : (x >>= f) m = .error e m' := by
  change EStateM.bind x _ m = _ at he
  change EStateM.bind x f m = _
  unfold EStateM.bind at he ⊢
  cases hx : x m with
  | ok a m'' =>
    rw [hx] at he
    cases he
  | error e' m'' =>
    rw [hx] at he
    obtain ⟨rfl, rfl⟩ := EStateM.Result.error.inj he
    rfl

/-- There is a first argument if the method takes one. -/
theorem argument_of_check (hargs : method.arity.check args.length = .ok ())
    (hmin : method.arity.min = 1) : ∃ v, argument args 0 = pure v := by
  unfold Arity.check at hargs
  split at hargs
  · next h =>
    rw [hmin] at h
    obtain ⟨v, vs, rfl⟩ := List.exists_cons_of_length_pos h.1
    exact ⟨v, rfl⟩
  · cases hargs

/-- Reading the receiver is the first thing that can fail in a method, once the number
    of arguments is right. -/
theorem call_of_receive (hargs : method.arity.check args.length = .ok ())
    (he : method.kind.receive this m = .error e m') : method.call this args m = .error e m' := by
  cases method with
  | isKeyPresent | removeElement =>
    obtain ⟨v, hv⟩ := argument_of_check hargs rfl
    unfold call
    simp only [hv, pure_bind]
    exact bind_error_of_receive he
  | _ => exact bind_error_of_receive he

end Receive

/-- Whether the receiver of a method is of the kind that the method is for, and the method
    does not find it to be of a wrong type. -/
def fits (method : NativeMethod) (this : Value) (m : Machine) : Bool :=
  m.kindOf? this == some method.kind &&
    match method.kind.receive this m with
    | .ok _ _ => true
    | .error e _ => !e.isBadType

/-- Calls a method if its receiver is a fitting one. What happens otherwise is given. -/
def callIfFitting (wrong : MachineM Value) (method : NativeMethod) (this : Value)
    (args : List Value) : MachineM Value := fun m =>
  if method.fits this m then method.call this args m else wrong m

end NativeMethod

/-! ## Turns with methods called in a given way -/

section By

variable (call : NativeMethod → Value → List Value → MachineM Value)

/-- Calls a native method with the top operands as arguments. -/
def callNativeBy (method : NativeMethod) (this : Value) (argc : Nat) : MachineM Unit :=
  let body : MachineM Unit := do
    liftExcept (method.arity.check argc)
    callWithArgs argc (call method this)
  andAfter body (releaseValue this)

/-- Evaluates a property with the top operands as arguments. -/
def invokeBy (target : Value) (p : PropId) (argc : Nat) : MachineM Unit := do
  match ← onFault (resolve target p) (releaseValue target) with
  | .method ofs holder => enterMethod ofs holder target p argc
  | .data v =>
    let v ← owned v
    releaseValue target
    if 0 < argc then
      releaseValue v
      fail Arity.mismatch
    push v
  | .native method => callNativeBy call method target argc

/-- Evaluates a property as it is inherited. -/
def invokeInheritedBy (p : PropId) (argc : Nat) : MachineM Unit := do
  let f ← currentFrame
  match f.self, f.definer? with
  | .obj self, some definer =>
    match Inheritance.lookupInherited (← get).heap.source self definer p with
    | some found =>
      match Resolved.ofFound found with
      | .method ofs holder => enterMethod ofs holder (← owned f.self) p argc
      | _ =>
        if 0 < argc then fail Arity.mismatch
        push (← owned found.value)
    | none =>
      let metaclass := (← deref self).metaclass
      match (← get).image.metaclasses.native? metaclass p with
      | some method => callNativeBy call method (← owned f.self) argc
      | none => fail ⟨.undefinedProperty, [toString p.toNat]⟩
  | _, _ => fail ⟨.undefinedProperty, [toString p.toNat]⟩

/-- Calls what the top operand is. -/
def callPointerBy (argc : Nat) : MachineM Unit := do
  match ← pop with
  | .function ofs => enter ofs argc .nil none none
  | .prop p => invokeBy call (← ownedSelf) p argc
  | v =>
    releaseValue v
    fail (.badType "function pointer")

/-- Does an instruction that is neither a return nor a throw. -/
def actBy (i : Instr) : MachineM Unit := do
  match i with
  | .getProp p => invokeBy call (← pop) p 0
  | .getPropSelf p => invokeBy call (← ownedSelf) p 0
  | .callProp argc p => invokeBy call (← pop) p argc.toNat
  | .callPropSelf argc p => invokeBy call (← ownedSelf) p argc.toNat
  | .inherited argc p => invokeInheritedBy call p argc.toNat
  | .ptrCall argc => callPointerBy call argc.toNat
  | i => act i

/-- Does an instruction. -/
def stepBy (i : Instr) : MachineM Flow := do
  match i with
  | .ret => return .returned (← pop)
  | .retNil => return .returned .nil
  | .retTrue => return .returned .truth
  | .throw => throwTop
  | i =>
    actBy call i
    return .next

/-- Does the next instruction. -/
def instructionBy (floor : Nat) : MachineM (Option Value) := do
  match ← stepBy call (← fetch) with
  | .next => return none
  | .returned v =>
    leave
    if (← get).stack.depth ≤ floor then return some v
    push v
    return none

/-- Does the next instruction and what goes with it, in which methods are called as
    given. -/
def turnBy (floor : Nat) : RunM (Option Value) := do
  checkSignal
  collectIfDue
  match ← tried (instructionBy call floor) with
  | .ok result => return result
  | .error fault =>
    handleFault fault floor
    return none

end By

/-- Calling methods as ever gives the turns of the machine. -/
theorem turnBy_call (floor : Nat) : turnBy NativeMethod.call floor = turn floor := by
  have hact : actBy NativeMethod.call = act := funext fun i => by cases i <;> rfl
  have hstep : stepBy NativeMethod.call = step := funext fun i => by
    unfold stepBy
    rw [hact]
    cases i <;> rfl
  have hinstruction : instructionBy NativeMethod.call floor = instruction floor := by
    unfold instructionBy
    rw [hstep]
    rfl
  unfold turnBy
  rw [hinstruction]
  rfl

/-! ## Failures of pools -/

/-- If it is a failure, then not one for a wrong type. -/
def Typeless {α : Type} (r : Except Failure α) : Prop := ∀ e, r = .error e → e.code ≠ .badType

section Pools

variable {α β : Type} {r : Except Failure α} {e : Failure}

theorem Typeless.ok (a : α) : Typeless (.ok a) := fun _ h => by cases h

theorem Typeless.error (he : e.code ≠ .badType) : Typeless (α := α) (.error e) := fun _ h =>
  Except.error.inj h ▸ he

theorem Typeless.bind {f : α → Except Failure β} (hr : Typeless r) (hf : ∀ a, Typeless (f a)) :
    Typeless (r.bind f) := by
  cases r with
  | ok a => exact hf a
  | error e => exact .error (hr e rfl)

theorem typeless_outOfPool (pool : UInt16) (ofs : UInt32) :
    Typeless (α := α) (.error (.outOfPool pool ofs)) :=
  .error fun h => by cases h

theorem Geometry.typeless_split (g : Geometry) (ofs : UInt32) : Typeless (g.split ofs) := by
  unfold split
  split
  · exact typeless_outOfPool _ _
  split
  · exact typeless_outOfPool _ _
  · exact .ok _

theorem PagedPool.typeless_load (p : PagedPool) (i : Nat) : Typeless (p.load i).1 := by
  unfold load
  split
  · exact typeless_outOfPool _ _
  · dsimp only
    split
    · exact .error (by decide)
    · exact .ok ()

theorem PagedPool.typeless_slice (p : PagedPool) (ofs : UInt32) : Typeless (p.slice ofs).1 := by
  unfold slice
  have hsplit := Geometry.typeless_split p.geometry ofs
  split
  · next e he => exact .error (hsplit e he)
  · next i start _ =>
    have hloaded : Typeless
        (if (p.pages[i]?).any (·.data?.isSome) then (Except.ok (), p) else p.load i).1 := by
      split
      · exact .ok ()
      · exact typeless_load p i
    dsimp only
    split
    · next e he => exact .error (hloaded e he)
    · split
      · exact typeless_outOfPool _ _
      · exact .ok _

theorem MemoryPool.typeless_slice (p : MemoryPool) (ofs : UInt32) : Typeless (p.slice ofs) := by
  refine (Geometry.typeless_split p.geometry ofs).bind fun place => ?_
  dsimp only
  split
  · exact typeless_outOfPool _ _
  · exact .ok _

theorem Pool.typeless_slice (p : Pool) (ofs : UInt32) : Typeless (p.slice ofs).1 := by
  cases p with
  | memory p => exact MemoryPool.typeless_slice p ofs
  | paged p => exact PagedPool.typeless_slice p ofs

theorem Pools.typeless_readString (ps : Pools) (ofs : UInt32) : Typeless (ps.readString ofs).1 := by
  refine (Pool.typeless_slice ps.constant ofs).bind fun s => ?_
  unfold stringIn
  dsimp only
  split
  · exact typeless_outOfPool _ _
  split
  · exact .error (by decide)
  · exact .ok _

theorem Pools.typeless_readList (ps : Pools) (ofs : UInt32) : Typeless (ps.readList ofs).1 := by
  refine (Pool.typeless_slice ps.constant ofs).bind fun s => ?_
  unfold listIn
  dsimp only
  split
  · exact typeless_outOfPool _ _
  split
  · exact .error (by decide)
  · exact .ok _

end Pools

/-! ## Receivers of the right kind -/

namespace Machine

variable {base m m' : Machine} {this : Value} {ofs : UInt32}

theorem onPools_typeless {α : Type} {f : Pools → Except Failure α × Pools}
    (hf : ∀ ps, Typeless (f ps).1) (m : Machine) :
    Ends (onPools f m) (fun _ _ => True) fun e _ => e.isBadType = false := by
  have hr := hf m.pools
  unfold StoryMachine.onPools Ends
  dsimp only
  rcases hf : f m.pools with ⟨e | a, pools⟩
  · rw [hf] at hr
    exact beq_false_of_ne (hr e rfl)
  · trivial

/-- A method can read a receiver of its kind. -/
theorem receive_ends {kind : Kind} (hkind : m.kindOf? this = some kind) :
    Ends (kind.receive this m) (fun _ _ => True) fun e _ => e.isBadType = false := by
  cases this with
  | stringConst ofs =>
    obtain rfl := Option.some.inj hkind
    simp only [Kind.receive, expectString, stringValue, bind_assoc, pure_bind]
    exact (onPools_typeless (fun ps => ps.typeless_readString ofs) m).bind (fun _ _ _ => trivial)
      fun _ _ he => he
  | listConst ofs =>
    obtain rfl := Option.some.inj hkind
    simp only [Kind.receive, expectList, listItems, bind_assoc, pure_bind]
    exact (onPools_typeless (fun ps => ps.typeless_readList ofs) m).bind (fun _ _ _ => trivial)
      fun _ _ he => he
  | obj id =>
    obtain ⟨o, ho, rfl⟩ := Option.map_eq_some_iff.1 hkind
    have hobject : expectObject (.obj id) = pure id := rfl
    have hderef {α : Type} (f : Object → MachineM α) : (deref id >>= f) m = f o m :=
      bind_eq_of_ok (deref_eq_ok ho)
    cases hbody : o.body <;>
      simp only [Body.kind, Kind.receive, expectString, stringValue, expectList, listItems,
        vectorItems, tableEntries, hobject, bind_assoc, pure_bind, hderef, hbody] <;> trivial
  | _ => cases hkind

theorem fits_of_kindOf? {method : NativeMethod} (hkind : m.kindOf? this = some method.kind) :
    method.fits this m = true := by
  have hends := receive_ends hkind
  unfold NativeMethod.fits
  rw [hkind, beq_self_eq_true, Bool.true_and]
  split
  · rfl
  · next he =>
    rw [he] at hends
    exact Bool.not_eq_true' _ ▸ hends

end Machine

/-! ## Methods that are found -/

theorem MetaclassEntry.kind_of_native? {e : MetaclassEntry} {p : PropId} {method : NativeMethod}
    (h : e.native? p = some method) : method.kind = e.kind := by
  obtain ⟨before, after, hsplit, -⟩ := List.lookup_eq_some_iff.1 h
  have hmem : (p, method) ∈ e.bindings := by
    rw [← List.mem_reverse, hsplit]
    exact List.mem_append_right before List.mem_cons_self
  exact NativeMethod.kind_of_mem (List.of_mem_zip (List.mem_filter.1 hmem).1).2

theorem MetaclassTable.kind_of_native? {t : MetaclassTable} {id : MetaclassId} {p : PropId}
    {method : NativeMethod} (h : t.native? id p = some method) :
    (t.get? id).map (·.kind) = some method.kind := by
  obtain ⟨e, he, hmethod⟩ := Option.bind_eq_some_iff.1 h
  rw [he, Option.map_some, MetaclassEntry.kind_of_native? hmethod]

theorem MetaclassTable.kind_of_nativeForKind? {t : MetaclassTable} {kind : Kind} {p : PropId}
    {method : NativeMethod} (h : t.nativeForKind? kind p = some method) : method.kind = kind := by
  obtain ⟨e, he, hmethod⟩ := List.exists_of_findSome?_eq_some h
  rw [MetaclassEntry.kind_of_native? hmethod]
  exact eq_of_beq (List.mem_filter.1 he).2

namespace Machine

variable {base m m' : Machine} {S : Stack → Prop} {p : PropId} {method : NativeMethod}

theorem kindOf?_congr (hheap : m'.heap = m.heap) (v : Value) : m'.kindOf? v = m.kindOf? v := by
  unfold kindOf?
  rw [hheap]

/-- An object is of the kind for which its metaclass has methods. -/
theorem Kept.kindOf?_of_native? {id : ObjectId} {o : Object}
    (hm : m.Kept base S) (ht : base.image.metaclasses.entries.size ≤ 65536)
    (ho : m.heap.get? id = some o)
    (hmethod : base.image.metaclasses.native? o.metaclass p = some method) :
    m.kindOf? (.obj id) = some method.kind := by
  have htyped := hm.classed.typed ht id o ho
  rw [Object.Typed, MetaclassTable.kind_of_native? hmethod] at htyped
  rw [kindOf?, ho, Option.map_some, htyped]

/-- A native method that a property means is one for the kind of its receiver. -/
theorem resolve_peeks_kind (hm : m.Kept base S) (ht : base.image.metaclasses.entries.size ≤ 65536)
    (target : Value) (p : PropId) : m.Peeks (resolve target p) fun r =>
      ∀ method, r = .native method → m.kindOf? target = some method.kind := by
  have hnative {method? : Option NativeMethod}
      (hkind : ∀ method ∈ method?, m.kindOf? target = some method.kind) :
      m.Peeks (resolvedNative p method?) fun r =>
        ∀ method, r = .native method → m.kindOf? target = some method.kind := by
    cases method? with
    | none => exact .fail _
    | some method =>
      refine .pure fun method' h => ?_
      obtain rfl := Resolved.native.inj h
      exact hkind method rfl
  unfold resolve
  split
  · next id =>
    refine Peeks.get.bind fun m₁ _ => ?_
    split
    · next found _ =>
      -- A property that an object has is a method of the image or a value.
      refine .pure fun method h => ?_
      unfold Resolved.ofFound at h
      split at h <;> cases h
    · refine (deref_peeks id).bind fun o ho => Peeks.get.bind fun m₂ hm₂ =>
        hnative fun method hmethod => ?_
      rw [hm₂.beside.image, hm.same] at hmethod
      exact hm.kindOf?_of_native? ht ho hmethod
  · refine Peeks.get.bind fun m₁ _ => hnative fun method hmethod => ?_
    rw [MetaclassTable.kind_of_nativeForKind? hmethod, kindOf?]
  · refine Peeks.get.bind fun m₁ _ => hnative fun method hmethod => ?_
    rw [MetaclassTable.kind_of_nativeForKind? hmethod, kindOf?]
  · exact .fail _

end Machine

/-! ## The way in which methods are called -/

section Congr

variable {ε σ α β : Type} {s : σ} {x : EStateM ε σ α} {f g : α → EStateM ε σ β} {E : ε → σ → Prop}

/-- What comes next has to be the same only for what has come of the first part. -/
theorem bind_congr_of_ends (hx : Ends (x s) (fun a s' => f a s' = g a s') E) :
    (x >>= f) s = (x >>= g) s := by
  change EStateM.bind x f s = EStateM.bind x g s
  unfold EStateM.bind
  cases hr : x s with
  | ok a s' =>
    rw [hr] at hx
    exact hx
  | error e s' => rfl

theorem get_bind_congr {f g : σ → EStateM ε σ β} (h : f s s = g s s) :
    (get >>= f) s = (get >>= g) s := h

theorem bind_congr_left {y : EStateM ε σ α} (hxy : x s = y s) : (x >>= f) s = (y >>= f) s := by
  change EStateM.bind x f s = EStateM.bind y f s
  rw [EStateM.bind, EStateM.bind, hxy]

end Congr

/-- The calls are those of methods as long as receivers are of the kinds that these are for. -/
def CallsFitting (call : NativeMethod → Value → List Value → MachineM Value) : Prop :=
  ∀ (m : Machine) (method : NativeMethod) (this : Value) (args : List Value),
    m.kindOf? this = some method.kind → call method this args m = method.call this args m

theorem callsFitting_callIfFitting (wrong : MachineM Value) :
    CallsFitting (NativeMethod.callIfFitting wrong) := fun m method this args hkind => by
  rw [NativeMethod.callIfFitting, if_pos (Machine.fits_of_kindOf? hkind)]

namespace Machine

variable {α β : Type} {base m m' : Machine} {S : Stack → Prop} {s : Stack} {b : Nat} {this : Value}
  {method : NativeMethod} {call : NativeMethod → Value → List Value → MachineM Value}

theorem andAfter_congr {x y : MachineM α} {cleanup : MachineM Unit} (h : x m = y m) :
    andAfter x cleanup m = andAfter y cleanup m :=
  bind_congr_left (by rw [attempt, attempt, h])

theorem liftExcept_bind_congr {r : Except Failure α} {f g : α → MachineM β} (h : ∀ a, f a m = g a m) :
    (liftExcept r >>= f) m = (liftExcept r >>= g) m := by
  cases r with
  | ok a => exact h a
  | error e => rfl

theorem callNativeBy_eq (hcall : CallsFitting call) (hkind : m.kindOf? this = some method.kind)
    (argc : Nat) : callNativeBy call method this argc m = callNative method this argc m := by
  have hargs (args : List Value) : call method this args m = method.call this args m :=
    hcall m method this args hkind
  refine andAfter_congr (liftExcept_bind_congr fun _ => ?_)
  refine get_bind_congr ?_
  exact liftExcept_bind_congr fun args => bind_congr_left (andAfter_congr (hargs args))

theorem kindOf?_retainValue (m : Machine) (v w : Value) :
    kindOf? { m with heap := m.heap.retainValue w } v = m.kindOf? v := by
  unfold kindOf?
  simp only [Heap.get?_retainValue]

section Congr

variable (hcall : CallsFitting call) (ht : base.image.metaclasses.entries.size ≤ 65536)

include hcall ht

theorem invokeBy_eq (hm : m.Kept base S) (target : Value) (p : PropId) (argc : Nat) :
    invokeBy call target p argc m = invoke target p argc m := by
  have hresolve := resolve_peeks_kind hm ht target p m (.refl m)
  refine bind_congr_of_ends (E := fun _ _ => True) ((Ends.onFault hresolve
    fun e m' _ => ⟨_, rfl, trivial⟩).mono (fun r m' hr => ?_) fun _ _ he => he)
  cases r with
  | method ofs holder => rfl
  | data v => rfl
  | native method =>
    refine callNativeBy_eq hcall ?_ argc
    rw [kindOf?_congr hr.1.heap]
    exact hr.2 method rfl

theorem invokeInheritedBy_eq (hm : m.Kept base S) (p : PropId) (argc : Nat) :
    invokeInheritedBy call p argc m = invokeInherited p argc m := by
  refine bind_congr_of_ends ((currentFrame_peeks m (.refl m)).mono (fun f m₁ hm₁ => ?_) fun _ _ he => he)
  cases hself : f.self with
  | obj self =>
    cases f.definer? with
    | none => rfl
    | some definer =>
      refine get_bind_congr ?_
      dsimp only
      cases Inheritance.lookupInherited m₁.heap.source self definer p with
      | some found => rfl
      | none =>
        refine bind_congr_of_ends ((deref_peeks self m₁ (.refl m₁)).mono (fun o m₂ ho => ?_)
          fun _ _ he => he)
        refine get_bind_congr ?_
        cases hmethod : m₂.image.metaclasses.native? o.metaclass p with
        | none => rfl
        | some method =>
          refine bind_congr_of_ends (E := fun _ _ => True) (?_ : Ends (owned _ m₂) _ _)
          refine callNativeBy_eq hcall ?_ argc
          have hm₂ : m₂.Kept base S := (hm.congr hm₁.1.beside.image hm₁.1.beside.stack hm₁.1.heap).congr
            ho.1.beside.image ho.1.beside.stack ho.1.heap
          rw [kindOf?_retainValue]
          rw [hm₂.same] at hmethod
          exact hm₂.kindOf?_of_native? ht (ho.1.heap ▸ ho.2) hmethod
  | _ => rfl

theorem callPointerBy_eq (hm : m.Kept base (s.Within b)) (argc : Nat) :
    callPointerBy call argc m = callPointer argc m := by
  have hpop := pop_stays (I := (·.Kept base (s.Within b))) m hm
  refine bind_congr_of_ends (hpop.mono (fun v m₁ hm₁ => ?_) fun _ _ he => he)
  cases v with
  | prop p =>
    exact bind_congr_of_ends ((ownedSelf_stays m₁ hm₁).mono
      (fun this _ hm₂ => invokeBy_eq hcall ht hm₂ this p argc) fun _ _ he => he)
  | _ => rfl

theorem actBy_eq (hm : m.Kept base (s.Within b)) (i : Instr) : actBy call i m = act i m := by
  have hinvoke {x : MachineM Value} (hx : Stays (·.Kept base (s.Within b)) x) (p : PropId) (argc : Nat) :
      (x >>= (invokeBy call · p argc)) m = (x >>= (invoke · p argc)) m :=
    bind_congr_of_ends ((hx m hm).mono (fun v _ hm' => invokeBy_eq hcall ht hm' v p argc)
      fun _ _ he => he)
  cases i with
  | getProp p => exact hinvoke pop_stays p 0
  | getPropSelf p => exact hinvoke ownedSelf_stays p 0
  | callProp argc p => exact hinvoke pop_stays p argc.toNat
  | callPropSelf argc p => exact hinvoke ownedSelf_stays p argc.toNat
  | inherited argc p => exact invokeInheritedBy_eq hcall ht hm p argc.toNat
  | ptrCall argc => exact callPointerBy_eq hcall ht hm argc.toNat
  | _ => rfl

theorem stepBy_eq (hm : m.Kept base (s.Within b)) (i : Instr) : stepBy call i m = step i m := by
  cases i with
  | ret | retNil | retTrue | throw => rfl
  | _ => exact bind_congr_left (actBy_eq hcall ht hm _)

theorem instructionBy_eq (hm : m.Kept base (s.Within b)) (floor : Nat) :
    instructionBy call floor m = instruction floor m :=
  bind_congr_of_ends ((fetch_stays m hm).mono
    (fun i _ hm' => bind_congr_left (stepBy_eq hcall ht hm' i)) fun _ _ he => he)

theorem turnBy_eq (hm : m.Kept base (s.Within b)) (floor : Nat) :
    turnBy call floor m = turn floor m := by
  refine bind_congr_of_ends ((checkSignal_ends m).mono (fun _ m₁ hm₁ => ?_) fun _ _ he => he)
  subst hm₁
  refine bind_congr_of_ends ((collectIfDue_ends m₁).mono (fun _ m₂ hm₂ => ?_) fun _ _ he => he)
  have hkept : m₂.Kept base (s.Within b) := by
    rcases hm₂ with rfl | rfl
    · exact hm
    · exact hm.collectGarbage
  refine bind_congr_left ?_
  unfold tried plainly attempt
  rw [instructionBy_eq hcall ht hkept floor]

end Congr

end Machine

/-! ## Whole runs -/

namespace Life

variable {base : Machine} {l : Life}

/-- At any time of any life, whatever states have been put in place and whatever has been
    raised, a live object is of a metaclass for its kind. So it makes no difference to a
    turn if every native method first checks that its receiver is of the kind that it is
    for, and that it does not find it to be of a wrong type. -/
theorem Reachable.receivers_fit {bs : Bytes} {settings : MachineSettings} {host : Host}
    (hload : Machine.load bs settings host = .ok base) (ht : base.image.metaclasses.entries.size ≤ 65536)
    (hl : Reachable base l) :
    (∀ id o, l.machine.heap.get? id = some o →
      ∃ e, l.machine.image.metaclasses.get? o.metaclass = some e ∧ e.kind = o.body.kind) ∧
    ∀ wrong floor, turnBy (NativeMethod.callIfFitting wrong) floor l.machine = turn floor l.machine := by
  have hfits := hl.fits hload
  refine ⟨fun id o ho => ?_, fun wrong floor => ?_⟩
  · have htyped := hfits.kept.classed.typed ht id o ho
    rw [← hfits.kept.same] at htyped
    exact Option.map_eq_some_iff.1 htyped
  · have hkept : l.machine.Kept base (l.machine.stack.Within 0) :=
      ⟨hfits.kept.same, .refl hfits.kept.stack 0, hfits.kept.classed⟩
    exact Machine.turnBy_eq (callsFitting_callIfFitting wrong) ht hkept floor

/-- An image whose program asks for the length of a list that it has made, which has
    another list in it. -/
def lister : Bytes :=
  let program := [Instr.pushObj 1, .new 1 0, .getProp 5, .retNil].foldl Assembler.emit
    (Assembler.method { maxStack := 2 })
  ImageDraft.encode {
    metaclasses := #[("list", [5])]
    code := program.finish.toArray
    objects := #[⟨1, 0, [0, 0]⟩]
    entry? := some 0 }

/-- The list has been made, and its length is the next value on the stack. -/
theorem receivers_fit_listing : ∃ base l m, Machine.load lister {} {} = .ok base ∧
    base.image.metaclasses.entries.size ≤ 65536 ∧ Reachable base l ∧
    turn 0 l.machine = .ok none m ∧ m.stack.values = #[.int 1] ∧
    (∀ id o, l.machine.heap.get? id = some o →
      ∃ e, l.machine.image.metaclasses.get? o.metaclass = some e ∧ e.kind = o.body.kind) ∧
    ∀ wrong floor, turnBy (NativeMethod.callIfFitting wrong) floor l.machine = turn floor l.machine := by
  have hrun : (Machine.load lister {} {}).toOption.any (fun base =>
      decide (base.image.metaclasses.entries.size ≤ 65536) &&
      (Session.runFor? 3 base).any fun m => m.stack.values == #[.int 1]) = true := by
    decide +kernel
  obtain ⟨base, hload, hrun⟩ := Machine.exists_load_of_any hrun
  obtain ⟨ht, hrun⟩ := Bool.and_eq_true_iff.1 hrun
  have ht : base.image.metaclasses.entries.size ≤ 65536 := of_decide_eq_true ht
  obtain ⟨m', hm', hvalues⟩ := (Option.any_eq_true ..).1 hrun
  obtain ⟨m, hm, -, hok⟩ := exists_turn_of_runFor? hm'
  have hl : Reachable base ⟨.running false, m⟩ := leads_of_runFor? hm
  exact ⟨base, _, m', hload, ht, hl, hok, eq_of_beq hvalues, hl.receivers_fit hload ht⟩

end Life

end StoryMachine
