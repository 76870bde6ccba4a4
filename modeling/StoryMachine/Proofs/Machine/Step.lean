import StoryMachine.Proofs.Machine.Frames
import StoryMachine.Proofs.Object.PropTable

/-!
# Instructions keep counts

Every instruction leaves nothing in the machine's hands, whether it succeeds or
faults; only a return gives its result, and only a throw its exception.

* `resolve_peeks`, `invoke_acts`: evaluating a property;
* `act_acts`: instructions that are neither a return nor a throw;
* `step_ends`: all instructions.
-/

namespace StoryMachine

/-! ## Properties that are found -/

theorem Body.mem_edges_of_ownProp? {b : Body} {p : PropId} {v : Value}
    (hv : b.ownProp? p = some v) : v ∈ b.edges := by
  cases b with
  | program supers props =>
    exact List.mem_append_right _ (List.mem_map.2 ⟨_, PropTable.get?_eq_some_iff.1 hv, rfl⟩)
  | _ => cases hv

theorem Heap.exists_of_findIn {h : Heap} {order : List ObjectId} {p : PropId} {found : Found}
    (hf : Inheritance.findIn h.source order p = some found) :
    ∃ o, h.get? found.holder = some o ∧ found.value ∈ o.body.edges := by
  obtain ⟨id, -, hid⟩ := List.exists_of_findSome?_eq_some hf
  obtain ⟨body, hbody, hvalue⟩ := Option.bind_eq_some_iff.1 hid
  obtain ⟨v, hv, hfound⟩ := Option.bind_eq_some_iff.1 hvalue
  obtain ⟨o, ho, rfl⟩ := Option.map_eq_some_iff.1 hbody
  obtain rfl := Option.some.inj hfound
  exact ⟨o, ho, Body.mem_edges_of_ownProp? hv⟩

theorem Heap.exists_of_lookup {h : Heap} {id : ObjectId} {p : PropId} {found : Found}
    (hf : Inheritance.lookup h.source id p = some found) :
    ∃ o, h.get? found.holder = some o ∧ found.value ∈ o.body.edges :=
  exists_of_findIn hf

theorem Heap.exists_of_lookupInherited {h : Heap} {self definer : ObjectId} {p : PropId}
    {found : Found} (hf : Inheritance.lookupInherited h.source self definer p = some found) :
    ∃ o, h.get? found.holder = some o ∧ found.value ∈ o.body.edges := by
  unfold Inheritance.lookupInherited at hf
  dsimp only at hf
  split at hf
  · exact exists_of_findIn hf
  · exact exists_of_findIn hf

/-- What a property means is there. -/
def Resolved.Known (m : Machine) (terms : Terms) : Resolved → Prop
  | method _ holder => m.Knows terms (.obj holder)
  | data v => m.Knows terms v
  | native _ => True

/-- The intrinsic function that an instruction calls, if it calls one. -/
def Instr.intrinsic? (image : Image) : Instr → Option Intrinsic
  | .builtin _ func set => (image.functionSets.resolve set func).toOption
  | _ => none

/-- What an instruction gives to the one who does it. -/
def Flow.held : Flow → Multiset Value
  | next => 0
  | returned v => {v}

namespace Machine

variable {terms : Terms} {m : Machine} {rest : Multiset Value} {v target : Value} {p : PropId}

theorem Sound.known_ofFound (hm : m.Sound terms rest) {found : Found}
    (hf : ∃ o, m.heap.get? found.holder = some o ∧ found.value ∈ o.body.edges) :
    (Resolved.ofFound found).Known m terms := by
  obtain ⟨o, ho, hv⟩ := hf
  unfold Resolved.ofFound
  split
  · refine .of_contains ?_
    rw [Heap.contains_eq_isSome_get?, ho]
    rfl
  · exact hm.knows_edge ho hv

theorem resolvedNative_peeks (p : PropId) (method? : Option NativeMethod) :
    m.Peeks (resolvedNative p method?) fun r => r.Known m terms := by
  cases method? with
  | some method => exact .pure trivial
  | none => exact .fail _

theorem resolve_peeks (hm : m.Sound terms rest) (target : Value) (p : PropId) :
    m.Peeks (resolve target p) fun r => r.Known m terms := by
  unfold resolve
  split
  · next id =>
    refine Peeks.get.bind fun m' hm' => ?_
    rw [hm'.heap]
    split
    · next found hfound => exact .pure (hm.known_ofFound (Heap.exists_of_lookup hfound))
    · exact (deref_peeks id).bind fun o _ => Peeks.get.bind fun _ _ => resolvedNative_peeks p _
  · exact Peeks.get.bind fun _ _ => resolvedNative_peeks p _
  · exact Peeks.get.bind fun _ _ => resolvedNative_peeks p _
  · exact .fail _

theorem callNative_acts (hm : m.Sound terms ({target} + rest)) (method : NativeMethod) (argc : Nat) :
    m.Acts terms rest (callNative method target argc) := by
  refine Ends.andAfter (Q := fun _ m' => m'.Sound terms ({target} + rest))
    (E := Stopped terms ({target} + rest)) ?_ (fun _ m' hm' => ⟨_, rfl, hm'.releaseValue⟩)
    fun e m' he => ⟨_, rfl, he.releaseValue⟩
  refine Acts.peek hm (Peeks.liftExcept (P := fun _ => True) fun _ _ => trivial) fun _ m' hm' _ => ?_
  have hm' := hm.peeked hm'
  exact callWithArgs_acts hm' argc fun args hargs =>
    NativeMethod.call_yields hm' method (by simp) hargs

theorem enterMethod_acts (hm : m.Sound terms ({target} + rest)) {holder : ObjectId}
    (hk : m.Knows terms (.obj holder)) (ofs : UInt32) (argc : Nat) :
    m.Acts terms rest (enterMethod ofs holder target p argc) := by
  refine Ends.bind_ok rfl (enter_acts ?_)
  have hsound := hm.retainValue hk
  rw [← add_assoc, add_comm {Value.obj holder}] at hsound
  exact hsound

theorem invoke_acts (hm : m.Sound terms ({target} + rest)) (p : PropId) (argc : Nat) :
    m.Acts terms rest (invoke target p argc) := by
  refine Ends.bind (Ends.onFault (resolve_peeks hm target p m (.refl m)) fun e m' he =>
    ⟨_, rfl, (Stopped.of_peeked hm he.1 he.2).releaseValue⟩) (fun r m' hr => ?_) fun _ _ he => he
  have hm' := hm.peeked hr.1
  cases r with
  | method ofs holder => exact enterMethod_acts hm' (Knows.peeked hr.2 hr.1) ofs argc
  | native method => exact callNative_acts hm' method argc
  | data v =>
    refine Ends.bind_ok (a := v) rfl (Ends.bind_ok rfl ?_)
    have hsound := hm'.retainValue (Knows.peeked hr.2 hr.1)
    rw [add_left_comm] at hsound
    have hsound := hsound.releaseValue
    dsimp only
    split
    · exact Ends.bind_ok rfl ⟨trivial, .inr hsound.releaseValue⟩
    · exact push_acts hsound

theorem invokeInherited_acts (hm : m.Sound terms rest) (p : PropId) (argc : Nat) :
    m.Acts terms rest (invokeInherited p argc) := by
  refine Acts.peek hm currentFrame_peeks fun f m₁ hm₁ hf => ?_
  have hs₁ := hm.peeked hm₁
  have hself : m₁.Knows terms f.self := by
    refine hs₁.knows_placed (mem_placed_of_held (f := f) ?_ List.mem_cons_self)
    rw [hm₁.beside.stack, hf]
  split
  · next self definer _ _ =>
    refine Ends.get ?_
    cases hfound : Inheritance.lookupInherited m₁.heap.source self definer p with
    | none =>
      refine Acts.peek hs₁ (deref_peeks self) fun o m₂ hm₂ _ => Ends.get ?_
      have hs₂ := hs₁.peeked hm₂
      cases m₂.image.metaclasses.native? o.metaclass p with
      | some method =>
        refine Acts.yield (owned_yields hs₂ (hself.peeked hm₂)) fun v m₃ _ hs₃ => ?_
        exact callNative_acts hs₃ method argc
      | none => exact ⟨trivial, .inr hs₂⟩
    | some found =>
      have hfound := Heap.exists_of_lookupInherited hfound
      have hk := hs₁.known_ofFound hfound
      obtain ⟨o, ho, hv⟩ := hfound
      dsimp only
      cases hr : Resolved.ofFound found with
      | method ofs holder =>
        rw [hr] at hk
        have hs₂ := hs₁.retainValue hself
        exact Ends.bind_ok rfl (enterMethod_acts hs₂ (Knows.retainValue hk _) ofs argc)
      | _ =>
        dsimp only
        split
        · exact ⟨trivial, .inr hs₁⟩
        · refine Acts.yield (owned_yields hs₁ (hs₁.knows_edge ho hv)) fun v m₂ _ hs₂ => ?_
          exact push_acts hs₂
  · exact .fail hs₁ _

/-- A property takes over its value, or lets go of it. -/
theorem assign_acts (hm : m.Sound terms ([target, v] + rest)) (p : PropId) :
    m.Acts terms rest (assign target p v) := by
  have hm' : m.Sound terms (([v] : List Value) + ({target} + rest)) := by
    rwa [← Multiset.cons_coe, ← Multiset.singleton_add, add_assoc, add_left_comm] at hm
  refine Ends.andAfter (Q := fun _ m' => m'.Sound terms ({target} + rest))
    (E := Stopped terms ({target} + rest)) ?_ (fun _ m' hm' => ⟨_, rfl, hm'.releaseValue⟩)
    fun e m' he => ⟨_, rfl, he.releaseValue⟩
  split
  · next id =>
    exact (onHeap_gives (Heap.setProp_edits _ id p v) hm' fun _ => rfl).mono
      (fun _ _ hg => hg.2) fun _ _ hf => hf.2
  · exact Ends.onFault (E := Stopped terms ({v} + ({target} + rest))) ⟨trivial, .inr hm'⟩
      fun e m' he => ⟨_, rfl, he.releaseValue⟩

/-! ## Instructions -/

theorem push_plain_acts (hm : m.Sound terms rest) (hv : v.obj? = none) : m.Acts terms rest (push v) :=
  push_acts (hm.add_plain hv)

theorem pushYield_acts {x : MachineM Value} (hx : m.Yields terms rest x) :
    m.Acts terms rest (x >>= fun v => push v) :=
  Acts.yield hx fun _ _ _ hm' => push_acts hm'

/-- What is popped comes into the machine's hands. -/
theorem Acts.pop {α : Type} {f : Value → MachineM α} (hm : m.Sound terms rest)
    (hf : ∀ v (m' : Machine), m'.Sound terms ({v} + rest) → m'.Acts terms rest (f v)) :
    m.Acts terms rest (StoryMachine.pop >>= f) :=
  (pop_ends hm).bind (fun v m' hm' => hf v m' hm'.1) fun _ _ he => he

theorem Acts.popTwo {α : Type} {f : Value × Value → MachineM α} (hm : m.Sound terms rest)
    (hf : ∀ a b (m' : Machine), m'.Sound terms (([a, b] : List Value) + rest) →
      m'.stack.values.size + 2 ≤ m'.stack.settings.stackSize → m'.Acts terms rest (f (a, b))) :
    m.Acts terms rest (StoryMachine.popTwo >>= f) :=
  (popTwo_ends hm).bind (fun p m' hp => hf p.1 p.2 m' hp.1 hp.2) fun _ _ he => he

/-- What is let go of is not in the machine's hands any more. -/
theorem Acts.release {α : Type} {f : Unit → MachineM α} (hm : m.Sound terms ({v} + rest))
    (hf : ∀ m' : Machine, m'.Sound terms rest → m'.Acts terms rest (f ())) :
    m.Acts terms rest (releaseValue v >>= f) :=
  Ends.bind_ok rfl (hf _ hm.releaseValue)

theorem obj?_negated {w : Value} (hw : negated v = .ok w) : w.obj? = none := by
  cases v with
  | int n =>
    obtain ⟨k, -, hk⟩ := Except.bind_eq_ok.1 hw
    obtain rfl := Except.ok.inj hk
    rfl
  | float bits =>
    obtain rfl := Except.ok.inj hw
    rfl
  | _ => cases hw

theorem negateTop_acts (hm : m.Sound terms rest) : m.Acts terms rest negateTop :=
  .pop hm fun _ _ hm₁ => .release hm₁ fun _ hm₂ =>
    .peek hm₂ (Peeks.liftExcept fun _ hw => obj?_negated hw) fun _ _ hp hv =>
      push_plain_acts (hm₂.peeked hp) hv

theorem storeElement_acts (hm : m.Sound terms rest) : m.Acts terms rest storeElement := by
  refine (popValues_ends hm 3).bind (fun vs m₁ hvs => ?_) fun _ _ he => he
  obtain ⟨container, position, v, rfl⟩ := List.length_eq_three.1 hvs.2.1
  have hm₁ := hvs.1
  have hstore := withElement_yields (a := container) hm₁ (by simp)
    (hm₁.knows_held (v := position) (by simp)) (hm₁.knows_held (v := v) (by simp))
  exact hstore.andRelease.bind (fun w m₂ hm₂ => push_acts hm₂.2) fun _ _ he => he

/-- A variable takes over its value and lets go of the former one. -/
theorem Sound.setGlobal {i : Nat} {old : Value} (hm : m.Sound terms ({v} + rest))
    (hold : m.globals[i]? = some old) :
    Sound { m with globals := m.globals.setIfInBounds i v } terms ({old} + rest) := by
  refine hm.rearrange rfl rfl hm.fits hm.laidOut hm.based (.of_eq ?_)
  have hsum := coe_set (l := m.globals.toList) (by simpa using hold) v
  rw [placed_eq, placed_eq]
  simp only [Array.toList_setIfInBounds]
  calc _ = (m.globals.toList + {v}) + ((m.stack.values.toList : Multiset Value) +
        (m.stack.frames.reverse.flatMap Frame.held : List Value) + {m.result} + rest) := by abel
    _ = _ := by rw [← hsum]; abel

theorem setGlobal_acts (hm : m.Sound terms rest) (i : UInt16) : m.Acts terms rest (setGlobal i) := by
  refine .pop hm fun v m₁ hm₁ => Ends.get ?_
  cases hold : m₁.globals[i.toNat]? with
  | none => exact Ends.bind_ok rfl ⟨trivial, .inr hm₁.releaseValue⟩
  | some old => exact Ends.bind_ok rfl (hm₁.setGlobal hold).releaseValue

theorem Sound.setLocal {i : Nat} {old : Value} (hm : m.Sound terms ({v} + rest))
    (hold : m.stack.values[i]? = some old) :
    Sound { m with stack := m.stack.set i v } terms ({old} + rest) := by
  have hfits : (m.stack.values.setIfInBounds i v).size ≤ m.stack.settings.stackSize := by
    simpa using hm.fits
  refine hm.rearrange rfl rfl hfits hm.laidOut hm.based (.of_eq ?_)
  have hsum := coe_set (l := m.stack.values.toList) (by simpa using hold) v
  rw [placed_eq, placed_eq]
  simp only [Stack.set, Array.toList_setIfInBounds]
  calc _ = (m.stack.values.toList + {v}) + ((m.globals.toList : Multiset Value) +
        (m.stack.frames.reverse.flatMap Frame.held : List Value) + {m.result} + rest) := by abel
    _ = _ := by rw [← hsum]; abel

theorem localPlace_peeks (hm : m.Sound terms rest) (i : UInt16) :
    m.Peeks (localPlace i) fun n => n < m.stack.floor := by
  refine currentFrame_peeks.bind fun f hf => ?_
  dsimp only
  split
  · exact (Peeks.fail (P := fun _ => False) _).bind fun _ hfalse => hfalse.elim
  · next hlt =>
    refine .pure ?_
    have hfloor : m.stack.floor = f.stackBase := by simp [Stack.floor, hf]
    have hlaid := hm.laidOut f (mem_frames_of_frame? hf)
    have hi := UInt16.lt_iff_toNat_lt.1 (UInt16.not_le.1 hlt)
    omega

/-- The place of a local variable is below the operands, so it is still there after
    the value has been popped. -/
theorem setLocal_acts (hm : m.Sound terms rest) (i : UInt16) : m.Acts terms rest (setLocal i) := by
  refine .peek hm (localPlace_peeks hm i) fun n m₁ hm₁ hn => ?_
  refine (pop_ends (hm.peeked hm₁)).bind (fun v m₂ hm₂ => Ends.get ?_) fun _ _ he => he
  have hlt : n < m₂.stack.values.size := by
    rw [← hm₁.beside.stack] at hn
    exact hn.trans_le hm₂.2
  have hold := Array.getElem?_eq_getElem hlt
  refine Ends.bind_ok (a := m₂.stack.values[n]) ?_
    (Ends.bind_ok rfl (hm₂.1.setLocal hold).releaseValue)
  rw [Stack.get, hold]
  rfl

theorem callPointer_acts (hm : m.Sound terms rest) (argc : Nat) : m.Acts terms rest (callPointer argc) := by
  refine .pop hm fun v m₁ hm₁ => ?_
  cases v with
  | function ofs =>
    refine enter_acts ?_
    have := (hm₁.drop_plain rfl).add_plain (v := .nil) rfl
    exact this
  | prop p =>
    exact .yield (ownedSelf_yields (hm₁.drop_plain rfl)) fun v m₂ _ hm₂ => invoke_acts hm₂ p argc
  | _ => exact .release hm₁ fun m₂ hm₂ => ⟨trivial, .inr hm₂⟩

theorem makeObject_acts (hm : m.Sound terms rest) (metaclass : MetaclassId) (argc : Nat) :
    m.Acts terms rest (makeObject metaclass argc) := by
  refine Ends.get ?_
  cases m.image.metaclasses.get? metaclass with
  | none => exact ⟨trivial, .inr hm⟩
  | some entry => exact callWithArgs_acts hm argc fun args => construct_yields hm metaclass entry.kind

theorem callIntrinsic_acts (hm : m.Sound terms rest) (hrest : terms.stale = false → rest = 0)
    {set : UInt8} {func : UInt16}
    (hf : m.image.functionSets.resolve set func ≠ .ok .restoreState) (argc : Nat) :
    m.Acts terms rest (callIntrinsic set func argc) := by
  refine Ends.get ?_
  cases hr : m.image.functionSets.resolve set func with
  | error e => exact ⟨trivial, .inr hm⟩
  | ok f =>
    refine Ends.bind_ok (a := f) rfl ?_
    refine Acts.peek hm (Peeks.liftExcept (P := fun _ => True) fun _ _ => trivial) fun _ m₁ hm₁ _ => ?_
    have hs₁ := hm.peeked hm₁
    exact callWithArgs_acts hs₁ argc fun args hargs =>
      Intrinsic.call_yields hs₁ hrest f (fun he => hf (he ▸ hr)) hargs

theorem argumentAt_peeks (hm : m.Sound terms rest) (i : Nat) :
    m.Peeks (argumentAt i) fun v => m.Knows terms v := by
  refine currentFrame_peeks.bind fun f _ => ?_
  split
  · refine Peeks.get.bind fun m' hm' => .liftExcept fun v hv => ?_
    rw [hm'.beside.stack] at hv
    exact hm.knows_placed (mem_placed_of_get hv)
  split
  · exact .pure (.of_portable (.of_obj? rfl))
  · exact .fail _

theorem jump_acts (hm : m.Sound terms rest) (offset : Int16) : m.Acts terms rest (jump offset) := by
  refine .peek hm currentFrame_peeks fun f m₁ hm₁ _ => ?_
  have hs₁ := hm.peeked hm₁
  unfold Acts
  dsimp only
  split
  · exact ⟨trivial, .inr hs₁⟩
  · exact hs₁.modifyFrame (fun _ => rfl) fun _ => ⟨rfl, rfl, rfl, rfl⟩

theorem jumpIf_acts (hm : m.Sound terms rest) (cond : Condition) (offset : Int16) :
    m.Acts terms rest (jumpIf cond offset) := by
  cases cond with
  | always => exact jump_acts hm offset
  | _ =>
    refine .pop hm fun v _ hm₁ => .release hm₁ fun m₂ hm₂ => ?_
    split
    · exact jump_acts hm₂ offset
    · exact hm₂

theorem Sound.swap {a b : Value} (hm : m.Sound terms (([a, b] : List Value) + rest)) :
    m.Sound terms (([b, a] : List Value) + rest) := by
  have hperm : (([a, b] : List Value) : Multiset Value) = ([b, a] : List Value) :=
    Multiset.coe_eq_coe.2 (.swap b a [])
  rwa [hperm] at hm

/-- After two values have been taken off there is room for two. -/
theorem swap_acts (hm : m.Sound terms rest) : m.Acts terms rest (act .swap) := by
  refine .popTwo hm fun a b m₁ hm₁ hroom => ?_
  have hroom₁ : m₁.stack.hasRoom = true := by
    simp only [Stack.hasRoom, decide_eq_true_eq]
    omega
  refine Ends.bind_ok (push_eq_ok hroom₁ b) (push_acts (Sound.put ?_ hroom₁))
  have hsound := hm₁.swap
  rwa [← Multiset.cons_coe, ← Multiset.singleton_add, add_assoc] at hsound

theorem mem_placed_of_global {i : Nat} (hv : m.globals[i]? = some v) : v ∈ m.placed := by
  rw [placed_eq]
  refine Multiset.mem_add.2 (.inl (Multiset.mem_add.2 (.inr ?_)))
  exact Multiset.mem_coe.2 (Array.mem_toList_iff.2 (Array.mem_of_getElem? hv))

/-- An instruction that is neither a return nor a throw leaves nothing in the
    machine's hands. -/
theorem act_acts (hm : m.Sound terms rest) (hrest : terms.stale = false → rest = 0) (i : Instr)
    (hi : i.intrinsic? m.image ≠ some .restoreState) : m.Acts terms rest (act i) := by
  cases i with
  | nop | ret | retNil | retTrue | throw => exact hm
  | pushNil | pushTrue | pushInt _ | pushStr _ | pushList _ | pushProp _ | pushFnPtr _ =>
    exact push_plain_acts hm rfl
  | pushObj n => exact pushYield_acts (owned_yields hm (.of_portable (Value.portable_ofImage n)))
  | pushSelf => exact pushYield_acts (ownedSelf_yields hm)
  | getArg i =>
    refine .peek hm (argumentAt_peeks hm i.toNat) fun v m₁ hm₁ hv => ?_
    exact pushYield_acts (owned_yields (hm.peeked hm₁) (hv.peeked hm₁))
  | getLocal i =>
    refine .peek hm (localPlace_peeks hm i) fun n m₁ hm₁ _ => .get ?_
    have hs₁ := hm.peeked hm₁
    refine .peek hs₁ (Peeks.liftExcept fun v hv => hs₁.knows_placed (mem_placed_of_get hv))
      fun v m₂ hm₂ hv => ?_
    exact pushYield_acts (owned_yields (hs₁.peeked hm₂) (hv.peeked hm₂))
  | setLocal i => exact setLocal_acts hm i
  | getGlobal i =>
    refine Ends.get ?_
    cases hv : m.globals[i.toNat]? with
    | none => exact ⟨trivial, .inr hm⟩
    | some v =>
      refine pushYield_acts (owned_yields hm (hm.knows_placed ?_))
      exact mem_placed_of_global hv
  | setGlobal i => exact setGlobal_acts hm i
  | dup =>
    refine .get (.peek hm (Peeks.liftExcept fun v hv => hm.knows_placed (mem_placed_of_peek hv))
      fun v m₁ hm₁ hv => ?_)
    exact pushYield_acts (owned_yields (hm.peeked hm₁) (hv.peeked hm₁))
  | discard => exact .pop hm fun v m₁ hm₁ => hm₁.releaseValue
  | swap => exact swap_acts hm
  | arith op =>
    exact onOperands_acts hm fun a b m₁ _ hb hm₁ => arithmetic_yields hm₁ op hb
  | neg => exact negateTop_acts hm
  | not =>
    exact .pop hm fun v _ hm₁ => .release hm₁ fun m₂ hm₂ =>
      push_plain_acts hm₂ (Value.obj?_ofBool _)
  | compare rel => exact onOperands_acts hm fun a b m₁ _ _ hm₁ => compareBy_yields hm₁ rel
  | jump cond offset => exact jumpIf_acts hm cond offset
  | getProp p => exact .pop hm fun v m₁ hm₁ => invoke_acts hm₁ p 0
  | getPropSelf p =>
    exact .yield (ownedSelf_yields hm) fun v m₁ _ hm₁ => invoke_acts hm₁ p 0
  | setProp p => exact .popTwo hm fun v target m₁ hm₁ _ => assign_acts hm₁.swap p
  | setPropSelf p =>
    refine .pop hm fun v m₁ hm₁ => ?_
    refine Ends.bind (Ends.onFault (ownedSelf_yields hm₁ m₁ (.refl m₁)) fun e m₂ he =>
      ⟨_, rfl, Stopped.releaseValue he.2⟩) (fun target m₂ hg => assign_acts ?_ p) fun _ _ he => he
    have hsound := hg.2
    rwa [← add_assoc] at hsound
  | callProp argc p => exact .pop hm fun v m₁ hm₁ => invoke_acts hm₁ p argc.toNat
  | callPropSelf argc p =>
    exact .yield (ownedSelf_yields hm) fun v m₁ _ hm₁ => invoke_acts hm₁ p argc.toNat
  | inherited argc p => exact invokeInherited_acts hm p argc.toNat
  | call argc ofs => exact enter_acts (hm.add_plain (v := .nil) rfl)
  | ptrCall argc => exact callPointer_acts hm argc.toNat
  | builtin argc func set =>
    refine callIntrinsic_acts hm hrest (fun hr => hi ?_) argc.toNat
    rw [Instr.intrinsic?, hr]
    rfl
  | new argc metaclass => exact makeObject_acts hm metaclass argc.toNat
  | index => exact onOperands_acts hm fun a b m₁ _ _ hm₁ => elementAt_yields hm₁
  | setIndex => exact storeElement_acts hm

/-- The machine has ended with a fault. An exception on its way has a count of its
    own. -/
def Threw (terms : Terms) (rest : Multiset Value) (e : Fault) (m : Machine) : Prop :=
  (∃ v, e = .thrown v ∧ m.Sound terms ({v} + rest)) ∨ Stopped terms rest e m

theorem throwTop_ends (hm : m.Sound terms rest) :
    Ends (throwTop m) (fun flow m' => m'.Sound terms (flow.held + rest)) (Threw terms rest) := by
  refine (pop_ends hm).bind (fun v m₁ hm₁ => ?_) fun _ _ he => .inr he
  cases v with
  | obj id => exact .inl ⟨_, rfl, hm₁.1⟩
  | _ => exact Ends.bind_ok rfl (.inr ⟨trivial, .inr hm₁.1.releaseValue⟩)

/-- An instruction leaves only its result or its exception in the machine's
    hands. -/
theorem step_ends (hm : m.Sound terms rest) (hrest : terms.stale = false → rest = 0) (i : Instr)
    (hi : i.intrinsic? m.image ≠ some .restoreState) :
    Ends (step i m) (fun flow m' => m'.Sound terms (flow.held + rest)) (Threw terms rest) := by
  have hact : Ends ((act i >>= fun _ => pure Flow.next) m)
      (fun flow m' => m'.Sound terms (flow.held + rest)) (Threw terms rest) := by
    refine Ends.bind (act_acts hm hrest i hi) (fun _ m' hm' => ?_) fun _ _ he => .inr he
    change m'.Sound terms (0 + rest)
    rwa [zero_add]
  cases i with
  | ret => exact (pop_ends hm).bind (fun v m₁ hm₁ => hm₁.1) fun _ _ he => .inr he
  | retNil => exact hm.add_plain (v := .nil) rfl
  | retTrue => exact hm.add_plain (v := .truth) rfl
  | throw => exact throwTop_ends hm
  | _ => exact hact

end Machine

end StoryMachine
