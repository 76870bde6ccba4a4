import StoryMachine.Proofs.Code.Listing
import StoryMachine.Proofs.Machine.Layout
import StoryMachine.Proofs.Machine.Run

/-!
# Calls are apart from each other

Whatever an instruction does, and whatever comes of it, the values below the local
variables of the innermost call stay as they are. Only another state that is put in
place can change them. The calls around it keep their places, and find their operands
as they left them when the calls that they started have ended.

* `step_moves`: instructions;
* `unwind_unwound`: exceptions, which end calls;
* `Stack.Next`: the stack after a turn;
* `instruction_passed`, `turn_passed`: what comes of an instruction.
-/

namespace StoryMachine

/-- What is true after an instruction: the innermost call goes on or starts another one, or
    it is about to end. -/
def Flow.Leads (I J : Machine → Prop) : Flow → Machine → Prop
  | next => J
  | returned _ => I

/-- Some calls have ended, maybe none. -/
def Stack.Unwound (b : Nat) (s t : Stack) : Prop := ∃ n, (Stack.left^[n] s).Within b t

/-- The stack after a turn that leaves a call to go on with: some calls have ended but
    not all, or another one has started. -/
def Stack.Next (b : Nat) (s t : Stack) : Prop :=
  (∃ n < s.depth, (Stack.left^[n] s).Within b t) ∨ s.Opened b t

/-- All of an instruction is on one page. -/
theorem Pool.shows_of_decode {code : Pool} {ofs : UInt32} {slice : Slice} {p : Instr × Nat}
    (hslice : (code.slice ofs).1 = .ok slice)
    (hdecode : Instr.decode (slice.front Instr.maxLength) = .ok p) :
    (code.slice ofs).2.Shows ofs p.2 := by
  have hlength := (Instr.length_le_of_decode hdecode).trans (Pool.length_front_le slice _)
  exact (shows_of_slice hslice).mono hlength

namespace Machine

variable {base : Machine} {S : Stack → Prop} {I J : Machine → Prop} {limits : StackSettings} {s : Stack}
  {b floor n : Nat} {m m' : Machine} {v : Value} {p : PropId}

section Lasting

variable [hI : Lasting base I]

include hI

/-! ## Properties of objects, and what instructions read -/

omit hI in
theorem resolvedNative_stays (p : PropId) (method? : Option NativeMethod) :
    Stays I (resolvedNative p method?) := by
  cases method? with
  | some method => exact .pure _
  | none => exact .fail _

theorem resolve_stays (target : Value) (p : PropId) : Stays I (resolve target p) := by
  unfold resolve
  split
  · next id =>
    refine .get fun m _ => ?_
    split
    · exact .pure _
    · exact (deref_stays id).bind fun _ => .get fun _ _ => resolvedNative_stays p _
  · exact .get fun _ _ => resolvedNative_stays p _
  · exact .get fun _ _ => resolvedNative_stays p _
  · exact .fail _

theorem assign_stays (target : Value) (p : PropId) (v : Value) : Stays I (assign target p v) := by
  refine Stays.andAfter (Stays.onFault ?_ (releaseValue_stays v)) (releaseValue_stays target)
  split
  · next id => exact .edit fun h => Heap.setProp_edits h id p v
  · exact .fail _

theorem argumentAt_stays (i : Nat) : Stays I (argumentAt i) := by
  refine currentFrame_stays.bind fun f => ?_
  split
  · exact .get fun _ _ => .liftExcept _
  split
  · exact .pure _
  · exact .fail _

theorem localPlace_stays (i : UInt16) : Stays I (localPlace i) := by
  refine currentFrame_stays.bind fun f => ?_
  dsimp only
  split
  · exact (Stays.fail _).bind fun _ => .pure _
  · exact .pure _

end Lasting

/-! ## Instructions that stay in a call -/

/-- The local variables are above what the call has to leave alone. -/
theorem localPlace_ge (hb : b ≤ m.stack.localsAt) (i : UInt16) : m.Peeks (localPlace i) fun n => b ≤ n := by
  refine currentFrame_peeks.bind fun f hf => ?_
  dsimp only
  split
  · exact (Peeks.fail (P := fun _ => False) _).bind fun _ hfalse => hfalse.elim
  · refine .pure ?_
    rw [Stack.localsAt, hf, Option.map_some, Option.getD_some] at hb
    exact hb.trans (Nat.le_add_right _ _)

section Confined

variable [hI : Confined base b I]

include hI

theorem callNative_stays (method : NativeMethod) (this : Value) (argc : Nat) :
    Stays I (callNative method this argc) := by
  have hcall : Stays I (do
      liftExcept (method.arity.check argc)
      callWithArgs argc (method.call this)) :=
    (Stays.liftExcept _).bind fun _ => callWithArgs_stays argc (method.call_stays this)
  exact hcall.andAfter (releaseValue_stays this)

theorem setLocal_stays (hb : ∀ m : Machine, I m → b ≤ m.stack.localsAt) (i : UInt16) :
    Stays I (setLocal i) := by
  refine .peek (fun m hm => localPlace_ge (hb m hm) i) fun n hn => pop_stays.bind fun v => ?_
  refine .get fun _ _ => (Stays.liftExcept _).bind fun old => Stays.bind ?_ fun _ => releaseValue_stays old
  exact .modify fun _ hm => hI.within hm ((hI.refl hm).set hn v) (.of_frames rfl)

theorem setGlobal_stays (i : UInt16) : Stays I (setGlobal i) := by
  refine pop_stays.bind fun v => .get fun m _ => ?_
  split
  · exact (releaseValue_stays v).bind fun _ => .fail _
  · refine Stays.bind (.modify fun m hm => ?_) fun _ => releaseValue_stays _
    exact Lasting.congr hm rfl rfl rfl rfl

theorem makeObject_stays (metaclass : MetaclassId) (argc : Nat) :
    Stays I (makeObject metaclass argc) := by
  refine .get fun m hm => ?_
  rw [hI.image hm]
  split
  · exact .fail _
  · next entry hentry =>
    refine callWithArgs_stays argc (construct_stays ?_)
    rw [hentry, Option.map_some]

theorem callIntrinsic_stays {set : UInt8} {func : UInt16}
    (hrestore : base.image.functionSets.resolve set func = .ok .restoreState →
      ∀ name, Stays I (restoreFromFile name)) (argc : Nat) :
    Stays I (callIntrinsic set func argc) := by
  refine .get fun m hm => ?_
  rw [hI.image hm]
  have hresolved (m' : Machine) : m'.Peeks (liftExcept (base.image.functionSets.resolve set func))
      fun f => base.image.functionSets.resolve set func = .ok f := .liftExcept fun _ hf => hf
  refine .peek (fun m' _ => hresolved m') fun f hr => (Stays.liftExcept _).bind fun _ => ?_
  exact callWithArgs_stays argc (f.call_stays fun hf => hrestore (hf ▸ hr))

/-- A jump is refused if it leads to before the method. -/
theorem jump_stays (offset : Int16) : Stays I (jump offset) := fun m hm => by
  refine (currentFrame_peeks m (.refl m)).bind (fun f m' hf => ?_) fun _ _ he => Lasting.peeked hm he.1
  have hm' : I m' := Lasting.peeked hm hf.1
  have hframe : m'.stack.frame? = some f := hf.1.beside.stack ▸ hf.2
  dsimp only
  split
  · exact hm'
  · next hinside =>
    refine modifyFrame_ends hm' hframe (fun _ => rfl) fun _ _ hplaced => ⟨hplaced.current, ?_⟩
    dsimp only
    have htarget : (f.next.toNat + offset.toInt).toNat < UInt32.size := by
      simp only [UInt32.size]
      omega
    rw [UInt32.le_iff_toNat_le, UInt32.toNat_ofNat_of_lt' htarget]
    omega

theorem jumpIf_stays (cond : Condition) (offset : Int16) : Stays I (jumpIf cond offset) := by
  cases cond with
  | always => exact jump_stays offset
  | _ =>
    refine pop_stays.bind fun v => (releaseValue_stays v).bind fun _ => ?_
    split
    · exact jump_stays offset
    · exact .pure ()

theorem negateTop_stays : Stays I negateTop :=
  pop_stays.bind fun v => (releaseValue_stays v).bind fun _ => pushAfter_stays (.liftExcept _)

theorem storeElement_stays : Stays I storeElement := by
  refine (popValues_stays 3).bind fun vs =>
    pushAfter_stays (Stays.andAfter ?_ (releaseValues_stays vs))
  split
  · exact withElement_stays _ _ _
  · exact .fail _

theorem throwTop_stays : Stays I throwTop := by
  refine pop_stays.bind fun v => ?_
  split
  · exact .throw _
  · exact (releaseValue_stays _).bind fun _ => .fail _

theorem fetch_stays : Stays I fetch := fun m hm => by
  cases hf : m.stack.frame? with
  | none =>
    obtain ⟨e, he⟩ := fetch_of_frame?_none hf
    rw [he]
    exact hm
  | some f =>
    rw [fetch_of_frame? hf]
    have hread : I { m with pools := (m.pools.codeSlice f.next).2 } :=
      Lasting.peeked hm ⟨_, m.pools.later_codeSlice _, rfl⟩
    cases hslice : (m.pools.codeSlice f.next).1 with
    | error e => exact Ends.bind_error (onPools_error hslice) hread
    | ok slice =>
      refine Ends.bind_ok (onPools_ok hslice) ?_
      cases hdecode : Instr.decode (slice.front Instr.maxLength) with
      | error e => exact hread
      | ok p =>
        have hshown := Pool.shows_of_decode hslice hdecode
        let move (g : Frame) : Frame :=
          { g with current := f.next, next := f.next + UInt32.ofNat p.2 }
        have hplaced (hends : (m.pools.code.slice f.next).2.EndsBy codeLimit) (hplaced : f.Placed) :
            (move f).Placed := by
          refine ⟨hplaced.next, UInt32.le_trans hplaced.next (UInt32.le_add_of_lt ?_)⟩
          exact (Nat.add_le_add_left (Nat.mod_le _ _) _).trans_lt (hshown.lt hends)
        have hmoved := modifyFrame_ends (h := move) hread hf (fun _ => rfl) fun hends _ => hplaced hends
        exact Ends.bind_ok rfl (Ends.bind hmoved (fun _ _ hm' => hm') fun _ _ he => he)

theorem dropAbove_ends (hn : m.stack.floor ≤ n) (hm : I m) :
    Ends (dropAbove n m) (fun _ m' => I m') fun _ m' => I m' :=
  Ends.get (Ends.bind_ok rfl
    (releaseValues_stays _ _ (hI.within hm ((hI.refl hm).truncate hn) (.of_frames rfl))))

/-- The operands of the call that handles an exception give way to it. -/
theorem handleAt_stays (handler : UInt16) (exception : Value) :
    Stays I (handleAt handler exception) := fun m hm => by
  refine (currentFrame_peeks m (.refl m)).bind (fun f m' hf => ?_) fun _ _ he => Lasting.peeked hm he.1
  have hframe : m'.stack.frame? = some f := hf.1.beside.stack ▸ hf.2
  have hfloor : m'.stack.floor = f.stackBase := by
    rw [Stack.floor, hframe, Option.map_some, Option.getD_some]
  have hdropped : I { m' with
      stack := m'.stack.truncate f.stackBase
      heap := m'.heap.releaseValues (m'.stack.above f.stackBase) } :=
    dropAbove_ends hfloor.le (Lasting.peeked hm hf.1)
  let move (f : Frame) : Frame := { f with next := f.method + handler.toUInt32 }
  have hplaced (hends : m'.pools.code.EndsBy codeLimit)
      (hshown : m'.pools.code.Shows f.method MethodHeader.size) (hplaced : f.Placed) :
      (move f).Placed := by
    refine ⟨hplaced.current, UInt32.le_add_of_lt ?_⟩
    rw [UInt16.toNat_toUInt32]
    exact hshown.add_lt hends _
  refine Ends.bind_ok rfl ?_
  exact (modifyFrame_ends (h := move) hdropped hframe (fun _ => rfl) hplaced).bind
    (fun _ _ hm'' => push_stays exception _ hm'') fun _ _ he => he

end Confined

/-! ## Instructions -/

section Calling

variable [hI : Calling base b I J]

include hI

theorem enterMethod_moves {ofs : UInt32} {holder : ObjectId} {this : Value} {argc : Nat} :
    Moves I J (enterMethod ofs holder this p argc) :=
  (retainValue_stays _).bindMoves fun _ => enter_moves

theorem invoke_moves (target : Value) (p : PropId) (argc : Nat) :
    Moves I J (invoke target p argc) := by
  refine ((resolve_stays target p).onFault (releaseValue_stays _)).bindMoves fun r => ?_
  cases r with
  | method ofs holder => exact enterMethod_moves
  | native method => exact (callNative_stays method target argc).moves
  | data v =>
    refine Stays.moves ((owned_stays v).bind fun w => (releaseValue_stays target).bind fun _ => ?_)
    dsimp only
    split
    · exact (releaseValue_stays w).bind fun _ => (Stays.fail _).bind fun _ => push_stays w
    · exact push_stays w

theorem invokeInherited_moves (p : PropId) (argc : Nat) : Moves I J (invokeInherited p argc) := by
  refine currentFrame_stays.bindMoves fun f => ?_
  split
  · next self definer _ _ =>
    refine .get fun m _ => ?_
    split
    · next found _ =>
      split
      · exact (owned_stays _).bindMoves fun _ => enterMethod_moves
      · refine Stays.moves ?_
        dsimp only
        split
        · exact (Stays.fail _).bind fun _ => (owned_stays _).bind fun _ => push_stays _
        · exact (owned_stays _).bind fun _ => push_stays _
    · refine (deref_stays self).bindMoves fun o => .get fun m _ => ?_
      split
      · exact (owned_stays _).bindMoves fun _ => (callNative_stays _ _ argc).moves
      · exact (Stays.fail _).moves
  · exact (Stays.fail _).moves

theorem callPointer_moves (argc : Nat) : Moves I J (callPointer argc) := by
  refine pop_stays.bindMoves fun v => ?_
  split
  · exact enter_moves
  · exact ownedSelf_stays.bindMoves fun _ => invoke_moves _ _ argc
  · exact ((releaseValue_stays _).bind fun _ => .fail _).moves

/-- An instruction that is neither a return nor a throw goes on with the innermost call,
    or starts another one. -/
theorem act_moves (hb : ∀ m : Machine, I m → b ≤ m.stack.localsAt) (i : Instr)
    (hrestore : i.intrinsic? base.image = some .restoreState →
      ∀ name, Stays I (restoreFromFile name)) : Moves I J (act i) := by
  cases i with
  | nop | ret | retNil | retTrue | throw => exact (Stays.pure ()).moves
  | pushNil | pushTrue | pushInt _ | pushStr _ | pushList _ | pushProp _ | pushFnPtr _ =>
    exact (push_stays _).moves
  | pushObj n => exact (pushAfter_stays (owned_stays _)).moves
  | pushSelf => exact (pushAfter_stays ownedSelf_stays).moves
  | getArg i =>
    exact ((argumentAt_stays i.toNat).bind fun v => pushAfter_stays (owned_stays v)).moves
  | getLocal i =>
    exact ((localPlace_stays i).bind fun _ => .get fun _ _ => (Stays.liftExcept _).bind fun v =>
      pushAfter_stays (owned_stays v)).moves
  | setLocal i => exact (setLocal_stays hb i).moves
  | getGlobal i =>
    refine Stays.moves (.get fun m _ => ?_)
    split
    · exact pushAfter_stays (owned_stays _)
    · exact .fail _
  | setGlobal i => exact (setGlobal_stays i).moves
  | dup =>
    exact Stays.moves (.get fun _ _ => (Stays.liftExcept _).bind fun v =>
      pushAfter_stays (owned_stays v))
  | discard => exact (pop_stays.bind fun v => releaseValue_stays v).moves
  | swap =>
    exact (popTwo_stays.bind fun _ => (push_stays _).bind fun _ => push_stays _).moves
  | arith op => exact (onOperands_stays (arithmetic_stays op)).moves
  | neg => exact negateTop_stays.moves
  | not =>
    exact (pop_stays.bind fun v => (releaseValue_stays v).bind fun _ => push_stays _).moves
  | compare rel => exact (onOperands_stays (compareBy_stays rel)).moves
  | jump cond offset => exact (jumpIf_stays cond offset).moves
  | getProp p => exact pop_stays.bindMoves fun v => invoke_moves v p 0
  | getPropSelf p => exact ownedSelf_stays.bindMoves fun v => invoke_moves v p 0
  | setProp p => exact (popTwo_stays.bind fun _ => assign_stays _ p _).moves
  | setPropSelf p =>
    exact (pop_stays.bind fun v => (ownedSelf_stays.onFault (releaseValue_stays v)).bind
      fun target => assign_stays target p v).moves
  | callProp argc p => exact pop_stays.bindMoves fun v => invoke_moves v p argc.toNat
  | callPropSelf argc p => exact ownedSelf_stays.bindMoves fun v => invoke_moves v p argc.toNat
  | inherited argc p => exact invokeInherited_moves p argc.toNat
  | call argc ofs => exact enter_moves
  | ptrCall argc => exact callPointer_moves argc.toNat
  | builtin argc func set =>
    refine (callIntrinsic_stays (fun hr => hrestore ?_) argc.toNat).moves
    rw [Instr.intrinsic?, hr]
    rfl
  | new argc metaclass => exact (makeObject_stays metaclass argc.toNat).moves
  | index => exact (onOperands_stays elementAt_stays).moves
  | setIndex => exact storeElement_stays.moves

theorem step_moves (hb : ∀ m : Machine, I m → b ≤ m.stack.localsAt) (i : Instr)
    (hrestore : i.intrinsic? base.image = some .restoreState →
      ∀ name, Stays I (restoreFromFile name)) (hm : I m) :
    Ends (step i m) (fun flow m' => flow.Leads I J m') fun _ m' => I m' := by
  have hact : Ends ((act i >>= fun _ => pure Flow.next) m)
      (fun flow m' => flow.Leads I J m') fun _ m' => I m' :=
    (act_moves hb i hrestore m hm).bind (fun _ _ hm' => hm') fun _ _ he => he
  cases i with
  | ret => exact (pop_stays m hm).bind (fun _ _ hm' => hm') fun _ _ he => he
  | retNil => exact hm
  | retTrue => exact hm
  | throw =>
    refine (throwTop_stays m hm).mono (fun flow m' hm' => ?_) fun _ _ he => he
    cases flow with
    | next => exact hI.goes hm'
    | returned _ => exact hm'
  | _ => exact hact

end Calling

/-- Only a part that puts another state in place may change what is below. -/
theorem step_leads (hb : b ≤ s.localsAt) (i : Instr)
    (hi : i.intrinsic? base.image = some .restoreState → b = 0) (hm : m.Kept base (s.Within b)) :
    Ends (step i m) (fun flow m' => flow.Leads (·.Kept base (s.Within b)) (·.Kept base (s.Goes b)) m')
      fun _ m' => m'.Kept base (s.Within b) := by
  refine step_moves (fun _ hm => hm.stack.localsAt ▸ hb) i (fun hr name => ?_) hm
  obtain rfl := hi hr
  exact restoreFromFile_stays (fun t h ht => ht.scrub h) name

/-! ## Calls that end -/

theorem leave_left (hm : m.Kept base S) :
    ∃ m', leave m = .ok () m' ∧ m'.Kept base (· = m.stack.left) := by
  cases hf : m.stack.frame? with
  | none =>
    refine ⟨m, leave_of_none hf, hm.same, ?_, hm.classed⟩
    rw [Stack.left, hf]
  | some f =>
    refine ⟨_, leave_of_some hf, hm.same, ?_, ?_⟩
    · rw [Stack.left, hf]
    · exact (hm.classed.ages (.releaseValues _ _)).ages (.releaseValues _ _)

theorem leaveMany_left (hm : m.Kept base S) (n : Nat) :
    ∃ m', leaveMany n m = .ok () m' ∧ m'.Kept base (· = Stack.left^[n] m.stack) := by
  induction n generalizing m S with
  | zero => exact ⟨m, rfl, hm.same, rfl, hm.classed⟩
  | succ n ih =>
    obtain ⟨m₁, hok₁, hm₁⟩ := leave_left hm
    obtain ⟨m₂, hok₂, hm₂⟩ := ih hm₁
    refine ⟨m₂, (bind_eq_of_ok hok₁).trans hok₂, hm₂.mono fun t ht => ?_⟩
    rw [ht, hm₁.stack, Function.iterate_succ_apply]

theorem halt_ne_interrupted (e : Fault) (signal : Signal) : e.halt ≠ .interrupted signal := by
  cases e <;> exact fun h => Halt.noConfusion h

theorem plainly_halts {α : Type} {x : MachineM α} {Q : α → Machine → Prop} {E : Fault → Machine → Prop}
    (hx : Ends (x m) Q E) : Ends (plainly x m) Q fun h m' => ∃ e : Fault, e.halt = h ∧ E e m' := by
  unfold plainly
  cases hr : x m with
  | ok a m' =>
    rw [hr] at hx
    exact hx
  | error e m' =>
    rw [hr] at hx
    exact ⟨e, rfl, hx⟩

/-- Only a signal interrupts a run. -/
theorem Stays.plainly {α : Type} {x : MachineM α} (hx : Stays I x) (hm : I m) :
    Ends (plainly x m) (fun _ m' => I m') fun h m' => I m' ∧ ∀ signal, h ≠ .interrupted signal :=
  (plainly_halts (hx m hm)).mono (fun _ _ ha => ha) fun _ _ ⟨e, he, hm'⟩ =>
    ⟨hm', fun signal => he ▸ halt_ne_interrupted e signal⟩

/-- The induction is on the number of calls that may be ended. -/
theorem unwind_unwound (hs : s.Nested limits) (hm : m.Kept base (s.Within b)) (hn : n ≤ s.depth) :
    Ends (unwind v n m)
      (fun _ m' => m'.Kept base fun t => ∃ n < s.depth, (Stack.left^[n] s).Within b t)
      fun h m' => m'.Kept base (s.Unwound b) ∧ ∀ signal, h ≠ .interrupted signal := by
  induction n generalizing s m with
  | zero =>
    have hnone {h : Halt} {m' : Machine}
        (he : m'.Kept base (s.Within b) ∧ ∀ signal, h ≠ .interrupted signal) :
        m'.Kept base (s.Unwound b) ∧ ∀ signal, h ≠ .interrupted signal :=
      ⟨he.1.mono fun _ ht => ⟨0, ht⟩, he.2⟩
    refine Ends.bind ((unhandled_stays v).plainly hm) (fun f m₁ hm₁ => ?_) fun _ _ he => hnone he
    refine Ends.bind ((releaseValue_stays v).plainly hm₁) (fun _ m₂ hm₂ => ?_) fun _ _ he => hnone he
    exact hnone ⟨hm₂, by simp⟩
  | succ n ih =>
    have hfind := (findHandler_stays (I := (·.Kept base (s.Within b))) v).onFault
      (releaseValue_stays v)
    refine Ends.bind (hfind.plainly hm) (fun handler? m₁ hm₁ => ?_) fun _ _ he =>
      ⟨he.1.mono fun _ ht => ⟨0, ht⟩, he.2⟩
    cases handler? with
    | some handler =>
      have hhandle : Stays (·.Kept base (s.Within b)) (handleAt handler v) := handleAt_stays handler v
      exact (hhandle.plainly hm₁).mono
        (fun _ _ hm' => hm'.mono fun _ ht => ⟨0, Nat.zero_lt_of_lt hn, ht⟩)
        fun _ _ he => ⟨he.1.mono fun _ ht => ⟨0, ht⟩, he.2⟩
    | none =>
      -- The call has no handler, so it ends, and the one around it is asked.
      obtain ⟨m₂, hok, hm₂⟩ := leave_left hm₁
      have hleft : m₂.Kept base (s.left.Within b) := hm₂.mono fun t ht => ht ▸ hm₁.stack.left hs
      have hdepth : n ≤ s.left.depth := by
        rw [Stack.depth_left]
        exact Nat.le_sub_of_add_le hn
      refine Ends.bind_ok (plainly_ok hok) ((ih hs.left hleft hdepth).mono
        (fun _ m' hm' => hm'.mono fun t ht => ?_) fun _ m' he => ⟨he.1.mono fun t ht => ?_, he.2⟩)
      · obtain ⟨k, hk, ht⟩ := ht
        rw [Stack.depth_left] at hk
        exact ⟨k + 1, by omega, ht⟩
      · obtain ⟨k, ht⟩ := ht
        exact ⟨k + 1, ht⟩

theorem handleFault_unwound (hs : s.Nested limits) (hm : m.Kept base (s.Within b)) (fault : Fault)
    (floor : Nat) :
    Ends (handleFault fault floor m)
      (fun _ m' => m'.Kept base fun t => ∃ n < s.depth, (Stack.left^[n] s).Within b t)
      fun h m' => m'.Kept base (s.Unwound b) ∧ ∀ signal, h ≠ .interrupted signal := by
  have hunwind {v : Value} {m' : Machine} (hm' : m'.Kept base (s.Within b)) :
      Ends ((get >>= fun m => unwind v (m.stack.depth - floor)) m')
        (fun _ m' => m'.Kept base fun t => ∃ n < s.depth, (Stack.left^[n] s).Within b t)
        fun h m' => m'.Kept base (s.Unwound b) ∧ ∀ signal, h ≠ .interrupted signal := by
    refine Ends.get (unwind_unwound hs hm' ?_)
    rw [hm'.stack.depth]
    exact Nat.sub_le _ _
  have hstays : m.Kept base (s.Unwound b) := hm.mono fun _ ht => ⟨0, ht⟩
  cases fault with
  | thrown v => exact hunwind hm
  | failed f =>
    unfold handleFault
    dsimp only
    split
    · exact ⟨hstays, by simp⟩
    · exact Ends.bind ((raise_stays f).plainly hm) (fun v m' hm' => hunwind hm') fun _ _ he =>
        ⟨he.1.mono fun _ ht => ⟨0, ht⟩, he.2⟩
  | endless => exact ⟨hstays, by simp⟩

/-! ## Turns -/

/-- What has become of the machine after a turn. If there is a result, then the innermost
    call has ended, and there are no more calls than there may be at the end. -/
def Passed (base : Machine) (s : Stack) (b floor : Nat) (result? : Option Value) (m : Machine) : Prop :=
  match result? with
  | none => m.Kept base (s.Next b)
  | some _ => m.Kept base (s.left.Within b) ∧ m.stack.depth ≤ floor

theorem instruction_passed (hs : s.Nested limits) (hb : b ≤ s.localsAt) (hquiet : ¬m.Quiet → b = 0)
    (hm : m.Kept base (s.Within b)) (floor : Nat) :
    Ends (instruction floor m) (Passed base s b floor)
      fun _ m' => m'.Kept base fun t => s.Within b t ∨ s.left.Within b t := by
  have hfetch := fetch_stays (I := (·.Kept base (s.Within b))) m hm
  cases hr : fetch m with
  | error e m₁ =>
    rw [hr] at hfetch
    have hfetch : m₁.Kept base (s.Within b) := hfetch
    exact Ends.bind_error hr (hfetch.mono fun _ ht => .inl ht)
  | ok i m₁ =>
    rw [hr] at hfetch
    -- Without a call there is no instruction to do.
    have hdepth : 0 < s.depth := by
      rw [← hm.stack.depth]
      refine Nat.pos_of_ne_zero fun hzero => ?_
      obtain ⟨e, he⟩ := fetch_of_frame?_none
        (List.head?_eq_none_iff.2 (List.length_eq_zero_iff.1 hzero))
      rw [he] at hr
      cases hr
    have hi : i.intrinsic? base.image = some .restoreState → b = 0 := fun hi => hquiet <| by
      rw [Quiet, instr?, hr, Option.bind_some, hm.same, hi]
      exact fun hne => hne rfl
    refine Ends.bind_ok hr ((step_leads hb i hi hfetch).bind (fun flow m₂ hm₂ => ?_) fun _ _ he =>
      he.mono fun _ ht => .inl ht)
    cases flow with
    | next => exact hm₂.mono fun _ ht => ht.imp_left fun ht => ⟨0, hdepth, ht⟩
    | returned v =>
      have hm₂ : m₂.Kept base (s.Within b) := hm₂
      obtain ⟨m₃, hok, hm₃⟩ := leave_left hm₂
      have hleft : m₃.Kept base (s.left.Within b) := hm₃.mono fun t ht => ht ▸ hm₂.stack.left hs
      refine Ends.bind_ok hok (Ends.get ?_)
      split
      · next hfloor => exact ⟨hleft, hfloor⟩
      · next hfloor =>
        rw [hleft.stack.depth, Stack.depth_left] at hfloor
        exact (push_stays (I := (·.Kept base (s.left.Within b))) v m₃ hleft).bind
          (fun _ _ hm' => hm'.mono fun _ ht => .inl ⟨1, by omega, ht⟩) fun _ _ he =>
          he.mono fun _ ht => .inr ht

/-- A signal that waits has been seen. -/
theorem checkSignal_ends (m : Machine) :
    Ends (checkSignal m) (fun _ m' => m' = m) fun _ m' => m' = { m with interrupt := none } := by
  refine Ends.get ?_
  cases m.interrupt with
  | none => rfl
  | some signal => exact Ends.bind_ok rfl rfl

theorem collectIfDue_ends (m : Machine) :
    Ends (collectIfDue m) (fun _ m' => m' = m ∨ m' = m.collectGarbage.2) fun _ _ => False := by
  refine Ends.get ?_
  split
  · have hok : (modifyGet collectGarbage : RunM CollectStats) m =
        .ok m.collectGarbage.1 m.collectGarbage.2 := rfl
    exact Ends.bind_ok hok (.inr rfl)
  · exact .inl rfl

theorem turn_passed (hs : s.Nested limits) (hb : b ≤ s.localsAt) (hquiet : ¬m.Quiet → b = 0)
    (hm : m.Kept base (s.Within b)) (floor : Nat) :
    Ends (turn floor m) (Passed base s b floor)
      fun h m' => m'.Kept base (s.Unwound b) ∧
        ∀ signal, h = .interrupted signal → m'.stack = m.stack := by
  refine (checkSignal_ends m).bind (fun _ m₁ hm₁ => ?_) fun h m₁ hm₁ => ?_
  -- A signal ends the run before anything happens to the stack.
  rotate_left
  · subst hm₁
    exact ⟨⟨hm.same, ⟨0, hm.stack⟩, hm.classed⟩, fun _ _ => rfl⟩
  subst hm₁
  have hcollect : Ends (collectIfDue m₁) (fun _ m' => m'.Kept base (s.Within b) ∧ (¬m'.Quiet → b = 0))
      fun _ _ => False := by
    refine (collectIfDue_ends m₁).mono (fun _ m₂ hm₂ => ?_) fun _ _ he => he
    rcases hm₂ with rfl | rfl
    · exact ⟨hm, hquiet⟩
    · exact ⟨hm.collectGarbage, fun hq => hquiet fun hq' => hq hq'.collectGarbage⟩
  refine hcollect.bind (fun _ m₂ hm₂ => ?_) fun _ _ he => he.elim
  have hends := instruction_passed hs hb hm₂.2 hm₂.1 floor
  cases hr : instruction floor m₂ with
  | ok result? m₃ =>
    rw [hr] at hends
    exact Ends.bind_ok (plainly_ok (attempt_ok hr)) hends
  | error e m₃ =>
    rw [hr] at hends
    refine Ends.bind_ok (plainly_ok (attempt_error hr)) ?_
    have hends : m₃.Kept base fun t => s.Within b t ∨ s.left.Within b t := hends
    rcases hends.stack with hw | hw
    · refine (handleFault_unwound hs ⟨hends.same, hw, hends.classed⟩ e floor).bind
        (fun _ m' hm' => ?_) fun h m' he => ⟨he.1, fun signal hh => absurd hh (he.2 signal)⟩
      exact hm'.mono fun t ht => .inl ht
    · -- The call had ended, but there was no room for its result.
      refine (handleFault_unwound hs.left ⟨hends.same, hw, hends.classed⟩ e floor).bind
        (fun _ m' hm' => ?_) fun h m' he => ⟨?_, fun signal hh => absurd hh (he.2 signal)⟩
      · refine hm'.mono fun t ht => .inl ?_
        obtain ⟨n, hn, ht⟩ := ht
        rw [Stack.depth_left] at hn
        exact ⟨n + 1, by omega, ht⟩
      · exact he.1.mono fun t ⟨n, ht⟩ => ⟨n + 1, ht⟩

end Machine

end StoryMachine
