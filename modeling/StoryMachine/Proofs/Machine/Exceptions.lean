import StoryMachine.Proofs.Machine.Step

/-!
# Exceptions keep counts

An exception on its way is in the machine's hands. It goes to the stack of the call
that handles it, and is released if none does.

* `raise_ends`: the exception for a failure;
* `unwind_ends`: calls ended on the way to a handler;
* `handleFault_ends`: what comes after a fault.
-/

namespace StoryMachine

/-- There was no room for an object. -/
def Halt.isMemory : Halt → Bool
  | failed f => f.code == .outOfMemory
  | _ => false

namespace Machine

variable {α : Type} {terms : Terms} {m m' : Machine} {rest : Multiset Value} {v : Value}
  {x : MachineM α} {Q : α → Machine → Prop}

/-- The run has stopped. Counts are lost only if there was no memory. A signal ends
    no call. -/
def Halted (terms : Terms) (rest : Multiset Value) (h : Halt) (m : Machine) : Prop :=
  h.isMemory = true ∨
    m.Sound terms.loose rest ∧ ∀ s, h = .interrupted s → m.Sound terms rest

theorem Halted.of_sound {h : Halt} (hm : m.Sound terms rest) : Halted terms rest h m :=
  .inr ⟨hm.loose, fun _ _ => hm⟩

theorem Halted.of_loose {h : Halt} (hm : m.Sound terms.loose rest)
    (hh : ∀ s, h ≠ .interrupted s) : Halted terms rest h m :=
  .inr ⟨hm, fun s hs => absurd hs (hh s)⟩

theorem plainly_ends (hx : Ends (x m) Q (Stopped terms rest)) :
    Ends (plainly x m) Q (Halted terms rest) := by
  unfold plainly
  cases hr : x m with
  | ok a m' =>
    rw [hr] at hx
    exact hx
  | error e m' =>
    rw [hr] at hx
    obtain ⟨hplain, hx⟩ := hx
    cases e with
    | failed f => exact hx.imp_right fun hx => ⟨hx.loose, fun _ _ => hx⟩
    | thrown v => exact hplain.elim
    | endless => exact .of_sound (hx.resolve_left (by simp [Fault.isMemory]))

theorem plainly_ok {a : α} (hx : x m = .ok a m') : plainly x m = .ok a m' := by
  rw [plainly, hx]

/-! ## Raising -/

/-- The number of a failure is put into an exception, if the image has a property
    for it. -/
theorem setNumber_acts (hm : m.Sound terms rest) (id : ObjectId) (p? : Option PropId) (n : Nat) :
    m.Acts terms rest (do
      if let some p := p? then
        onHeap (Heap.setProp id p (.ofCount n))) := by
  cases p? with
  | none => exact hm
  | some p =>
    have hgiven := hm.add_plain (v := .ofCount n) rfl
    refine (onHeap_edits (Heap.setProp_edits _ id _ _) hgiven).mono (fun _ _ hg => ?_) ?_
    · simpa using hg.2
    · rintro e _ ⟨rfl, hplain⟩
      exact ⟨hplain, .inr hm⟩

/-- The exception is a program object, so it can be given its message. -/
theorem describe_acts (hm : m.Sound terms rest) {id : ObjectId} {metaclass : MetaclassId}
    {supers : List ObjectId} {props : PropTable}
    (hobject : m.heap.get? id = some ⟨metaclass, .program supers props⟩) (f : Failure) :
    m.Acts terms rest (describe id f) := by
  refine Ends.get ?_
  cases m.image.special.exceptionMessage? with
  | none => exact setNumber_acts hm id _ _
  | some p =>
    have hnew : Ends (newString (m.messages.message f) m)
        (fun v m' => m'.Sound terms ({v} + rest) ∧ m'.heap.get? id = m.heap.get? id)
        (Stopped terms rest) := by
      refine (newString_ends hm _).mono (fun v m' hm' => ⟨hm'.1.2, hm'.2 id ?_⟩)
        fun e m' he => ⟨he.2.1, .inl he.2.2⟩
      rw [Heap.contains_eq_isSome_get?, hobject]
      rfl
    refine Ends.get (hnew.bind (fun v m' hm' => ?_) fun _ _ he => he)
    obtain ⟨h, hok⟩ := Heap.setProp_eq_ok (hm'.2.trans hobject) rfl p v
    have hends := onHeap_edits (Heap.setProp_edits m'.heap id p v) hm'.1
    rw [onHeap_ok hok] at hends
    refine Ends.bind_ok (onHeap_ok hok) (setNumber_acts ?_ id _ _)
    simpa using hends.2

theorem raise_ends (hm : m.Sound terms rest) (f : Failure) :
    Ends (raise f m) (fun v m' => m'.Sound terms ({v} + rest)) (Stopped terms rest) := by
  refine Ends.get ?_
  dsimp only
  have hk : ∀ id ∈ (m.image.special.runtimeError?.filter m.heap.contains).toList,
      m.Knows terms (.obj id) := fun id hid => by
    rw [Option.mem_toList, Option.filter_eq_some_iff] at hid
    exact .of_contains hid.2
  refine (newProgram_ends hm hk).bind (fun v m' hv => ?_) fun _ _ he => he.2
  obtain ⟨hgave, id, metaclass, rfl, hobject⟩ := hv
  refine Ends.bind (Ends.onFault (describe_acts hgave.2 hobject f) fun e m'' he =>
    ⟨_, rfl, he.releaseValue⟩) (fun _ m'' hm'' => ?_) fun _ _ he => he
  exact Ends.bind_ok rfl ⟨hm''.ready, hm''.defined, hm''.fits, hm''.laidOut, hm''.based, hm''.named,
    hm''.counted⟩

/-! ## Handlers -/

/-- A handler can be found only where there is a call. -/
theorem findHandler_peeks (exception : Value) :
    m.Peeks (findHandler exception) fun _ => ∃ f, m.stack.frame? = some f := by
  refine currentFrame_peeks.bind fun f hf => ?_
  split
  · exact .pure ⟨f, hf⟩
  · refine (Peeks.reads fun pools => pools.later_codeSlice _).bind fun slice _ => ?_
    exact Peeks.get.bind fun m' _ => (liftDecoded_peeks _).bind fun _ _ => .pure ⟨f, hf⟩

/-- There always is a text. -/
theorem thrownText_ends (exception : Value) :
    Ends (thrownText exception m) (fun _ m' => m.Peeked m') fun _ _ => False := by
  refine Ends.get ?_
  dsimp only [Option.bind_eq_bind]
  cases exception.obj?.bind fun id => m.image.special.exceptionMessage?.bind fun p =>
      Inheritance.lookup m.heap.source id p with
  | none => exact .refl m
  | some found =>
    have hends := displayText_peeks found.value m (.refl m)
    cases hr : displayText found.value m with
    | ok text m' =>
      rw [hr] at hends
      exact Ends.bind_ok (attempt_ok hr) hends.1
    | error e m' =>
      rw [hr] at hends
      exact Ends.bind_ok (attempt_error hr) hends.1

/-- Whatever the text is, the failure is the one for exceptions without a handler. -/
theorem unhandled_ends (exception : Value) :
    Ends (unhandled exception m) (fun f m' => f.code = .unhandledException ∧ m.Peeked m')
      fun _ _ => False := by
  refine Ends.get ?_
  cases exception.obj?.bind (m.raised.lookup ·) with
  | none => exact (thrownText_ends exception).bind (fun _ _ hm' => ⟨rfl, hm'⟩) fun _ _ he => he
  | some f => exact ⟨rfl, .refl m⟩

theorem currentFrame_eq_ok {f : Frame} (hf : m.stack.frame? = some f) :
    currentFrame m = .ok f m := by
  simp only [currentFrame, bind, EStateM.bind, get, getThe, MonadStateOf.get, EStateM.get, hf]
  rfl

/-- The exception becomes the only operand of the call that handles it. -/
theorem handleAt_acts (hm : m.Sound terms ({v} + rest)) (hf : ∃ f, m.stack.frame? = some f)
    (handler : UInt16) : m.Acts terms rest (handleAt handler v) := by
  obtain ⟨f, hf⟩ := hf
  obtain ⟨m', hok, hm', -⟩ := dropAbove_eq_ok hm f.stackBase
  refine Ends.bind_ok (currentFrame_eq_ok hf) (Ends.bind_ok hok (Ends.bind_ok rfl (push_acts ?_)))
  exact hm'.modifyFrame (fun _ => rfl) fun _ => ⟨rfl, rfl, rfl, rfl⟩

/-- The induction is on the number of calls that may be ended. The outermost one is
    among them, so it need not be there at the end. -/
theorem unwind_ends {n : Nat} (hm : m.Sound terms.loose ({v} + rest)) (hn : n ≤ m.stack.depth)
    (hbased : n ≠ 0 → ∀ b ∈ terms.base?, m.stack.base? = some b) :
    Ends (unwind v n m) (fun _ m' => m'.Sound terms rest) (Halted terms rest) := by
  induction n generalizing m with
  | zero =>
    have htext : Ends (unhandled v m) (fun _ m' => m'.Sound terms.loose ({v} + rest))
        (Stopped terms rest) :=
      (unhandled_ends v).mono (fun _ _ hm' => hm.peeked hm'.2) fun _ _ he => he.elim
    refine Ends.bind (plainly_ends htext) (fun f m₁ hm₁ => ?_) fun _ _ he => he
    exact Ends.bind_ok (plainly_ok rfl) (.of_loose hm₁.releaseValue (by simp))
  | succ n ih =>
    have hm := hm.rebase (hbased (Nat.succ_ne_zero n))
    refine Ends.bind (plainly_ends (Ends.onFault (findHandler_peeks v m (.refl m)) fun e m₁ he =>
      ⟨_, rfl, (Stopped.of_peeked hm he.1 he.2).releaseValue⟩)) (fun handler? m₁ hm₁ => ?_)
      fun _ _ he => he
    have hs₁ := hm.peeked hm₁.1
    have hstack := hm₁.1.beside.stack
    cases handler? with
    | some handler =>
      refine plainly_ends (handleAt_acts hs₁ ?_ handler)
      rw [hstack]
      exact hm₁.2
    | none =>
      obtain ⟨m₂, hok, hm₂, hleft⟩ := leave_eq_ok hs₁
      refine Ends.bind_ok (plainly_ok hok) (ih hm₂ ?_ fun h0 b hb => ?_)
      · rw [Stack.depth, hleft.frames, hstack, List.length_drop]
        exact Nat.le_sub_of_add_le hn
      · rw [hleft.base?_eq (by rw [hstack]; omega), hs₁.based b hb]

/-- What comes after a fault leaves nothing in the machine's hands. -/
theorem handleFault_ends {fault : Fault} (hm : Threw terms rest fault m) (floor : Nat) :
    Ends (handleFault fault floor m) (fun _ m' => m'.Sound terms rest) (Halted terms rest) := by
  have hunwind {v : Value} {m' : Machine} (hm' : m'.Sound terms ({v} + rest)) :
      Ends ((get >>= fun m => unwind v (m.stack.depth - floor)) m')
        (fun _ m'' => m''.Sound terms rest) (Halted terms rest) :=
    unwind_ends hm'.loose (Nat.sub_le _ _) fun _ => hm'.based
  cases fault with
  | thrown v =>
    rcases hm with ⟨w, hw, hm⟩ | hm
    · obtain rfl := Fault.thrown.inj hw
      exact hunwind hm
    · exact hm.1.elim
  | failed f =>
    obtain ⟨w, hw, -⟩ | ⟨-, hm⟩ := hm
    · cases hw
    unfold handleFault
    dsimp only
    split
    · exact hm.imp_right fun hm => ⟨hm.loose, fun _ _ => hm⟩
    · next hfatal =>
      -- There being no memory is fatal.
      have hsound := hm.resolve_left fun hmemory => hfatal ?_
      · exact Ends.bind (plainly_ends (raise_ends hsound f)) (fun v m' hm' => hunwind hm')
          fun _ _ he => he
      · rw [Failure.isFatal, eq_of_beq hmemory]
        rfl
  | endless =>
    obtain ⟨w, hw, -⟩ | ⟨-, hm⟩ := hm
    · cases hw
    · exact .of_sound (hm.resolve_left (by simp [Fault.isMemory]))

end Machine

end StoryMachine
