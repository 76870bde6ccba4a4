import StoryMachine.Proofs.Heap.Clear
import StoryMachine.Proofs.Machine.Exceptions

/-!
# Runs keep counts

Between two instructions there is nothing in the machine's hands, whatever the
first of them did. A run that ends, and one that starts anew, leave nothing there
either.

* `instruction_ends`, `turn_ends`: one instruction, and what goes with it;
* `prepare_ends`, `prepareCall_ends`: the start of a run and of a call;
* `Sound.settle`, `Sound.restart`: the end of a run, and a restart.
-/

namespace StoryMachine

/-- The next instruction, if there is one. -/
def Machine.instr? (m : Machine) : Option Instr :=
  match fetch m with
  | .ok i _ => some i
  | .error _ _ => none

/-- The next instruction does not call the function that puts another state in
    place of the machine's. -/
def Machine.Quiet (m : Machine) : Prop :=
  m.instr?.bind (·.intrinsic? m.image) ≠ some .restoreState

instance (m : Machine) : Decidable m.Quiet := inferInstanceAs (Decidable (_ ≠ _))

namespace Machine

variable {α : Type} {terms : Terms} {m m' : Machine} {rest : Multiset Value} {v : Value}
  {vs : List Value} {x : MachineM α} {Q : α → Machine → Prop} {floor : Nat}

/-! ## Instructions -/

theorem fetch_of_frame? {f : Frame} (hf : m.stack.frame? = some f) :
    fetch m = (onPools (·.codeSlice f.next) >>= fun slice =>
      liftDecoded (Instr.decode (slice.front Instr.maxLength)) >>= fun p => do
        modifyFrame fun g => { g with current := f.next, next := f.next + UInt32.ofNat p.2 }
        return p.1) m := by
  change EStateM.bind _ _ _ = _
  rw [EStateM.bind, currentFrame_eq_ok hf]

theorem fetch_of_frame?_none (hf : m.stack.frame? = none) : ∃ e, fetch m = .error e m := by
  refine ⟨.failed (.internal "no active frame"), ?_⟩
  change EStateM.bind _ _ _ = _
  simp only [EStateM.bind, currentFrame, bind, get, getThe, MonadStateOf.get, EStateM.get, hf]
  rfl

theorem instr?_congr (hstack : m'.stack = m.stack) (hpools : m'.pools = m.pools) :
    m'.instr? = m.instr? := by
  unfold instr?
  cases hf : m.stack.frame? with
  | none =>
    obtain ⟨e, he⟩ := fetch_of_frame?_none hf
    obtain ⟨e', he'⟩ := fetch_of_frame?_none (m := m') (hstack ▸ hf)
    rw [he, he']
  | some f =>
    rw [fetch_of_frame? hf, fetch_of_frame? (hstack ▸ hf)]
    simp only [bind, EStateM.bind, onPools, hpools]
    rcases m.pools.codeSlice f.next with ⟨_ | slice, pools⟩
    · rfl
    · simp only
      cases Instr.decode (slice.front Instr.maxLength) <;> rfl

theorem fetch_ends (hm : m.Sound terms rest) :
    Ends (fetch m) (fun i m' => m'.Sound terms rest ∧ m.instr? = some i ∧ m'.image = m.image)
      (Stopped terms rest) := by
  have hends : Ends (fetch m) (fun _ m' => m'.Sound terms rest ∧ m'.image = m.image)
      (Stopped terms rest) := by
    have hstop (e : Fault) (m' : Machine) (he : m.Peeked m' ∧ e.Plain) :
        Stopped terms rest e m' := .of_peeked hm he.1 he.2
    refine (currentFrame_peeks m (.refl m)).bind (fun f m₁ hm₁ => ?_) hstop
    have hslice : m.Peeks (onPools (·.codeSlice f.next)) fun _ => True :=
      .reads fun pools => pools.later_codeSlice _
    refine (hslice m₁ hm₁.1).bind (fun slice m₂ hm₂ => ?_) hstop
    refine (liftDecoded_peeks _ m₂ hm₂.1).bind (fun i m₃ hm₃ => ?_) hstop
    refine Ends.bind_ok rfl ⟨?_, hm₃.1.beside.image⟩
    exact (hm.peeked hm₃.1).modifyFrame (fun _ => rfl) fun _ => ⟨rfl, rfl, rfl, rfl⟩
  cases hr : fetch m with
  | ok i m' =>
    rw [hr] at hends
    exact ⟨hends.1, by rw [instr?, hr], hends.2⟩
  | error e m' =>
    rw [hr] at hends
    exact hends

theorem Quiet.collectGarbage (hm : m.Quiet) : m.collectGarbage.2.Quiet := by
  have hinstr : m.collectGarbage.2.instr? = m.instr? := instr?_congr rfl rfl
  rw [Quiet, hinstr]
  exact hm

/-- What is true after an instruction. One that ends the last call above the floor
    has a result. -/
def Turned (terms : Terms) (rest : Multiset Value) (floor : Nat) (result? : Option Value)
    (m : Machine) : Prop :=
  match result? with
  | none => m.Sound terms rest
  | some v => m.Sound terms.loose ({v} + rest) ∧ m.stack.depth ≤ floor

theorem instruction_ends (hm : m.Sound terms rest) (hrest : terms.stale = false → rest = 0)
    (hquiet : m.Quiet) (floor : Nat) :
    Ends (instruction floor m) (Turned terms rest floor) (Threw terms rest) := by
  refine (fetch_ends hm).bind (fun i m₁ hm₁ => ?_) fun _ _ he => .inr he
  obtain ⟨hs₁, hi, himage⟩ := hm₁
  have hquiet : i.intrinsic? m₁.image ≠ some .restoreState := by
    rwa [Quiet, hi, Option.bind_some, ← himage] at hquiet
  refine (step_ends hs₁ hrest i hquiet).bind (fun flow m₂ hm₂ => ?_) fun _ _ he => he
  cases flow with
  | next =>
    have hsound : m₂.Sound terms (0 + rest) := hm₂
    rwa [zero_add] at hsound
  | returned v =>
    have hm₂ : m₂.Sound terms ({v} + rest) := hm₂
    obtain ⟨m₃, hok, hm₃, hleft⟩ := leave_eq_ok hm₂
    refine Ends.bind_ok hok (Ends.get ?_)
    split
    · next hdepth => exact ⟨hm₃, hdepth⟩
    · next hdepth =>
      have hdeep : 1 < m₂.stack.depth := by
        rw [Stack.depth, hleft.frames, List.length_drop] at hdepth
        rw [Stack.depth]
        omega
      have hsound := hm₃.rebase fun b hb => (hleft.base?_eq hdeep).trans (hm₂.based b hb)
      exact Ends.bind (push_acts hsound) (fun _ m' hm' => (hm' : m'.Sound terms rest)) fun _ _ he =>
        .inr he

/-- Whatever an instruction does, nothing is in the machine's hands after it but a
    result of the run. -/
theorem turn_ends (hm : m.Sound terms rest) (hrest : terms.stale = false → rest = 0)
    (hquiet : m.Quiet) (floor : Nat) :
    Ends (turn floor m) (Turned terms rest floor) (Halted terms rest) := by
  have hcheck : Ends (checkSignal m) (fun _ m' => m' = m) (Halted terms rest) := by
    refine Ends.get ?_
    cases m.interrupt with
    | none => rfl
    | some s =>
      have hsound : Sound { m with interrupt := none } terms rest :=
        ⟨hm.ready, hm.defined, hm.fits, hm.laidOut, hm.based, hm.named, hm.counted⟩
      exact Ends.bind_ok rfl (.of_sound hsound)
  refine hcheck.bind (fun _ m₁ hm₁ => ?_) fun _ _ he => he
  subst hm₁
  have hcollect : Ends (collectIfDue m₁) (fun _ m' => m'.Sound terms rest ∧ m'.Quiet)
      (Halted terms rest) := by
    refine Ends.get ?_
    split
    · have hok : (modifyGet collectGarbage : RunM CollectStats) m₁ =
          .ok m₁.collectGarbage.1 m₁.collectGarbage.2 := rfl
      exact Ends.bind_ok hok ⟨hm.collectGarbage hrest, hquiet.collectGarbage⟩
    · exact ⟨hm, hquiet⟩
  refine hcollect.bind (fun _ m₂ hm₂ => ?_) fun _ _ he => he
  have hends := instruction_ends hm₂.1 hrest hm₂.2 floor
  cases hr : instruction floor m₂ with
  | ok result? m₃ =>
    rw [hr] at hends
    exact Ends.bind_ok (plainly_ok (attempt_ok hr)) hends
  | error e m₃ =>
    rw [hr] at hends
    refine Ends.bind_ok (plainly_ok (attempt_error hr)) ?_
    exact (handleFault_ends hends floor).bind (fun _ _ hm' => hm') fun _ _ he => he

/-! ## The start of a run -/

theorem newStrings_ends (hm : m.Sound terms rest) (texts : List String) :
    Ends (texts.mapM newString m) (fun vs => m.Gave terms rest vs)
      fun e _ => e.Plain ∧ e.isMemory = true := by
  induction texts generalizing m rest with
  | nil =>
    rw [List.mapM_nil]
    refine ⟨.refl m, ?_⟩
    simpa using hm
  | cons text texts ih =>
    rw [List.mapM_cons]
    refine (newString_ends hm text).bind (fun v m₁ hv => ?_) fun e _ he => he.2
    refine (ih hv.1.2).bind (fun vs m₂ hvs => ?_) fun e _ he => he
    refine ⟨hv.1.1.trans hvs.1, ?_⟩
    have hsound := hvs.2
    rwa [← add_assoc, add_comm (vs : Multiset Value), Multiset.singleton_add,
      Multiset.cons_coe] at hsound

theorem pushArguments_ends (hm : m.Sound terms rest) :
    Ends (pushArguments m) (fun _ m' => m'.Sound terms rest ∧
      m'.stack.frames = m.stack.frames ∧ m'.stack.size = m.stack.size + 1)
      (Stopped terms rest) := by
  refine Ends.get ((newStrings_ends hm m.args).bind (fun items m₁ hitems => ?_)
    fun e _ he => ⟨he.1, .inl he.2⟩)
  have hknown : ∀ v ∈ items, m₁.Knows terms v := fun v hv => hitems.2.knows_held (by simp [hv])
  have hlist := newList_yields hitems.2 hknown
  refine hlist.andRelease.bind (fun v m₂ hv => ?_) fun _ _ he => he
  refine (push_ends hv.2).mono (fun _ m₃ hm₃ => ⟨hm₃.1, ?_, ?_⟩) fun _ _ he => he
  · rw [hm₃.2, Stack.put, hv.1.stack, hitems.1.stack]
  · rw [hm₃.2, Stack.put, hv.1.stack, hitems.1.stack, Stack.size, Array.size_push, Stack.size]

/-- The first function starts on an empty stack. -/
theorem prepare_ends {stale : Bool} {names : Set ObjectId}
    (hm : m.Sound ⟨stale, none, names⟩ rest) :
    Ends (prepare m) (fun _ m' => m'.Sound ⟨stale, some 0, names⟩ rest)
      (Stopped ⟨stale, none, names⟩ rest) := by
  refine Ends.get ?_
  obtain ⟨m₁, hok₁, hm₁, hleft⟩ := leaveTo_eq_ok hm 0
  obtain ⟨m₂, hok₂, hm₂, hstack⟩ := dropAbove_eq_ok hm₁ 0
  refine Ends.bind_ok hok₁ (Ends.bind_ok hok₂ ?_)
  refine (readHeader_peeks _ m₂ (.refl m₂)).bind (fun header m₃ hm₃ => ?_) fun e m₃ he =>
    .of_peeked hm₂ he.1 he.2
  have hs₃ := hm₂.peeked hm₃.1
  have hframes : m₃.stack.frames = [] := by
    rw [hm₃.1.beside.stack, hstack, Stack.truncate, hleft.frames, Nat.sub_zero, Stack.depth,
      List.drop_length]
  have hsize : m₃.stack.size = 0 := by
    rw [hm₃.1.beside.stack, hstack, Stack.size, Stack.truncate, Array.size_shrink, Nat.zero_min]
  -- An argument, if there is one, is where the call starts.
  have henter {m' : Machine} {argc : Nat} (hm' : m'.Sound ⟨stale, none, names⟩ rest)
      (hframes' : m'.stack.frames = []) (hsize' : m'.stack.size = argc) :
      Ends (enter m.image.entry.codeOfs argc .nil none none m')
        (fun _ m'' => m''.Sound ⟨stale, some 0, names⟩ rest) (Stopped ⟨stale, none, names⟩ rest) := by
    refine (enter_refuses (hm'.add_plain (v := .nil) rfl)).mono (fun _ m'' hm'' => ?_)
      fun _ _ he => he.stopped
    have hbase := hm''.2 hframes'
    rw [hsize', Nat.sub_self] at hbase
    have hstart : ∀ b ∈ some 0, m''.stack.base? = some b := fun b hb => by
      rw [hbase, ← Option.some.inj hb]
    exact .rebase hm''.1 hstart
  dsimp only
  split
  · refine (pushArguments_ends hs₃).bind (fun _ m₄ hm₄ => ?_) fun _ _ he => he
    exact henter hm₄.1 (hm₄.2.1.trans hframes) (by rw [hm₄.2.2, hsize])
  · exact henter hs₃ hframes hsize

theorem pushAll_refuses (hm : m.Sound terms rest) {args : List Value}
    (hargs : ∀ v ∈ args, m.Knows terms v) :
    Ends (args.forM pushOwned m) (fun _ m' => m'.Sound terms rest) (Refused terms rest) := by
  induction args generalizing m with
  | nil => exact hm
  | cons v args ih =>
    have hsound := hm.retainValue (hargs v List.mem_cons_self)
    have hpush : Ends (pushOwned v m) (fun _ m' => m'.Sound terms rest ∧
        m'.heap = m.heap.retainValue v) (Refused terms rest) :=
      Ends.bind_ok rfl ((push_refuses hsound).mono (fun _ m' hm' => ⟨hm'.1, by rw [hm'.2]⟩)
        fun _ _ he => he)
    refine hpush.bind (fun _ m' hm' => ih hm'.1 fun w hw => ?_) fun _ _ he => he
    rw [Knows, hm'.2]
    exact (hargs w (List.mem_cons_of_mem _ hw)).retainValue v

/-- A call that cannot start takes its arguments off again. -/
theorem prepareCall_refuses (hm : m.Sound terms rest) {args : List Value}
    (hargs : ∀ v ∈ args, m.Knows terms v) (ofs : UInt32) :
    Ends (prepareCall ofs args m) (fun _ m' => m'.Sound terms rest) (Refused terms rest) := by
  refine Ends.get (Ends.onFault (E := Refused terms rest) ?_ fun e m' he => ⟨_, rfl, he.1,
    (he.2.truncate _).releaseValues⟩)
  have henter (m' : Machine) (hm' : m'.Sound terms rest) :
      Ends (enter ofs args.length .nil none none m') (fun _ m' => m'.Sound terms rest)
        (Refused terms rest) :=
    (enter_refuses (hm'.add_plain (v := .nil) rfl)).mono (fun _ _ hm' => hm'.1) fun _ _ he => he
  exact (pushAll_refuses hm hargs).bind (fun _ m' hm' => henter m' hm') fun _ _ he => he

theorem prepareCall_acts (hm : m.Sound terms rest) {args : List Value}
    (hargs : ∀ v ∈ args, m.Knows terms v) (ofs : UInt32) :
    m.Acts terms rest (prepareCall ofs args) :=
  (prepareCall_refuses hm hargs ofs).mono (fun _ _ hm' => hm') fun _ _ he => he.stopped

/-! ## The end of a run -/

/-- The former result is let go of. -/
theorem Sound.keepResult (hm : m.Sound terms ({v} + rest)) :
    (after (keepResult v) m).Sound terms rest := by
  have hsound : Sound { m with result := v } terms ({m.result} + rest) := by
    refine hm.rearrange rfl rfl hm.fits hm.laidOut hm.based (.of_eq ?_)
    rw [placed, placed]
    abel
  exact hsound.releaseValue

theorem settle_of_left (hm : m.Sound terms rest) :
    m.settle.Sound terms.loose rest ∧ m.Left m.stack.depth m.settle := by
  obtain ⟨m', hok, hm', hleft⟩ := leaveTo_eq_ok hm 0
  have hsettle : m.settle = { m' with raised := [] } := by
    rw [settle, after, hok]
  rw [hsettle]
  exact ⟨⟨hm'.ready, hm'.defined, hm'.fits, hm'.laidOut, hm'.based, hm'.named, hm'.counted⟩,
    hleft.frames, hleft.bottom⟩

/-- A restart forgets all names, as those on the stack are gone already. -/
theorem Sound.restart {stale : Bool} {names : Set ObjectId}
    (hm : m.Sound ⟨stale, none, names⟩ rest)
    (hrest : stale = false → rest = 0) (hframes : m.stack.frames = [])
    (hvalues : m.stack.values = #[]) (hok : m.restart = .ok m') :
    m'.Sound ⟨stale, none, names⟩ rest ∧ m'.stack = m.stack := by
  obtain ⟨h, hfold, hok⟩ := Except.bind_eq_ok.1 hok
  obtain rfl := Except.ok.inj hok
  rw [← Array.foldlM_toList] at hfold
  have htidy := hm.counted.tidy
  have hr := (Heap.imaged_clear htidy.size_pos htidy.size_le).refilled.foldlM
    (fun h d h' hd => ?_) (fun d hd => hm.ready.objects d (Array.mem_toList_iff.1 hd)) hfold
  · rw [List.nil_append] at hr
    have hthere : ∀ n ∈ m.image.objects.toList.map Prod.fst,
        m.heap.isPersistent (.ofImage n) = true := fun n hn => by
      obtain ⟨d, hd, rfl⟩ := List.mem_map.1 hn
      exact hm.defined d (Array.mem_toList_iff.1 hd)
    have hcounted := hr.counted hthere (fun hrel id hid => hm.knows_held hid id rfl hrel) hrest
    have hop := hr.imaged.opened
    refine ⟨⟨hm.ready, fun d hd => ?_, hm.fits, hm.laidOut, fun _ hb => (by cases hb),
      fun hw id hid => ?_, ?_⟩, rfl⟩
    · rw [Heap.isPersistent, hop.occupant?]
      exact hr.defined _ (List.mem_map_of_mem (Array.mem_toList_iff.2 hd))
    · have hw : h.wrapped = false := hop.frame.2.2.2 ▸ hw
      have hclear : m.heap.clear.wrapped = false := hr.frame.2.2 ▸ hw
      exact hop.known (hr.known hthere hw (hm.named (Bool.or_eq_false_iff.1 hclear).1 id hid))
    · refine hcounted.congr fun id => ?_
      -- All variables are nil.
      rw [placed_eq, hframes, hvalues]
      simp
  · split at hd
    · next id h₁ hok =>
      obtain rfl := Except.ok.inj hd
      exact ⟨id, hok⟩
    · cases hd

end Machine

end StoryMachine
