import StoryMachine.Code.Assembler
import StoryMachine.Image.Draft
import StoryMachine.Proofs.Machine.Pinned

/-!
# What runs leave behind

When a run returns, whatever has ended it, no call is active and no code is pinned. Nothing is
left on the stack either, but for one case: the first function takes an argument, and there is
room for the argument but not for its local variables. Then it has not been called, so that
no call that ends takes the argument off again.

* `Machine.isCrowded`: the case in which the argument stays;
* `Idle.prepare`, `Idle.runs`: the start of a run, and runs with all their restarts;
* `Machine.Served`: what the host can do with a machine;
* `run_leaves_nothing_iff`: when nothing is left.
-/

namespace StoryMachine

/-! ## Code as it is loaded -/

theorem Pool.survives_unpinned : Survives Unpinned where
  define _ hok := unpinned_define hok
  addPage hp hok := hp.addPage hok

/-- Once the image has been loaded, only the header of its first function has been read. -/
theorem Machine.code_of_load {P : Pool → Prop} (hP : Pool.Survives P) {bs : Bytes}
    {settings : MachineSettings} {host : Host} {base : Machine}
    (hload : load bs settings host = .ok base) (hnew : (Pools.new settings.mode bs.toArray).All P) :
    ∃ p, P p ∧ p.Later base.pools.code := by
  obtain ⟨pools, bytes, himage, -, hpools⟩ := parts_of_load hload
  obtain ⟨l, hl⟩ := Image.exists_loadedFrom himage
  have hsame : pools = l.pools := hl.pools
  have hloaded : l.pools.All P := Loader.all_foldlM hP hnew hl.taken
  rw [hpools]
  exact ⟨_, hsame ▸ hloaded.code, (pools.later_readCode _ _).code⟩

theorem HeapError.failure_ne_overflow (e : HeapError) : e.failure ≠ Stack.overflow := fun h => by
  have hcode := congrArg Failure.code h
  cases e <;> cases hcode

namespace Machine

/-- The header at an offset of the code pool, if it can be read. -/
def header? (m : Machine) (ofs : UInt32) : Option MethodHeader := do
  let bs ← (m.pools.readCode ofs MethodHeader.size).1.toOption
  (MethodHeader.parse bs).toOption

/-- The first function takes an argument, and there is no room for its local variables after
    it. -/
def isCrowded (m : Machine) : Bool :=
  (m.header? m.image.entry.codeOfs).any fun header =>
    header.accepts 1 && decide (m.stack.settings.stackSize < 1 + header.locals.toNat)

/-- The machine before the last start of a run, after all its restarts. -/
def lastStart (fuel : Nat) : (restarts : Nat) → Machine → Machine
  | 0, m => m
  | restarts + 1, m =>
    match start fuel m with
    | .error (.interrupted .restart) m' =>
      match m'.settle.restart with
      | .ok m'' => lastStart fuel restarts m''
      | .error _ => m
    | _ => m

/-- What the host makes of a machine that has been loaded: it runs the program, calls
    functions, saves and restores states, and uses the object table. -/
inductive Served (base : Machine) : Machine → Prop
  | load : Served base base
  | run {m : Machine} (hm : Served base m) (fuel : Nat) : Served base (m.run fuel).2
  | call {m : Machine} (hm : Served base m) (name : String) (args : List Value) (fuel : Nat) :
      Served base (m.call name args fuel).2
  | restore {m m' : Machine} {bs : Bytes} (hm : Served base m)
      (hok : Machine.restore bs m = .ok () m') : Served base m'
  | saveState {m : Machine} (hm : Served base m) : Served base m.saveState.2
  | collectGarbage {m : Machine} (hm : Served base m) : Served base m.collectGarbage.2
  | perform {m : Machine} {op : Heap.Operation} (hm : Served base m)
      (hop : ∀ object, op = .alloc object → object.Typed m.image.metaclasses) :
      Served base { m with heap := m.heap.performed op }
  | storeFile {m : Machine} (hm : Served base m) (name : String) (bs : Bytes) :
      Served base (m.storeFile name bs)
  /-- Pages are read. -/
  | read {m : Machine} {pools : Pools} (hm : Served base m) (hpools : m.pools.Later pools) :
      Served base { m with pools }
  /-- The host is changed, or the signal that waits. -/
  | outside {m : Machine} (hm : Served base m) (host : Host) (interrupt : Interrupt) :
      Served base { m with host, interrupt }

variable {α β : Type} {base m m' : Machine} {limits : StackSettings} {k n : Nat} {ofs : UInt32}
  {header : MethodHeader} {x : MachineM α} {f : α → MachineM β} {v : Value}

/-! ## The argument -/

/-- The part changes objects only, and it is not the stack that has no room for them. -/
def Fills (x : MachineM α) : Prop := ∀ m : Machine,
  Ends (x m) (fun _ m' => ∃ heap, m' = { m with heap })
    fun e m' => (∃ heap, m' = { m with heap }) ∧ e.halt ≠ .failed Stack.overflow

theorem Fills.pure (a : α) : Fills (Pure.pure a) := fun m => ⟨m.heap, rfl⟩

theorem Fills.bind (hx : Fills x) (hf : ∀ a, Fills (f a)) : Fills (x >>= f) := fun m => by
  refine (hx m).bind (fun a m₁ hm₁ => ?_) fun _ _ he => he
  obtain ⟨heap, rfl⟩ := hm₁
  refine (hf a _).mono (fun _ m₂ hm₂ => ?_) fun _ m₂ ⟨hm₂, he⟩ => ⟨?_, he⟩
  · obtain ⟨heap', rfl⟩ := hm₂
    exact ⟨heap', rfl⟩
  · obtain ⟨heap', rfl⟩ := hm₂
    exact ⟨heap', rfl⟩

theorem Fills.mapM (hf : ∀ a, Fills (f a)) (xs : List α) : Fills (xs.mapM f) := by
  induction xs with
  | nil =>
    rw [List.mapM_nil]
    exact .pure _
  | cons a xs ih =>
    rw [List.mapM_cons]
    exact (hf a).bind fun _ => ih.bind fun _ => .pure _

theorem Fills.modifyHeap (g : Heap → Heap) : Fills (modifyHeap g) := fun m => ⟨g m.heap, rfl⟩

theorem Fills.andRelease (hx : Fills x) (vs : List Value) :
    Fills (andAfter x (releaseValues vs)) := fun m => by
  refine (hx m).andAfter (R := fun _ m' => ∃ heap, m' = { m with heap }) (fun _ m' hm' => ?_)
    fun _ m' ⟨hm', he⟩ => ?_
  · obtain ⟨heap, rfl⟩ := hm'
    exact ⟨_, rfl, _, rfl⟩
  · obtain ⟨heap, rfl⟩ := hm'
    exact ⟨_, rfl, ⟨_, rfl⟩, he⟩

theorem metaclassOf_fills (kind : Kind) : Fills (metaclassOf kind) := fun m => by
  refine Ends.get ?_
  unfold MetaclassTable.idOf
  split
  · exact ⟨m.heap, rfl⟩
  · refine ⟨⟨m.heap, rfl⟩, fun h => ?_⟩
    cases congrArg Failure.code (Halt.failed.inj h)

theorem allocate_fills (metaclass : MetaclassId) (body : Body) : Fills (allocate metaclass body) := by
  refine Fills.bind (fun m => ?_) fun _ => .pure _
  cases hr : Heap.alloc ⟨metaclass, body⟩ m.heap with
  | ok id heap =>
    rw [onHeap_ok hr]
    exact ⟨heap, rfl⟩
  | error e heap =>
    rw [onHeap_error hr]
    exact ⟨⟨heap, rfl⟩, fun h => e.failure_ne_overflow (Halt.failed.inj h)⟩

theorem newString_fills (text : String) : Fills (newString text) :=
  (metaclassOf_fills _).bind fun _ => allocate_fills _ _

theorem newList_fills (items : List Value) : Fills (newList items) :=
  (metaclassOf_fills _).bind fun _ => (Fills.modifyHeap _).bind fun _ => allocate_fills _ _

/-- If there is room for the argument, then nothing but memory is missing. -/
theorem pushArguments_fills (hroom : m.stack.hasRoom = true) :
    Ends (pushArguments m) (fun _ m' => m'.pools = m.pools ∧ m'.image = m.image)
      fun e _ => e.halt ≠ .failed Stack.overflow := by
  refine Ends.get ((Fills.mapM newString_fills m.args m).bind (fun items m₁ hm₁ => ?_)
    fun _ _ he => he.2)
  obtain ⟨heap, rfl⟩ := hm₁
  refine ((newList_fills items).andRelease items _).bind (fun v m₂ hm₂ => ?_) fun _ _ he => he.2
  obtain ⟨heap', rfl⟩ := hm₂
  refine Ends.get ?_
  rw [if_pos hroom]
  exact ⟨rfl, rfl⟩

theorem Idle.pushArguments (hm : m.Idle base limits 0) :
    Ends (pushArguments m) (fun _ m' => m'.Idle base limits 1) fun _ m' => m'.Idle base limits 0 := by
  have hitems : Stays (·.Idle base limits 0) (m.args.mapM newString) := Stays.mapM newString_stays _
  have hlist (items : List Value) : Stays (·.Idle base limits 0)
      (andAfter (newList items) (releaseValues items)) :=
    (newList_stays items).andAfter (releaseValues_stays items)
  exact Ends.get ((hitems m hm).bind (fun items m₁ hm₁ =>
    (hlist items m₁ hm₁).bind (fun v m₂ hm₂ => hm₂.push v) fun _ _ he => he) fun _ _ he => he)

/-! ## The header of the first function -/

theorem header?_congr (hpools : m'.pools = m.pools) (ofs : UInt32) :
    m'.header? ofs = m.header? ofs := by
  rw [header?, header?, hpools]

/-- A header that has been read is read again. -/
theorem readHeader_ends (m : Machine) (ofs : UInt32) : Ends (readHeader ofs m)
    (fun header m' => m.header? ofs = some header ∧ m'.header? ofs = some header ∧
      m' = { m with pools := (m.pools.readCode ofs MethodHeader.size).2 })
    fun _ _ => m.header? ofs = none := by
  cases hbs : (m.pools.readCode ofs MethodHeader.size).1 with
  | error e =>
    refine Ends.bind_error (onPools_error hbs) ?_
    simp [header?, hbs, Except.toOption]
  | ok bs =>
    refine Ends.bind_ok (onPools_ok hbs) ?_
    have hagain := Pools.readCode_readCode hbs
    cases hparse : MethodHeader.parse bs with
    | error e =>
      change m.header? ofs = none
      simp [header?, hbs, Except.toOption, hparse]
    | ok header =>
      refine ⟨?_, ?_, rfl⟩
      · simp [header?, hbs, Except.toOption, hparse]
      · simp [header?, hagain, Except.toOption, hparse]

/-- A first call whose arguments are right fails only because there is no room. -/
theorem enter_fits {argc : Nat} {self : Value} {definer? : Option ObjectId} {target? : Option PropId}
    (hframes : m.stack.frames = []) (hheader : m.header? ofs = some header)
    (haccepts : header.accepts argc = true) (hargc : argc ≤ m.stack.size)
    (hpos : 0 < m.stack.settings.maxFrames) :
    Ends (enter ofs argc self definer? target? m)
      (fun _ _ => m.stack.size + header.locals.toNat ≤ m.stack.settings.stackSize)
      fun e _ => e.halt = .failed Stack.overflow ∧
        m.stack.settings.stackSize < m.stack.size + header.locals.toNat := by
  refine Ends.onFault ?_ fun e m' he => ⟨_, rfl, he⟩
  refine (readHeader_ends m ofs).bind (fun header' m' ⟨hheader', _, hm'⟩ => ?_) fun _ _ hnone => ?_
  rotate_left
  · rw [hheader] at hnone
    cases hnone
  obtain rfl : header = header' := Option.some.inj (hheader.symm.trans hheader')
  subst hm'
  refine Ends.get ?_
  have hargs : m.stack.hasArgs argc = true := by
    simpa [Stack.hasArgs, Stack.floor, Stack.frame?, hframes] using hargc
  dsimp only
  rw [if_neg (by simp [haccepts, hargs])]
  refine Ends.get (Ends.get ?_)
  split
  · next hroom => exact ⟨rfl, hroom⟩
  · next hroom =>
    refine Ends.get (Ends.get ?_)
    rw [if_neg (not_le.2 (by simpa [Stack.depth, hframes] using hpos))]
    exact Ends.get (not_lt.1 hroom)

/-! ## The start of a run -/

/-- How many values a run that starts there leaves on the stack when it stops like this. -/
def leavings (m : Machine) (h : Halt) : Nat :=
  if m.isCrowded = true ∧ h = .failed Stack.overflow then 1 else 0

theorem leavings_of_not_isCrowded (hm : m.isCrowded = false) (h : Halt) : m.leavings h = 0 := by
  simp [leavings, hm]

theorem leavings_of_ne {h : Halt} (hh : h ≠ .failed Stack.overflow) (m : Machine) :
    m.leavings h = 0 :=
  if_neg fun hand => hh hand.2

theorem room_of_problem? (hlimits : limits.problem? = none) :
    0 < limits.stackSize ∧ 0 < limits.maxFrames := by
  unfold StackSettings.problem? at hlimits
  split at hlimits
  · cases hlimits
  · split at hlimits
    · cases hlimits
    · exact ⟨by omega, by omega⟩

/-- A first call that has its arguments. -/
theorem Idle.enterFirst {argc : Nat} (hm : m.Idle base limits argc) (hpos : 0 < limits.maxFrames)
    (hheader : m.header? ofs = some header) (haccepts : header.accepts argc = true) :
    Ends (StoryMachine.enter ofs argc .nil none none m)
      (fun _ m' => m'.Active base limits 0 ∧ argc + header.locals.toNat ≤ limits.stackSize)
      fun e m' => m'.Idle base limits argc ∧ e.halt = .failed Stack.overflow ∧
        limits.stackSize < argc + header.locals.toNat := by
  have hstart : m.Idle base limits (0 + argc) := (Nat.zero_add argc).symm ▸ hm
  have hfits : Ends (StoryMachine.enter ofs argc .nil none none m)
      (fun _ _ => argc + header.locals.toNat ≤ limits.stackSize)
      fun e _ => e.halt = .failed Stack.overflow ∧ limits.stackSize < argc + header.locals.toNat := by
    have hends := @enter_fits m ofs header argc .nil none none hm.kept.stack.frames hheader haccepts
      hm.kept.stack.size.ge (hm.kept.stack.settings.symm ▸ hpos)
    rwa [hm.kept.stack.size, hm.kept.stack.settings] at hends
  exact (hstart.enter.and hfits).mono (fun _ _ hm' => hm') fun _ _ ⟨hm', he⟩ =>
    ⟨Nat.zero_add argc ▸ hm', he⟩

/-- If there is a run then it starts at the bottom, and if there is none then nothing is
    left, unless the first function needs more room than there is. -/
theorem Idle.prepare (hm : m.Idle base limits k) (hlimits : limits.problem? = none) :
    Ends (prepare m) (fun _ m' => m'.Active base limits 0 ∧ m.isCrowded = false)
      fun e m' => m'.Idle base limits (m.leavings e.halt) := by
  obtain ⟨hsize, hdepth⟩ := room_of_problem? hlimits
  have hleave : leaveTo 0 m = .ok () m := by
    change leaveMany (m.stack.depth - 0) m = _
    rw [hm.depth_eq_zero]
    rfl
  obtain ⟨m₁, hdrop, hm₁⟩ := hm.dropAbove (Nat.zero_le k)
  have hpools : m₁.pools = m.pools := by
    cases hdrop
    rfl
  refine Ends.get (Ends.bind_ok hleave (Ends.bind_ok hdrop ?_))
  have hread := (readHeader_ends m₁ m.image.entry.codeOfs).and
    ((readHeader_stays (I := (·.Idle base limits 0)) _) m₁ hm₁)
  rw [header?_congr hpools] at hread
  refine hread.bind (fun header m₂ hheld => ?_) fun e m₂ hfailed => ?_
  rotate_left
  · obtain ⟨hnone, hm₂⟩ := hfailed
    -- Whether the argument may stay is decided by the header that has been read.
    have hcrowded : m.isCrowded = false := by simp [isCrowded, hnone]
    rw [leavings_of_not_isCrowded hcrowded]
    exact hm₂
  obtain ⟨⟨hheader, hagain, -⟩, hm₂⟩ := hheld
  have hcrowded : m.isCrowded =
      (header.accepts 1 && decide (limits.stackSize < 1 + header.locals.toNat)) := by
    simp [isCrowded, hheader, hm.kept.stack.settings]
  dsimp only
  split
  · next htakes =>
    rw [htakes, Bool.true_and] at hcrowded
    have hroom : m₂.stack.hasRoom = true := by
      have hsize₂ := hm₂.kept.stack.size
      rw [Stack.size] at hsize₂
      simp [Stack.hasRoom, hsize₂, hm₂.kept.stack.settings, hsize]
    refine (hm₂.pushArguments.and (pushArguments_fills hroom)).bind (fun _ m₃ hpushed => ?_)
      fun e m₃ hfailed => ?_
    · obtain ⟨hm₃, hsame, -⟩ := hpushed
      refine (hm₃.enterFirst hdepth ((header?_congr hsame _).trans hagain) htakes).mono
        (fun _ m₄ hentered => ?_) fun e m₄ hcrammed => ?_
      · refine ⟨hentered.1, ?_⟩
        rw [hcrowded, decide_eq_false_iff_not]
        exact not_lt.2 hentered.2
      · -- The call does not start for want of room, so that nothing takes the argument off.
        obtain ⟨hm₄, he, hfits⟩ := hcrammed
        rwa [leavings, if_pos ⟨by rw [hcrowded, decide_eq_true hfits], he⟩]
    · rw [leavings_of_ne hfailed.2]
      exact hfailed.1
  · next htakes =>
    -- The function does not take an argument, so there is nothing that could be left.
    rw [Bool.eq_false_iff.2 htakes, Bool.false_and] at hcrowded
    exact hm₂.enter.mono (fun _ _ hm₃ => ⟨hm₃, hcrowded⟩) fun e m₃ hm₃ => by
      rwa [leavings_of_not_isCrowded hcrowded]

/-- The same holds once calls have ended. -/
theorem Idle.start (hm : m.Idle base limits k) (hlimits : limits.problem? = none) (fuel : Nat) :
    Ends (start fuel m) (fun _ m' => m'.settle.Idle base limits 0)
      fun h m' => m'.settle.Idle base limits (m.leavings h) := by
  have hprepare : Ends (plainly StoryMachine.prepare m)
      (fun _ m' => m'.Active base limits 0 ∧ m.isCrowded = false)
      fun h m' => m'.Idle base limits (m.leavings h) :=
    (plainly_halts (hm.prepare hlimits)).mono (fun _ _ hm' => hm') fun _ _ ⟨_, hh, he⟩ => hh ▸ he
  refine hprepare.bind (fun _ m₁ ⟨hm₁, hcrowded⟩ => ?_) fun h m₁ hm₁ => settle_wound (.inr hm₁)
  refine (execute_active hm₁ fuel).mono (fun v m₂ hm₂ => settle_wound (.inr hm₂)) fun h m₂ hm₂ => ?_
  rw [leavings_of_not_isCrowded hcrowded]
  exact settle_wound hm₂

/-! ## Runs -/

theorem Idle.restart (hm : m.Idle base limits k) (hd : base.Definable) (hok : m.restart = .ok m') :
    m'.Idle base limits k := by
  refine ⟨(hm.kept.restart hd hok).1, ?_⟩
  rw [restart_eq_ok hm.kept hd] at hok
  obtain rfl := Except.ok.inj hok
  exact hm.housed.same (.refl _) rfl

theorem Idle.keepResult (hm : m.Idle base limits k) (v : Value) :
    (after (keepResult v) m).Idle base limits k :=
  Stays.after (I := (·.Idle base limits k)) (keepResult_stays v) hm

/-- The run has returned, and left what it leaves. The induction is on the restarts. -/
theorem Idle.runs (hm : m.Idle base limits k) (hd : base.Definable) (hlimits : limits.problem? = none)
    (fuel restarts : Nat) :
    ∃ n, (m.runs fuel restarts).2.Idle base limits n ∧ ((m.runs fuel restarts).1 ≠ .endless →
      (n = 0 ↔ ¬((m.lastStart fuel restarts).isCrowded = true ∧
        (m.runs fuel restarts).1 = .failed Stack.overflow))) := by
  induction restarts generalizing m k with
  | zero => exact ⟨k, hm, fun h => absurd rfl h⟩
  | succ restarts ih =>
    have hends := hm.start hlimits fuel
    rw [Machine.runs, lastStart]
    cases hr : StoryMachine.start fuel m with
    | ok v m' =>
      rw [hr] at hends
      exact ⟨0, hends.keepResult v, fun _ => ⟨fun _ h => (by cases h.2), fun _ => rfl⟩⟩
    | error h m' =>
      rw [hr] at hends
      have hleft : m'.settle.Idle base limits (m.leavings h) := hends
      cases h with
      | failed f =>
        have hreport : Idle { m'.settle with host := m'.settle.host.report (m'.settle.messages.text f) }
            base limits (m.leavings (.failed f)) :=
          Lasting.congr (I := (·.Idle base limits _)) hleft rfl rfl rfl rfl
        refine ⟨_, hreport, fun _ => ?_⟩
        rw [leavings]
        simp
      | endless => exact ⟨_, hleft, fun h => absurd rfl h⟩
      | interrupted signal =>
        rw [leavings_of_ne (h := .interrupted signal) fun he => by cases he] at hleft
        cases signal with
        | quit => exact ⟨0, hleft, fun _ => ⟨fun _ h => (by cases h.2), fun _ => rfl⟩⟩
        | abort => exact ⟨0, hleft, fun _ => ⟨fun _ h => (by cases h.2), fun _ => rfl⟩⟩
        | restart =>
          -- The machine has been cleared, and the objects can all be defined again.
          have hok := restart_eq_ok hleft.kept hd
          simp only [hok]
          exact ih (hleft.restart hd hok)

/-! ## Machines and their hosts -/

theorem unpinned_of_load {bs : Bytes} {settings : MachineSettings} {host : Host}
    (hload : load bs settings host = .ok base) : base.pools.code.Unpinned := by
  have hnew : (Pools.new settings.mode bs.toArray).All Pool.Unpinned := by
    cases settings.mode <;> exact ⟨fun _ => rfl, fun _ => rfl⟩
  obtain ⟨p, hp, hlater⟩ := code_of_load Pool.survives_unpinned hload hnew
  exact hlater.samePins.unpinned hp

/-- Code is read on demand if the settings say so. -/
theorem isPaged_of_load {bs : Bytes} {settings : MachineSettings} {host : Host} {maxResident : Nat}
    (hload : load bs settings host = .ok base) (hmode : settings.mode = .paged maxResident) :
    base.pools.code.isPaged = true := by
  have hnew : (Pools.new settings.mode bs.toArray).All fun p => p.isPaged = true := by
    rw [hmode]
    exact ⟨rfl, rfl⟩
  obtain ⟨p, hp, hlater⟩ := code_of_load (Pool.survives_isPaged true) hload hnew
  exact hlater.samePins.isPaged.trans hp

theorem problem?_stack_of_load {bs : Bytes} {settings : MachineSettings} {host : Host}
    (hload : load bs settings host = .ok base) : settings.stack.problem? = none := by
  rw [load] at hload
  split at hload
  · cases hload
  · next hproblem =>
    have hnone := Option.eq_none_iff_forall_ne_some.2 hproblem
    simp only [MachineSettings.problem?, Option.orElse_eq_orElse, Option.orElse_eq_or,
      Option.or_eq_none_iff] at hnone
    exact hnone.2.1

theorem idle_of_load {bs : Bytes} {settings : MachineSettings} {host : Host}
    (hload : load bs settings host = .ok base) : base.Idle base settings.stack 0 := by
  have hstack := stack_of_load hload
  have hframes : base.stack.frames = [] := by rw [hstack]
  refine ⟨⟨rfl, ?_, classed_of_load hload⟩,
    .refl (.of_unpinned (unpinned_of_load hload) hframes) hframes⟩
  rw [hstack]
  exact ⟨rfl, rfl, rfl, Nat.zero_le _⟩

theorem Served.idle (hm : Served base m) (hbase : base.Idle base limits 0) (hd : base.Definable)
    (hlimits : limits.problem? = none) : ∃ k, m.Idle base limits k := by
  induction hm with
  | load => exact ⟨0, hbase⟩
  | run _ fuel ih =>
    obtain ⟨k, hk⟩ := ih
    obtain ⟨n, hn, -⟩ := hk.runs hd hlimits fuel fuel
    exact ⟨n, hn⟩
  | call _ name args fuel ih =>
    obtain ⟨k, hk⟩ := ih
    exact ⟨k, hk.call name args fuel⟩
  | restore _ hok ih =>
    obtain ⟨k, hk⟩ := ih
    exact ⟨k, hk.restore hok⟩
  | saveState _ ih =>
    obtain ⟨k, hk⟩ := ih
    exact ⟨k, Lasting.saveState (I := (·.Idle base limits k)) hk⟩
  | collectGarbage _ ih =>
    obtain ⟨k, hk⟩ := ih
    exact ⟨k, Lasting.collectGarbage (I := (·.Idle base limits k)) hk⟩
  | perform _ hop ih =>
    obtain ⟨k, hk⟩ := ih
    refine ⟨k, hk.kept.withHeap (hk.kept.classed.performed fun object ho _ => ?_),
      hk.housed.same (.refl _) rfl⟩
    exact hk.kept.same ▸ hop object ho
  | storeFile _ name bs ih =>
    obtain ⟨k, hk⟩ := ih
    exact ⟨k, Lasting.storeFile (I := (·.Idle base limits k)) hk name bs⟩
  | read _ hpools ih =>
    obtain ⟨k, hk⟩ := ih
    exact ⟨k, Lasting.peeked (I := (·.Idle base limits k)) hk ⟨_, hpools, rfl⟩⟩
  | outside _ host interrupt ih =>
    obtain ⟨k, hk⟩ := ih
    exact ⟨k, Lasting.congr (I := (·.Idle base limits k)) hk rfl rfl rfl rfl⟩

/-- Whatever the host has done before and however a run ends, no call is active when it
    returns and no code is pinned. The stack is empty unless the first function, when it was
    to be called for the last time, took an argument and had no room for its local variables
    after it. -/
theorem run_leaves_nothing_iff {bs : Bytes} {settings : MachineSettings} {host : Host} {fuel : Nat}
    (hload : load bs settings host = .ok base) (hm : Served base m)
    (hend : (m.run fuel).1 ≠ .endless) :
    (m.run fuel).2.stack.frames = [] ∧ (m.run fuel).2.pools.code.Unpinned ∧
      ((m.run fuel).2.stack.values = #[] ↔ ¬((m.lastStart fuel fuel).isCrowded = true ∧
        (m.run fuel).1 = .failed Stack.overflow)) := by
  have hd := definable_of_load hload
  have hlimits := problem?_stack_of_load hload
  obtain ⟨k, hk⟩ := hm.idle (idle_of_load hload) hd hlimits
  obtain ⟨n, hn, hiff⟩ := hk.runs hd hlimits fuel fuel
  have hframes := hn.kept.stack.frames
  refine ⟨hframes, hn.housed.pinned.unpinned hframes, ?_⟩
  rw [← Array.size_eq_zero_iff]
  exact (iff_of_eq (congrArg (· = 0) hn.kept.stack.size)).trans (hiff hend)

/-- An image whose first function takes an argument and has so many local variables. -/
def taker (locals : UInt16) : Bytes :=
  let program := [Instr.retNil].foldl Assembler.emit (Assembler.method { argc := 1, locals })
  ImageDraft.encode {
    metaclasses := #[("list", [])]
    code := program.finish.toArray
    objects := #[⟨1, 0, [0, 0]⟩]
    entry? := some 0 }

/-- There is room for sixteen values. -/
def narrow : MachineSettings := { stack := { stackSize := 16 } }

/-- There is room for the argument and fifteen local variables. -/
theorem run_leaves_nothing_iff_taker : ∃ base, load (taker 15) narrow {} = .ok base ∧ Served base base ∧
    (base.run 1).1 = .completed .nil ∧ (base.run 1).2.stack.frames = [] ∧
      (base.run 1).2.pools.code.Unpinned ∧ (base.run 1).2.stack.values = #[] := by
  have hrun : (load (taker 15) narrow {}).toOption.any (fun base =>
      (base.run 1).1 == .completed .nil) = true := by decide +kernel
  obtain ⟨base, hload, hrun⟩ := exists_load_of_any hrun
  have hend := eq_of_beq hrun
  have hleft := run_leaves_nothing_iff hload .load (fun h => nomatch hend.symm.trans h)
  refine ⟨base, hload, .load, hend, hleft.1, hleft.2.1, hleft.2.2.2 fun h => ?_⟩
  exact nomatch hend.symm.trans h.2

/-- There is no room for one more, and the argument is left. -/
theorem not_run_leaves_nothing : ¬∀ (bs : Bytes) (settings : MachineSettings) (host : Host)
    (base m : Machine) (fuel : Nat), load bs settings host = .ok base → Served base m →
      (m.run fuel).1 ≠ .endless → (m.run fuel).2.stack.values = #[] := by
  have hrun : (load (taker 16) narrow {}).toOption.any (fun base =>
      (base.run 1).1 == .failed Stack.overflow && (base.run 1).2.stack.values.size == 1) = true := by
    decide +kernel
  obtain ⟨base, hload, hrun⟩ := exists_load_of_any hrun
  obtain ⟨hend, hsize⟩ := Bool.and_eq_true_iff.1 hrun
  intro h
  have hempty := h _ _ _ base base 1 hload .load (fun h => nomatch (eq_of_beq hend).symm.trans h)
  rw [hempty] at hsize
  cases hsize

end Machine

end StoryMachine
