import StoryMachine.Proofs.Machine.Isolation
import StoryMachine.Proofs.Machine.Restart
import StoryMachine.Proofs.Machine.Session

/-!
# Lives of machines

A machine is loaded, and then it runs its program, calls functions and is put back to
saved states for as long as its host likes. Unlike a session, its life goes on when
memory has run out, and when the program itself puts another state in place. All the
time the calls lie one above the other on the stack, and objects are of metaclasses for
their kinds.

* `Life.Step`, `Life.Reachable`: the order of what happens;
* `Life.Fits`: the invariant;
* `Life.runs_leads`, `Life.call_leads`: whole runs and calls are parts of lives.
-/

namespace StoryMachine

/-! ## The start and the end of a run -/

namespace Stack

variable {limits : StackSettings} {s t : Stack} {b n : Nat} {f : Frame}

/-- The stack after a turn that leaves a call to go on with. -/
theorem Next.nested (hn : s.Next b t) (hs : s.Nested limits) : t.Nested limits := by
  rcases hn with ⟨n, -, hw⟩ | hopened
  · exact hw.nested (hs.iterate_left n)
  · exact Goes.nested (.inr hopened) hs

theorem Unwound.nested (hu : s.Unwound b t) (hs : s.Nested limits) : t.Nested limits := by
  obtain ⟨n, hw⟩ := hu
  exact hw.nested (hs.iterate_left n)

theorem Nested.scrub (hs : s.Nested limits) (h : Heap) : (s.scrub h).Nested limits :=
  ((Within.refl hs 0).scrub h).nested hs

/-- No calls, and the arguments of the one that is to start. -/
structure Cleared (limits : StackSettings) (n : Nat) (s : Stack) : Prop where
  /-- The limits of the stack are these. -/
  settings : s.settings = limits
  /-- There are no calls. -/
  frames : s.frames = []
  /-- There are the arguments only. -/
  size : s.size = n
  /-- There is room for them. -/
  size_le : s.size ≤ limits.stackSize

theorem Cleared.nested (hs : s.Cleared limits n) : s.Nested limits := by
  have hfloor : s.floor = 0 := by rw [floor, frame?, hs.frames]; rfl
  refine ⟨hs.settings, ?_, ?_, ?_, hfloor ▸ Nat.zero_le _, hs.size_le, ?_⟩
  · simp [hs.frames]
  · simp [hs.frames]
  · simp [hs.frames]
  · simp [depth, hs.frames]

theorem Cleared.put (hs : s.Cleared limits n) (hroom : s.hasRoom = true) (v : Value) :
    (s.put v).Cleared limits (n + 1) where
  settings := hs.settings
  frames := hs.frames
  size := by rw [Stack.size, Stack.put, Array.size_push, ← hs.size, Stack.size]
  size_le := by
    rw [Stack.size, Stack.put, Array.size_push, ← hs.settings]
    simpa [hasRoom, Nat.succ_le_iff] using hroom

/-- The first call starts at the bottom. -/
theorem Cleared.base?_call (hs : s.Cleared limits n) (hf : s.Admits f) (hargc : f.argc = n) :
    (s.call f).base? = some 0 := by
  have hstart : f.argBase = 0 := by
    have := hf.args
    rw [hf.start, hs.size, hargc] at this
    omega
  rw [base?, call, hs.frames, List.getLast?_singleton, Option.map_some, hstart]

theorem Within.base? (hw : s.Within b t) : t.base? = s.base? := by
  have hmap := congrArg List.getLast? (hw.map_frames Frame.argBase fun _ => rfl)
  rwa [List.getLast?_map, List.getLast?_map] at hmap

/-- The outermost call stays as long as there is one. -/
theorem Next.base? {c : Nat} (hn : s.Next b t) (hc : s.base? = some c) : t.base? = some c := by
  rcases hn with ⟨n, hlt, hw⟩ | ⟨u, f, hw, -, rfl⟩
  · have hlength : ¬s.frames.length ≤ n := not_le.2 hlt
    rw [hw.base?, Stack.base?, frames_iterate_left, List.getLast?_drop, if_neg hlength]
    exact hc
  · rw [← hw.base?] at hc
    rw [Stack.base?, Option.map_eq_some_iff] at *
    obtain ⟨g, hg, rfl⟩ := hc
    refine ⟨g, ?_, rfl⟩
    rw [Stack.call, List.getLast?_cons, hg]
    rfl

end Stack

namespace Machine

variable {base m m' : Machine} {limits : StackSettings} {S : Stack → Prop} {I : Machine → Prop} {n : Nat}
  {x : MachineM Unit}

theorem Stays.after (hx : Stays I x) (hm : I m) : I (after x m) := by
  have hends := hx m hm
  unfold StoryMachine.after
  cases hr : x m with
  | ok _ m' =>
    rw [hr] at hends
    exact hends
  | error e m' =>
    rw [hr] at hends
    exact hends

theorem leaveTo_left (hm : m.Kept base S) (floor : Nat) : ∃ m', leaveTo floor m = .ok () m' ∧
    m'.Kept base (· = Stack.left^[m.stack.depth - floor] m.stack) :=
  leaveMany_left hm _

theorem Kept.settle (hm : m.Kept base S) :
    m.settle.Kept base (· = Stack.left^[m.stack.depth] m.stack) := by
  obtain ⟨m', hok, hm'⟩ := leaveTo_left hm 0
  have hsettle : m.settle = { m' with raised := [] } := by rw [Machine.settle, StoryMachine.after, hok]
  rw [hsettle]
  exact hm'.congr rfl rfl rfl

theorem keepResult_stays [Lasting base I] (v : Value) : Stays I (keepResult v) := by
  refine .get fun m _ => Stays.bind (.modify fun m hm => ?_) fun _ => releaseValue_stays _
  exact Lasting.congr hm rfl rfl rfl rfl

theorem Kept.keepResult (hm : m.Kept base S) (v : Value) : (after (keepResult v) m).Kept base S :=
  Stays.after (I := (·.Kept base S)) (keepResult_stays v) hm

theorem push_cleared (hm : m.Kept base (Stack.Cleared limits n)) (v : Value) :
    Ends (push v m) (fun _ m' => m'.Kept base (Stack.Cleared limits (n + 1)))
      fun _ m' => m'.Kept base (Stack.Cleared limits n) := by
  refine Ends.get ?_
  split
  · next hroom => exact hm.withStack (hm.stack.put hroom v)
  · exact Ends.bind_ok rfl (hm.withHeap (hm.classed.ages (.releaseValue _ v)))

theorem pushArguments_cleared (hm : m.Kept base (Stack.Cleared limits 0)) :
    Ends (pushArguments m) (fun _ m' => m'.Kept base (Stack.Cleared limits 1))
      fun _ m' => m'.Kept base (Stack.Cleared limits 0) := by
  refine Ends.get ((Stays.mapM newString_stays _ m hm).bind (fun items m₁ hm₁ => ?_) fun _ _ he => he)
  have hlist : Stays (·.Kept base (Stack.Cleared limits 0))
      (andAfter (newList items) (releaseValues items)) :=
    (newList_stays items).andAfter (releaseValues_stays items)
  exact (hlist m₁ hm₁).bind (fun v m₂ hm₂ => push_cleared hm₂ v) fun _ _ he => he

/-- A run starts with nothing on the stack but its arguments. -/
theorem prepare_grounds (hm : m.Kept base (Stack.Nested limits)) :
    Ends (prepare m) (fun _ m' => m'.Kept base fun t => t.Nested limits ∧ t.base? = some 0)
      fun _ m' => m'.Kept base (Stack.Nested limits) := by
  have hnested {n : Nat} {m' : Machine} (hm' : m'.Kept base (Stack.Cleared limits n)) :
      m'.Kept base (Stack.Nested limits) := hm'.mono fun _ ht => ht.nested
  have henter {n : Nat} {m' : Machine} (hm' : m'.Kept base (Stack.Cleared limits n)) (entry : UInt32) :
      Ends (enter entry n .nil none none m')
        (fun _ m'' => m''.Kept base fun t => t.Nested limits ∧ t.base? = some 0)
        fun _ m'' => m''.Kept base (Stack.Nested limits) := by
    refine (hm'.enter_calls fun t ht => ?_).mono (fun _ m'' hm'' => hm''.mono ?_) fun _ _ => hnested
    · exact (Stack.Cleared.nested ht).floor_le
    · rintro t ⟨u, f, hu, hf, hargc, rfl⟩
      exact ⟨hu.nested.call hf, hu.base?_call hf hargc⟩
  obtain ⟨m₁, hok, hm₁⟩ := leaveTo_left hm 0
  refine Ends.get (Ends.bind_ok hok ?_)
  have hm₂ : Kept { m₁ with
      stack := m₁.stack.truncate 0
      heap := m₁.heap.releaseValues (m₁.stack.above 0) } base (Stack.Cleared limits 0) := by
    refine ⟨hm₁.same, ⟨?_, ?_, ?_, ?_⟩, hm₁.classed.ages (.releaseValues _ _)⟩
    · exact hm₁.stack ▸ (hm.stack.iterate_left _).settings
    · rw [Stack.truncate, hm₁.stack, Stack.frames_iterate_left, Nat.sub_zero, Stack.depth,
        List.drop_length]
    · rw [Stack.size_truncate, Nat.zero_min]
    · rw [Stack.size_truncate, Nat.zero_min]
      exact Nat.zero_le _
  refine Ends.bind_ok rfl ((readHeader_stays _ _ hm₂).bind (fun header m₃ hm₃ => ?_) fun _ _ => hnested)
  dsimp only
  split
  · exact (pushArguments_cleared hm₃).bind (fun _ m₄ hm₄ => henter hm₄ _) fun _ _ => hnested
  · exact henter hm₃ _

theorem prepareCall_nested (hm : m.Kept base (Stack.Nested limits)) (ofs : UInt32) (args : List Value) :
    Ends (prepareCall ofs args m) (fun _ m' => m'.Kept base (Stack.Nested limits))
      fun _ m' => m'.Kept base (Stack.Nested limits) := by
  have hs := hm.stack
  have hwithin : m.Kept base (m.stack.Within 0) := ⟨hm.same, .refl hs 0, hm.classed⟩
  have hmoves : Moves (·.Kept base (m.stack.Within 0)) (·.Kept base (m.stack.Goes 0)) (do
      args.forM pushOwned
      enter ofs args.length .nil none none) :=
    (Stays.forM (fun v => pushAfter_stays (owned_stays v)) args).bindMoves fun _ => enter_moves
  refine Ends.get (Ends.onFault ((hmoves m hwithin).mono (fun _ _ hm' => hm'.mono fun t ht => ?_)
    fun _ _ he => he) fun e m' he => ⟨_, rfl, ?_⟩)
  · exact ht.nested hs
  · -- The arguments are taken off again.
    exact ⟨he.same, (he.stack.truncate hs.floor_le).nested hs, he.classed.ages (.releaseValues _ _)⟩

end Machine

/-! ## Lives -/

/-- A machine, and what it is doing. -/
structure Life where
  /-- What it is doing. -/
  phase : Phase
  /-- The machine. -/
  machine : Machine

namespace Life

/-- What happens next. A function may be called with any values, whether they mean objects
    or not. No state is put in place of the machine's unless it `restores`. -/
inductive Step (restores : Bool) (l : Life) : Life → Prop
  | run {m : Machine} (hphase : l.phase = .idle) (hok : prepare l.machine = .ok () m) :
      Step restores l ⟨.running false, m⟩
  | runFails {e : Fault} {m : Machine} (hphase : l.phase = .idle)
      (herr : prepare l.machine = .error e m) : Step restores l ⟨.ended false (.error e.halt), m⟩
  | call {ofs : UInt32} {args : List Value} {m : Machine} (hphase : l.phase = .idle)
      (hok : prepareCall ofs args l.machine = .ok () m) : Step restores l ⟨.running true, m⟩
  | callFails {ofs : UInt32} {args : List Value} {e : Fault} {m : Machine} (hphase : l.phase = .idle)
      (herr : prepareCall ofs args l.machine = .error e m) :
      Step restores l ⟨.ended true (.error e.halt), m⟩
  | turn {call : Bool} {m : Machine} (hphase : l.phase = .running call)
      (hquiet : restores = false → l.machine.Quiet) (hok : turn 0 l.machine = .ok none m) :
      Step restores l ⟨.running call, m⟩
  | finish {call : Bool} {v : Value} {m : Machine} (hphase : l.phase = .running call)
      (hquiet : restores = false → l.machine.Quiet) (hok : turn 0 l.machine = .ok (some v) m) :
      Step restores l ⟨.ended call (.ok v), m⟩
  | halt {call : Bool} {h : Halt} {m : Machine} (hphase : l.phase = .running call)
      (hquiet : restores = false → l.machine.Quiet) (herr : turn 0 l.machine = .error h m) :
      Step restores l ⟨.ended call (.error h), m⟩
  | giveUp {call : Bool} {h : Halt} (hphase : l.phase = .running call) :
      Step restores l ⟨.ended call (.error h), l.machine⟩
  | complete {v : Value} (hphase : l.phase = .ended false (.ok v)) :
      Step restores l ⟨.idle, after (keepResult v) l.machine.settle⟩
  | stop {h : Halt} (hphase : l.phase = .ended false (.error h)) :
      Step restores l ⟨.idle, l.machine.settle⟩
  | restart {m : Machine} (hphase : l.phase = .ended false (.error (.interrupted .restart)))
      (hok : l.machine.settle.restart = .ok m) : Step restores l ⟨.idle, m⟩
  | completeCall {v : Value} (hphase : l.phase = .ended true (.ok v)) :
      Step restores l ⟨.idle, after (keepResult v) l.machine⟩
  | stopCall {h : Halt} (hphase : l.phase = .ended true (.error h)) :
      Step restores l ⟨.idle, after (leaveTo 0) l.machine⟩
  | collectGarbage : Step restores l ⟨l.phase, l.machine.collectGarbage.2⟩
  | restore {bs : Bytes} {m : Machine} (hrestores : restores = true) (hphase : l.phase = .idle)
      (hok : Machine.restore bs l.machine = .ok () m) : Step restores l ⟨.idle, m⟩
  /-- The host itself asks something of the object table. -/
  | perform {op : Heap.Operation}
      (hop : ∀ object, op = .alloc object → object.Typed l.machine.image.metaclasses) :
      Step restores l ⟨l.phase, { l.machine with heap := l.machine.heap.performed op }⟩
  /-- The host is changed, a file of it or the signal that waits. -/
  | outside (host : Host) (interrupt : Interrupt) (pools : Pools) (imageFile? : Option String) :
      Step restores l ⟨l.phase, { l.machine with host, interrupt, pools, imageFile? }⟩

/-- The life has got there from the machine that was loaded. -/
def Reachable (base : Machine) (l : Life) : Prop :=
  Relation.ReflTransGen (Step true) ⟨.idle, base⟩ l

variable {restores : Bool} {base m : Machine} {l l' : Life} {phase : Phase}

/-! ## The invariant -/

/-- The machine keeps to its image, its limits and what it is doing. -/
structure Fits (base : Machine) (l : Life) : Prop where
  /-- Calls lie one above the other, and objects are of metaclasses for their kinds. -/
  kept : l.machine.Kept base (Stack.Nested base.stack.settings)
  /-- There are calls only if something runs. -/
  bare : l.phase.isBare = true → l.machine.stack.frames = []
  /-- The outermost call of a run starts at the bottom. -/
  based : ∀ b ∈ l.phase.base?, l.machine.stack.base? = some b

theorem Fits.bareIn (hl : l.Fits base) (hphase : l.phase = phase) (hbare : phase.isBare = true) :
    l.machine.Kept base fun t => t.Nested base.stack.settings ∧ t.frames = [] :=
  ⟨hl.kept.same, ⟨hl.kept.stack, hl.bare (hphase ▸ hbare)⟩, hl.kept.classed⟩

theorem fits_idle (hm : m.Kept base fun t => t.Nested base.stack.settings ∧ t.frames = []) :
    Fits base ⟨.idle, m⟩ :=
  ⟨hm.mono fun _ ht => ht.1, fun _ => hm.stack.2, fun _ hb => by cases hb⟩

theorem fits_loose (hm : m.Kept base (Stack.Nested base.stack.settings)) (hbare : phase.isBare = false)
    (hbase : phase.base? = none) : Fits base ⟨phase, m⟩ where
  kept := hm
  bare h := absurd (hbare.symm.trans h) (by decide)
  based b hb := absurd (hbase.symm.trans hb) (by simp)

theorem Fits.turn {b : Nat} (hl : l.Fits base) (hb : b ≤ l.machine.stack.localsAt)
    (hquiet : ¬l.machine.Quiet → b = 0) : Ends (turn 0 l.machine)
    (Machine.Passed base l.machine.stack b 0)
    fun h m' => m'.Kept base (l.machine.stack.Unwound b) ∧
      ∀ signal, h = .interrupted signal → m'.stack = l.machine.stack :=
  Machine.turn_passed hl.kept.stack hb hquiet
    ⟨hl.kept.same, .refl hl.kept.stack b, hl.kept.classed⟩ 0

theorem fits_run (hm : m.Kept base fun t => t.Nested base.stack.settings ∧ t.base? = some 0) :
    Fits base ⟨.running false, m⟩ where
  kept := hm.mono fun _ ht => ht.1
  bare h := by cases h
  based b hb := by
    rw [← Option.some.inj hb]
    exact hm.stack.2

/-- A signal ends nothing, so that the outermost call is still there. -/
theorem Fits.fits_ended {call : Bool} {h : Halt} (hl : l.Fits base) (hphase : l.phase = .running call)
    (hm : m.Kept base (Stack.Nested base.stack.settings))
    (hsignal : ∀ signal, h = .interrupted signal → m.stack.base? = l.machine.stack.base?) :
    Fits base ⟨.ended call (.error h), m⟩ := by
  cases call with
  | true => exact fits_loose hm rfl rfl
  | false =>
    cases h with
    | interrupted signal =>
      refine ⟨hm, fun h => (by cases h), fun b hb => ?_⟩
      rw [hsignal signal rfl]
      exact hl.based b (by rwa [hphase])
    | failed f => exact fits_loose hm rfl rfl
    | endless => exact fits_loose hm rfl rfl

/-- All calls have ended. -/
theorem Fits.settle (hl : l.Fits base) :
    l.machine.settle.Kept base fun t => t.Nested base.stack.settings ∧ t.frames = [] :=
  hl.kept.settle.mono fun t ht => by
    rw [ht, Stack.frames_iterate_left, Stack.depth, List.drop_length]
    exact ⟨hl.kept.stack.iterate_left _, rfl⟩

/-- One step keeps the invariant. -/
theorem Step.fits (hstep : Step restores l l') (hl : l.Fits base) (hd : base.Definable) :
    l'.Fits base := by
  cases hstep with
  | run hphase hok =>
    have hends := Machine.prepare_grounds hl.kept
    rw [hok] at hends
    exact fits_run hends
  | runFails hphase herr =>
    have hends := Machine.prepare_grounds hl.kept
    rw [herr] at hends
    exact fits_loose hends rfl (Session.base?_halt false _)
  | @call ofs args m hphase hok =>
    have hends := Machine.prepareCall_nested hl.kept ofs args
    rw [hok] at hends
    exact fits_loose hends rfl rfl
  | @callFails ofs args e m hphase herr =>
    have hends := Machine.prepareCall_nested hl.kept ofs args
    rw [herr] at hends
    exact fits_loose hends rfl rfl
  | @turn call m hphase _ hok =>
    have hends := hl.turn (Nat.zero_le _) fun _ => rfl
    rw [hok] at hends
    have hnext : m.Kept base (l.machine.stack.Next 0) := hends
    have hkept := hnext.mono fun _ ht => ht.nested hl.kept.stack
    cases call with
    | true => exact fits_loose hkept rfl rfl
    | false =>
      have hbase := hnext.stack.base? (hl.based 0 (by rw [hphase]; rfl))
      exact fits_run ⟨hkept.same, ⟨hkept.stack, hbase⟩, hkept.classed⟩
  | @finish call v m hphase _ hok =>
    have hends := hl.turn (Nat.zero_le _) fun _ => rfl
    rw [hok] at hends
    obtain ⟨hleft, hdepth⟩ := hends
    have hframes : m.stack.frames = [] := List.length_eq_zero_iff.1 (Nat.le_zero.1 hdepth)
    have hkept := hleft.mono fun _ ht => ht.nested hl.kept.stack.left
    exact ⟨hkept, fun _ => hframes, fun b hb => by cases call <;> cases hb⟩
  | @halt call h m hphase _ herr =>
    have hends := hl.turn (Nat.zero_le _) fun _ => rfl
    rw [herr] at hends
    obtain ⟨hunwound, hsignal⟩ := hends
    have hkept := hunwound.mono fun _ ht => ht.nested hl.kept.stack
    refine hl.fits_ended hphase hkept fun signal hh => ?_
    rw [hsignal signal hh]
  | giveUp hphase => exact hl.fits_ended hphase hl.kept fun _ _ => rfl
  | complete hphase => exact fits_idle (hl.settle.keepResult _)
  | stop hphase => exact fits_idle hl.settle
  | restart hphase hok => exact fits_idle (hl.settle.restart hd hok).1
  | completeCall hphase =>
    exact fits_idle ((hl.bareIn hphase rfl).keepResult _)
  | stopCall hphase =>
    obtain ⟨m, hok, hm⟩ := Machine.leaveTo_left hl.kept 0
    have hafter : after (leaveTo 0) l.machine = m := by rw [after, hok]
    rw [hafter]
    refine fits_idle (hm.mono fun t ht => ?_)
    rw [ht, Stack.frames_iterate_left, Nat.sub_zero, Stack.depth, List.drop_length]
    exact ⟨hl.kept.stack.iterate_left _, rfl⟩
  | collectGarbage => exact ⟨hl.kept.collectGarbage, hl.bare, hl.based⟩
  | perform hop =>
    refine ⟨hl.kept.withHeap (hl.kept.classed.performed fun object ho _ => ?_), hl.bare, hl.based⟩
    exact hl.kept.same ▸ hop object ho
  | restore _ hphase hok =>
    refine fits_idle ((hl.bareIn hphase rfl).restore (fun s h hs => ⟨hs.1.scrub h, ?_⟩) hok)
    rw [Stack.scrub, hs.2, List.map_nil]
  | outside => exact ⟨hl.kept.congr rfl rfl rfl, hl.bare, hl.based⟩

theorem Reachable.fits {bs : Bytes} {settings : MachineSettings} {host : Host}
    (hload : Machine.load bs settings host = .ok base) (hl : Reachable base l) : l.Fits base := by
  induction hl with
  | refl =>
    obtain ⟨hsound, hframes⟩ := Machine.load_sound true hload
    have hcleared : base.stack.Cleared base.stack.settings base.stack.size :=
      ⟨rfl, hframes, rfl, hsound.fits⟩
    exact fits_idle ⟨rfl, ⟨hcleared.nested, hframes⟩, Machine.classed_of_load hload⟩
  | tail _ hstep ih => exact hstep.fits ih (Machine.definable_of_load hload)

/-! ## Whole runs and calls -/

/-- The life can go on until the machine is as said. -/
def Leads (l : Life) (phase : Phase) (m : Machine) : Prop :=
  Relation.ReflTransGen (Step true) l ⟨phase, m⟩

theorem Leads.of_step {phase' : Phase} {m' : Machine} (hstep : Step true l ⟨phase', m'⟩)
    (hl : Leads ⟨phase', m'⟩ phase m) : l.Leads phase m := .head hstep hl

/-- The induction is on the number of turns that may be taken. -/
theorem turns_leads {call : Bool} (hphase : l.phase = .running call) (fuel : Nat) :
    Ends (turns 0 fuel l.machine) (fun v => l.Leads (.ended call (.ok v)))
      fun h => l.Leads (.ended call (.error h)) := by
  have hloud : true = false → l.machine.Quiet := fun h => by cases h
  induction fuel generalizing l with
  | zero => exact .single (.giveUp hphase)
  | succ fuel ih =>
    cases hr : StoryMachine.turn 0 l.machine with
    | error h m => exact Ends.bind_error hr (.single (.halt hphase hloud hr))
    | ok result? m =>
      refine Ends.bind_ok hr ?_
      cases result? with
      | some v => exact .single (.finish hphase hloud hr)
      | none =>
        have hstep : Step true l ⟨.running call, m⟩ := .turn hphase hloud hr
        exact (@ih ⟨.running call, m⟩ rfl fun h => by cases h).mono (fun _ _ hl => .of_step hstep hl)
          fun _ _ hl => .of_step hstep hl

theorem execute_leads {call : Bool} (hphase : l.phase = .running call) (fuel : Nat) :
    Ends (execute 0 fuel l.machine) (fun v => l.Leads (.ended call (.ok v)))
      fun h => l.Leads (.ended call (.error h)) := by
  refine Ends.get ?_
  split
  · exact .single (.giveUp hphase)
  · exact turns_leads hphase fuel

/-- What has been prepared is executed. -/
theorem begin_leads {x : MachineM Unit} {call : Bool}
    (hok : ∀ m, x l.machine = .ok () m → Step true l ⟨.running call, m⟩)
    (herr : ∀ e m, x l.machine = .error e m → Step true l ⟨.ended call (.error e.halt), m⟩)
    (fuel : Nat) :
    Ends ((plainly x >>= fun _ => execute 0 fuel) l.machine) (fun v => l.Leads (.ended call (.ok v)))
      fun h => l.Leads (.ended call (.error h)) := by
  cases hr : x l.machine with
  | ok _ m =>
    have hrunning := execute_leads (l := ⟨.running call, m⟩) rfl fuel
    exact Ends.bind_ok (Machine.plainly_ok hr) (hrunning.mono (fun _ _ hl => .of_step (hok m hr) hl)
      fun _ _ hl => .of_step (hok m hr) hl)
  | error e m =>
    have hplain : plainly x l.machine = .error e.halt m := by rw [plainly, hr]
    exact Ends.bind_error hplain (.single (herr e m hr))

/-- Every run is a part of a life, with all the restarts in it. -/
theorem runs_leads (hphase : l.phase = .idle) (fuel restarts : Nat) :
    l.Leads .idle (l.machine.runs fuel restarts).2 := by
  obtain ⟨_, m⟩ := l
  obtain rfl : _ = Phase.idle := hphase
  induction restarts generalizing m with
  | zero => exact .refl
  | succ restarts ih =>
    have hends : Ends (start fuel m) (fun v => Leads ⟨.idle, m⟩ (.ended false (.ok v)))
        fun h => Leads ⟨.idle, m⟩ (.ended false (.error h)) :=
      @begin_leads ⟨.idle, m⟩ prepare false (fun _ hok => .run rfl hok)
        (fun _ _ herr => .runFails rfl herr) fuel
    rw [Machine.runs]
    cases hr : start fuel m with
    | ok v m' =>
      rw [hr] at hends
      have hstep : Step true ⟨.ended false (.ok v), m'⟩ ⟨.idle, after (keepResult v) m'.settle⟩ :=
        .complete rfl
      exact .tail hends hstep
    | error h m' =>
      rw [hr] at hends
      have hstopped : Leads ⟨.idle, m⟩ .idle m'.settle := .tail hends (.stop rfl)
      cases h with
      | failed f =>
        -- The failure is reported to the host.
        exact .tail hstopped (.outside (m'.settle.host.report _) _ _ _)
      | endless => exact hstopped
      | interrupted signal =>
        cases signal with
        | quit => exact hstopped
        | abort => exact hstopped
        | restart =>
          cases hrestart : m'.settle.restart with
          | error f =>
            simp only [hrestart]
            exact hstopped
          | ok m'' =>
            simp only [hrestart]
            exact Relation.ReflTransGen.trans (.tail hends (.restart rfl hrestart)) (ih m'')

/-- So is every call. -/
theorem call_leads (hl : l.Fits base) (hphase : l.phase = .idle) (name : String) (args : List Value)
    (fuel : Nat) : l.Leads .idle (l.machine.call name args fuel).2 := by
  have hdepth : l.machine.stack.depth = 0 := by
    rw [Stack.depth, hl.bare (by rw [hphase]; rfl), List.length_nil]
  have hstay : l.Leads .idle l.machine := hphase ▸ .refl
  unfold Machine.call
  split
  · next ofs _ =>
    have hends : Ends (callWith ofs args fuel l.machine) (fun v => l.Leads (.ended true (.ok v)))
        fun h => l.Leads (.ended true (.error h)) := by
      refine Ends.get ?_
      rw [hdepth]
      exact begin_leads (fun _ hok => .call hphase hok) (fun _ _ herr => .callFails hphase herr) fuel
    simp only [hdepth]
    cases hr : callWith ofs args fuel l.machine with
    | ok v m =>
      rw [hr] at hends
      exact .tail hends (.completeCall rfl)
    | error h m =>
      rw [hr] at hends
      have hstopped : l.Leads .idle (after (leaveTo 0) m) := .tail hends (.stopCall rfl)
      cases h <;> exact hstopped
  · exact hstay

/-- After one turn more there was one turn less before. -/
theorem exists_turn_of_runFor? {m' : Machine} {n : Nat} (hm : Session.runFor? (n + 1) m = some m') :
    ∃ m₁, Session.runFor? n m = some m₁ ∧ m₁.Quiet ∧ StoryMachine.turn 0 m₁ = .ok none m' := by
  obtain ⟨m₁, hm₁, hm⟩ := Option.bind_eq_some_iff.1 hm
  obtain ⟨_, hquiet, hm⟩ := Option.bind_eq_some_iff.1 hm
  split at hm
  · next hok =>
    obtain rfl := Option.some.inj hm
    exact ⟨m₁, hm₁, by simpa [guard] using hquiet, hok⟩
  · cases hm

/-- The first turns of a run are steps of a life. -/
theorem leads_of_runFor? {m' : Machine} {n : Nat} (hm : Session.runFor? n m = some m') :
    Leads ⟨.idle, m⟩ (.running false) m' := by
  induction n generalizing m' with
  | zero =>
    unfold Session.runFor? at hm
    split at hm
    · next hok =>
      obtain rfl := Option.some.inj hm
      exact .single (.run rfl hok)
    · cases hm
  | succ n ih =>
    obtain ⟨m₁, hm₁, -, hok⟩ := exists_turn_of_runFor? hm
    exact .tail (ih hm₁) (.turn rfl (fun h => by cases h) hok)

end Life

end StoryMachine
