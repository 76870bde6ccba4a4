import StoryMachine.Code.Assembler
import StoryMachine.Image.Draft
import StoryMachine.Proofs.Image.Loader
import StoryMachine.Proofs.Machine.Run

/-!
# Sessions

A host loads an image, and then runs the program or calls functions as often as it
likes. A session goes from one instruction to the next, whether that one succeeds,
faults, is handled or ends calls, and from the end of one run to the start of
another. All the time every count belongs to a place in which a collection finds
it, or to a result that is about to be kept.

Left out are what happens after memory has run out, and instructions that restore
a saved state.

* `Session.Step`, `Session.Reachable`: the order of what happens;
* `Session.Fits`: the invariant;
* `Session.runs_leads`, `Session.call_leads`: whole runs and calls are sessions;
* `Session.Reachable.refs_eq_count_placed`: the counts between two instructions.
-/

namespace StoryMachine

/-- What a machine is doing. -/
inductive Phase where
  /-- Nothing, so that the host can do something. -/
  | idle
  /-- It runs the program, or else a function that the host calls. -/
  | running (call : Bool)
  /-- The run or the call is over, and its outcome has not been seen to. -/
  | ended (call : Bool) (outcome : Except Halt Value)

/-- What the machine has in its hands. -/
def Phase.held : Phase → Multiset Value
  | ended _ (.ok v) => {v}
  | _ => 0

/-- Where the outermost call starts, as long as there has to be one. -/
def Phase.base? : Phase → Option Nat
  | running false | ended false (.error (.interrupted _)) => some 0
  | _ => none

/-- Whether there are no calls. -/
def Phase.isBare : Phase → Bool
  | idle | ended true (.ok _) => true
  | _ => false

/-- A machine and its host. -/
structure Session where
  /-- What the machine is doing. -/
  phase : Phase
  /-- The machine. -/
  machine : Machine
  /-- The names that the host may have come to know: those of all objects that have
      been there between two instructions. -/
  names : Set ObjectId

namespace Session

/-- The session after a step. -/
def next (s : Session) (phase : Phase) (m : Machine) : Session :=
  ⟨phase, m, s.names ∪ {id | m.heap.contains id = true}⟩

/-- The host has come to know a value, or it is that of an image object. If names
    may not be `stale`, it does not outlive its object. -/
def MayPass (stale : Bool) (s : Session) (v : Value) : Prop :=
  ∀ id, v = .obj id → id.generation = 0 ∨ s.machine.heap.contains id = true ∨
    (stale = true ∧ id ∈ s.names)

/-- What happens next. -/
inductive Step (stale : Bool) (s : Session) : Session → Prop
  | run {m : Machine} (hphase : s.phase = .idle) (hok : prepare s.machine = .ok () m) :
      Step stale s (s.next (.running false) m)
  | runFails {e : Fault} {m : Machine} (hphase : s.phase = .idle)
      (herr : prepare s.machine = .error e m) (hmemory : e.isMemory = false) :
      Step stale s (s.next (.ended false (.error e.halt)) m)
  | call {name : String} {ofs : UInt32} {args : List Value} {m : Machine}
      (hphase : s.phase = .idle) (hexport : s.machine.export? name = some (.function ofs))
      (hargs : ∀ v ∈ args, s.MayPass stale v) (hok : prepareCall ofs args s.machine = .ok () m) :
      Step stale s (s.next (.running true) m)
  | callFails {name : String} {ofs : UInt32} {args : List Value} {e : Fault} {m : Machine}
      (hphase : s.phase = .idle) (hexport : s.machine.export? name = some (.function ofs))
      (hargs : ∀ v ∈ args, s.MayPass stale v)
      (herr : prepareCall ofs args s.machine = .error e m) (hmemory : e.isMemory = false) :
      Step stale s (s.next (.ended true (.error e.halt)) m)
  | turn {call : Bool} {m : Machine} (hphase : s.phase = .running call)
      (hquiet : s.machine.Quiet) (hok : turn 0 s.machine = .ok none m) :
      Step stale s (s.next (.running call) m)
  | finish {call : Bool} {v : Value} {m : Machine} (hphase : s.phase = .running call)
      (hquiet : s.machine.Quiet) (hok : turn 0 s.machine = .ok (some v) m) :
      Step stale s (s.next (.ended call (.ok v)) m)
  | halt {call : Bool} {h : Halt} {m : Machine} (hphase : s.phase = .running call)
      (hquiet : s.machine.Quiet) (herr : turn 0 s.machine = .error h m)
      (hmemory : h.isMemory = false) : Step stale s (s.next (.ended call (.error h)) m)
  | giveUp {call : Bool} {h : Halt} (hphase : s.phase = .running call)
      (hmemory : h.isMemory = false) : Step stale s (s.next (.ended call (.error h)) s.machine)
  | complete {v : Value} (hphase : s.phase = .ended false (.ok v)) :
      Step stale s (s.next .idle (after (keepResult v) s.machine.settle))
  | stop {h : Halt} (hphase : s.phase = .ended false (.error h)) :
      Step stale s (s.next .idle s.machine.settle)
  | restart {m : Machine} (hphase : s.phase = .ended false (.error (.interrupted .restart)))
      (hok : s.machine.settle.restart = .ok m) : Step stale s (s.next .idle m)
  | completeCall {v : Value} (hphase : s.phase = .ended true (.ok v)) :
      Step stale s (s.next .idle (after (keepResult v) s.machine))
  | stopCall {h : Halt} (hphase : s.phase = .ended true (.error h)) :
      Step stale s (s.next .idle (after (leaveTo 0) s.machine))
  | collectGarbage (hphase : s.phase.held = 0) :
      Step stale s (s.next s.phase s.machine.collectGarbage.2)
  /-- The host is changed, a file of it or the signal that waits. -/
  | outside (host : Host) (interrupt : Interrupt) (pools : Pools) (imageFile? : Option String) :
      Step stale s (s.next s.phase { s.machine with host, interrupt, pools, imageFile? })

/-- The session has got there from the image. -/
inductive Reachable (stale : Bool) : Session → Prop
  | load {bs : Bytes} {settings : MachineSettings} {host : Host} {m : Machine}
      (hok : Machine.load bs settings host = .ok m) :
      Reachable stale ⟨.idle, m, {id | m.heap.contains id = true}⟩
  | step {s s' : Session} (hs : Reachable stale s) (hstep : Step stale s s') : Reachable stale s'

variable {stale : Bool} {s s' : Session} {m : Machine} {phase : Phase} {base? : Option Nat}
  {held : Multiset Value} {v : Value}

/-! ## The invariant -/

/-- The machine is sound, and keeps to what it is doing. -/
structure Fits (stale : Bool) (s : Session) : Prop where
  /-- Nothing is in the machine's hands but a result. -/
  sound : s.machine.Sound ⟨stale, s.phase.base?, s.names⟩ s.phase.held
  /-- There are calls only if something runs. -/
  bare : s.phase.isBare = true → s.machine.stack.frames = []

/-- The host comes to know the objects that are there. -/
theorem fits_next (hm : m.Sound ⟨stale, phase.base?, s.names⟩ phase.held)
    (hbare : phase.isBare = true → m.stack.frames = []) : (s.next phase m).Fits stale where
  sound := ⟨hm.ready, hm.defined, hm.fits, hm.laidOut, hm.based, fun hw id hid =>
    hid.elim (hm.named hw id) fun hlive => .inr (.inl hlive), hm.counted⟩
  bare := hbare

theorem MayPass.knows (hv : s.MayPass stale v) (hm : s.machine.Sound ⟨stale, base?, s.names⟩ held) :
    s.machine.Knows ⟨stale, base?, s.names⟩ v := fun id hid hr => by
  rcases hv id hid with h0 | hlive | ⟨rfl, hname⟩
  · exact .inl h0
  · exact .inr (.inl hlive)
  · exact hm.named (hr.2 rfl) id hname

theorem Fits.soundIn (hs : s.Fits stale) (hphase : s.phase = phase) :
    s.machine.Sound ⟨stale, phase.base?, s.names⟩ phase.held := hphase ▸ hs.sound

theorem base?_halt (call : Bool) (e : Fault) :
    (Phase.ended call (.error e.halt)).base? = none := by
  cases call with
  | true => rfl
  | false => cases e <;> rfl

theorem frames_settle (hm : m.Sound ⟨stale, base?, s.names⟩ held) : m.settle.stack.frames = [] := by
  rw [(Machine.settle_of_left hm).2.frames, Stack.depth, List.drop_length]

/-- Of a run that is stopped by a signal nothing stays on the stack. -/
theorem values_settle (hm : m.Sound ⟨stale, some 0, s.names⟩ held) :
    m.settle.stack.values = #[] := by
  have hbottom := (Machine.settle_of_left hm).2.bottom
  rw [Stack.bottom, Stack.base?, frames_settle hm, Stack.bottom, hm.based 0 rfl] at hbottom
  exact Array.eq_empty_of_size_eq_zero (Nat.le_zero.1 hbottom)

theorem fits_ended {call : Bool} {h : Halt}
    (hm : Machine.Halted ⟨stale, (Phase.running call).base?, s.names⟩ 0 h m)
    (hmemory : h.isMemory = false) : (s.next (.ended call (.error h)) m).Fits stale := by
  obtain ⟨hloose, hsignal⟩ := hm.resolve_left (by simp [hmemory])
  refine fits_next ?_ fun hbare => by cases call <;> cases hbare
  cases call with
  | true => exact hloose
  | false =>
    cases h with
    | interrupted signal => exact hsignal signal rfl
    | failed f => exact hloose
    | endless => exact hloose

theorem Fits.turn {call : Bool} (hs : s.Fits stale) (hphase : s.phase = .running call)
    (hquiet : s.machine.Quiet) :
    Ends (StoryMachine.turn 0 s.machine)
      (Machine.Turned ⟨stale, (Phase.running call).base?, s.names⟩ 0 0)
      (Machine.Halted ⟨stale, (Phase.running call).base?, s.names⟩ 0) :=
  Machine.turn_ends (hs.soundIn hphase) (fun _ => rfl) hquiet 0

theorem Fits.prepareCall {args : List Value} (hs : s.Fits stale) (hphase : s.phase = .idle)
    (hargs : ∀ v ∈ args, s.MayPass stale v) (ofs : UInt32) :
    s.machine.Acts ⟨stale, none, s.names⟩ 0 (StoryMachine.prepareCall ofs args) := by
  have hm : s.machine.Sound ⟨stale, none, s.names⟩ 0 := hs.soundIn hphase
  exact Machine.prepareCall_acts hm (fun v hv => (hargs v hv).knows hm) ofs

/-- One step keeps the invariant. -/
theorem Step.fits (hstep : Step stale s s') (hs : s.Fits stale) : s'.Fits stale := by
  cases hstep with
  | run hphase hok =>
    have hends := Machine.prepare_ends (hs.soundIn hphase)
    rw [hok] at hends
    exact fits_next hends fun hbare => by cases hbare
  | runFails hphase herr hmemory =>
    have hends := Machine.prepare_ends (hs.soundIn hphase)
    rw [herr] at hends
    refine fits_next ?_ fun hbare => by cases hbare
    rw [base?_halt]
    exact hends.2.resolve_left (by simp [hmemory])
  | @call _ ofs _ _ hphase _ hargs hok =>
    have hends := hs.prepareCall hphase hargs ofs
    rw [Machine.Acts, hok] at hends
    exact fits_next hends fun hbare => by cases hbare
  | @callFails _ ofs _ _ _ hphase _ hargs herr hmemory =>
    have hends := hs.prepareCall hphase hargs ofs
    rw [Machine.Acts, herr] at hends
    refine fits_next ?_ fun hbare => by cases hbare
    rw [base?_halt]
    exact hends.2.resolve_left (by simp [hmemory])
  | turn hphase hquiet hok =>
    have hends := hs.turn hphase hquiet
    rw [hok] at hends
    exact fits_next hends fun hbare => by cases hbare
  | @finish call v m hphase hquiet hok =>
    have hends := hs.turn hphase hquiet
    rw [hok] at hends
    refine fits_next ?_ fun _ => List.length_eq_zero_iff.1 (Nat.le_zero.1 hends.2)
    have hbase : (Phase.ended call (.ok v)).base? = none := by cases call <;> rfl
    rw [hbase]
    exact hends.1
  | halt hphase hquiet herr hmemory =>
    have hends := hs.turn hphase hquiet
    rw [herr] at hends
    exact fits_ended hends hmemory
  | giveUp hphase hmemory => exact fits_ended (.of_sound (hs.soundIn hphase)) hmemory
  | @complete v hphase =>
    refine fits_next ?_ fun _ => frames_settle hs.sound
    have hsettled : s.machine.settle.Sound ⟨stale, none, s.names⟩ ({v} + 0) :=
      (Machine.settle_of_left (hs.soundIn hphase)).1
    exact hsettled.keepResult
  | stop hphase =>
    exact fits_next (Machine.settle_of_left (hs.soundIn hphase)).1 fun _ => frames_settle hs.sound
  | restart hphase hok =>
    have hm : s.machine.Sound ⟨stale, some 0, s.names⟩ 0 := hs.soundIn hphase
    have hrestarted := Machine.Sound.restart (Machine.settle_of_left hm).1 (fun _ => rfl)
      (frames_settle hm) (values_settle hm) hok
    exact fits_next hrestarted.1 fun _ => by rw [hrestarted.2, frames_settle hm]
  | @completeCall v hphase =>
    have hm : s.machine.Sound ⟨stale, none, s.names⟩ ({v} + 0) := hs.soundIn hphase
    exact fits_next hm.keepResult fun _ => hs.bare (by rw [hphase]; rfl)
  | stopCall hphase =>
    obtain ⟨m, hok, hm, hleft⟩ := Machine.leaveTo_eq_ok (hs.soundIn hphase) 0
    have hafter : after (leaveTo 0) s.machine = m := by rw [after, hok]
    rw [hafter]
    exact fits_next hm fun _ => by rw [hleft.frames, Nat.sub_zero, Stack.depth, List.drop_length]
  | collectGarbage hphase =>
    exact fits_next (hs.sound.collectGarbage fun _ => hphase) hs.bare
  | outside host interrupt pools imageFile? =>
    obtain ⟨⟨hready, hdefined, hfits, hlaid, hbased, hnamed, hcounted⟩, hbare⟩ := hs
    exact fits_next ⟨hready, hdefined, hfits, hlaid, hbased, hnamed, hcounted⟩ hbare

theorem Reachable.fits (hs : Reachable stale s) : s.Fits stale := by
  induction hs with
  | @load bs settings host m hok =>
    obtain ⟨hm, hframes⟩ := Machine.load_sound stale hok
    have hfits := @fits_next stale ⟨.idle, m, ∅⟩ m .idle hm fun _ => hframes
    rwa [next, Set.empty_union] at hfits
  | step _ hstep ih => exact hstep.fits ih

/-! ## Whole runs and calls -/

/-- The session can go on until the machine is as said. -/
def Leads (stale : Bool) (s : Session) (phase : Phase) (m : Machine) : Prop :=
  ∃ s', Relation.ReflTransGen (Step stale) s s' ∧ s'.phase = phase ∧ s'.machine = m

/-- The program never calls the function that puts another state in place of the
    machine's. -/
def StaysQuiet (stale : Bool) (s : Session) : Prop :=
  ∀ s', Relation.ReflTransGen (Step stale) s s' → s'.machine.Quiet

theorem Leads.of_step {phase' : Phase} {m' : Machine} (hstep : Step stale s (s.next phase m))
    (hl : (s.next phase m).Leads stale phase' m') : s.Leads stale phase' m' := by
  obtain ⟨s', hs', hphase⟩ := hl
  exact ⟨s', .head hstep hs', hphase⟩

theorem Leads.step (hstep : Step stale s (s.next phase m)) : s.Leads stale phase m :=
  ⟨_, .single hstep, rfl, rfl⟩

theorem Leads.trans {phase' : Phase} {m' : Machine} (hl : s.Leads stale phase m)
    (hnext : ∀ s', Relation.ReflTransGen (Step stale) s s' → s'.phase = phase → s'.machine = m →
      s'.Leads stale phase' m') : s.Leads stale phase' m' := by
  obtain ⟨s', hs', hphase, hm⟩ := hl
  obtain ⟨s'', hs'', hend⟩ := hnext s' hs' hphase hm
  exact ⟨s'', hs'.trans hs'', hend⟩

theorem StaysQuiet.step (hq : s.StaysQuiet stale) (hstep : Step stale s s') :
    s'.StaysQuiet stale := fun s'' hs'' => hq s'' (.head hstep hs'')

/-- The induction is on the number of turns that may be taken. -/
theorem turns_leads {call : Bool} (hphase : s.phase = .running call) (hq : s.StaysQuiet stale)
    (fuel : Nat) :
    Ends (turns 0 fuel s.machine) (fun v m => s.Leads stale (.ended call (.ok v)) m)
      fun h m => h.isMemory = true ∨ s.Leads stale (.ended call (.error h)) m := by
  induction fuel generalizing s with
  | zero => exact .inr (.step (.giveUp hphase rfl))
  | succ fuel ih =>
    have hquiet := hq s .refl
    cases hr : StoryMachine.turn 0 s.machine with
    | error h m =>
      refine Ends.bind_error hr ?_
      cases hmemory : h.isMemory with
      | true => exact .inl rfl
      | false => exact .inr (.step (.halt hphase hquiet hr hmemory))
    | ok result? m =>
      refine Ends.bind_ok hr ?_
      cases result? with
      | some v => exact .step (.finish hphase hquiet hr)
      | none =>
        have hstep : Step stale s (s.next (.running call) m) := .turn hphase hquiet hr
        exact (ih rfl (hq.step hstep)).mono (fun _ _ hl => .of_step hstep hl) fun _ _ he =>
          he.imp_right (.of_step hstep)

theorem execute_leads {call : Bool} (hphase : s.phase = .running call) (hq : s.StaysQuiet stale)
    (fuel : Nat) :
    Ends (execute 0 fuel s.machine) (fun v m => s.Leads stale (.ended call (.ok v)) m)
      fun h m => h.isMemory = true ∨ s.Leads stale (.ended call (.error h)) m := by
  refine Ends.get ?_
  split
  · exact .inr (.step (.giveUp hphase rfl))
  · exact turns_leads hphase hq fuel

theorem isMemory_halt (e : Fault) : e.halt.isMemory = e.isMemory := by
  cases e <;> rfl

theorem isMemory_eq_false {h : Halt} (hcode : ∀ f, h = .failed f → f.code ≠ .outOfMemory) :
    h.isMemory = false := by
  cases h with
  | failed f => exact beq_eq_false_iff_ne.2 (hcode f rfl)
  | interrupted signal => rfl
  | endless => rfl

/-- What has been prepared is executed. -/
theorem begin_leads {x : MachineM Unit} {call : Bool}
    (hok : ∀ m, x s.machine = .ok () m → Step stale s (s.next (.running call) m))
    (herr : ∀ e m, x s.machine = .error e m → e.isMemory = false →
      Step stale s (s.next (.ended call (.error e.halt)) m))
    (hq : s.StaysQuiet stale) (fuel : Nat) :
    Ends ((plainly x >>= fun _ => execute 0 fuel) s.machine)
      (fun v m => s.Leads stale (.ended call (.ok v)) m)
      fun h m => h.isMemory = true ∨ s.Leads stale (.ended call (.error h)) m := by
  cases hr : x s.machine with
  | ok _ m =>
    refine Ends.bind_ok (Machine.plainly_ok hr) ?_
    exact (execute_leads rfl (hq.step (hok m hr)) fuel).mono (fun _ _ hl => .of_step (hok m hr) hl)
      fun _ _ he => he.imp_right (.of_step (hok m hr))
  | error e m =>
    have hplain : plainly x s.machine = .error e.halt m := by rw [plainly, hr]
    refine Ends.bind_error hplain ?_
    rw [isMemory_halt]
    cases hmemory : e.isMemory with
    | true => exact .inl rfl
    | false => exact .inr (.step (herr e m hr hmemory))

/-- A run that memory suffices for is a session, whether it ends with a result, is
    stopped or fails. -/
theorem runs_leads (hphase : s.phase = .idle) (hq : s.StaysQuiet stale) (fuel restarts : Nat)
    (hmemory : ∀ f, (s.machine.runs fuel restarts).1 = .failed f → f.code ≠ .outOfMemory) :
    s.Leads stale .idle (s.machine.runs fuel restarts).2 := by
  induction restarts generalizing s with
  | zero => exact ⟨s, .refl, hphase, rfl⟩
  | succ restarts ih =>
    have hends : Ends (start fuel s.machine) (fun v m => s.Leads stale (.ended false (.ok v)) m)
        fun h m => h.isMemory = true ∨ s.Leads stale (.ended false (.error h)) m :=
      begin_leads (fun _ hok => .run hphase hok) (fun _ _ herr => .runFails hphase herr) hq fuel
    rw [Machine.runs] at hmemory ⊢
    cases hr : start fuel s.machine with
    | ok v m =>
      rw [hr] at hends
      refine hends.trans fun s' _ hphase' hm' => ?_
      subst hm'
      exact .step (.complete hphase')
    | error h m =>
      rw [hr] at hends
      rw [hr] at hmemory
      have hsuffices : h.isMemory = false := isMemory_eq_false fun f hf => hmemory f (hf ▸ rfl)
      refine (hends.resolve_left (by simp [hsuffices])).trans fun s' hs' hphase' hm' => ?_
      subst hm'
      have hstop : Step stale s' (s'.next .idle s'.machine.settle) := .stop hphase'
      cases h with
      | failed f =>
        -- The failure is reported to the host.
        exact .of_step hstop (.step (.outside (s'.machine.settle.host.report _) _ _ _))
      | endless => exact .step hstop
      | interrupted signal =>
        cases signal with
        | quit => exact .step hstop
        | abort => exact .step hstop
        | restart =>
          cases hrestart : s'.machine.settle.restart with
          | error f =>
            simp only [hrestart]
            exact .step hstop
          | ok m =>
            simp only [hrestart] at hmemory ⊢
            have hstep : Step stale s' (s'.next .idle m) := .restart hphase' hrestart
            exact .of_step hstep (ih rfl (fun s'' hs'' => hq s'' (hs'.trans (.head hstep hs''))) hmemory)

/-- The same is true of a call. -/
theorem call_leads {name : String} {args : List Value} (hs : s.Fits stale) (hphase : s.phase = .idle)
    (hargs : ∀ v ∈ args, s.MayPass stale v) (hq : s.StaysQuiet stale) (fuel : Nat)
    (hmemory : ∀ f, (s.machine.call name args fuel).1 = .failed f → f.code ≠ .outOfMemory) :
    s.Leads stale .idle (s.machine.call name args fuel).2 := by
  have hdepth : s.machine.stack.depth = 0 := by
    rw [Stack.depth, hs.bare (by rw [hphase]; rfl), List.length_nil]
  unfold Machine.call at hmemory ⊢
  cases hexport : s.machine.export? name with
  | none => exact ⟨s, .refl, hphase, rfl⟩
  | some v =>
    cases v with
    | function ofs =>
      have hends : Ends (callWith ofs args fuel s.machine)
          (fun v m => s.Leads stale (.ended true (.ok v)) m)
          fun h m => h.isMemory = true ∨ s.Leads stale (.ended true (.error h)) m := by
        refine Ends.get ?_
        rw [hdepth]
        exact begin_leads (fun _ hok => .call hphase hexport hargs hok)
          (fun _ _ herr => .callFails hphase hexport hargs herr) hq fuel
      simp only [hexport, hdepth] at hmemory ⊢
      cases hr : callWith ofs args fuel s.machine with
      | ok v m =>
        rw [hr] at hends
        refine hends.trans fun s' _ hphase' hm' => ?_
        subst hm'
        exact .step (.completeCall hphase')
      | error h m =>
        rw [hr] at hends
        rw [hr] at hmemory
        have hsuffices : h.isMemory = false := isMemory_eq_false fun f hf => hmemory f (hf ▸ rfl)
        refine (hends.resolve_left (by simp [hsuffices])).trans fun s' _ hphase' hm' => ?_
        subst hm'
        have hstop : Step stale s' (s'.next .idle (after (leaveTo 0) s'.machine)) := .stopCall hphase'
        cases h <;> exact .step hstop
    | _ => exact ⟨s, .refl, hphase, rfl⟩

end Session

/-! ## Collections -/

namespace Machine

variable {terms : Terms} {m m' : Machine} {held : Multiset Value}

/-- What can be reached from the roots of a machine is still there, as it was. -/
def Spares (m m' : Machine) : Prop :=
  ∀ id, m.heap.Reachable (m.heap.IsRoot m.roots) id →
    m'.heap.contains id = true ∧ m'.heap.get? id = m.heap.get? id

theorem Spares.of_heap (hheap : m'.heap = m.heap) : m.Spares m' := fun id hid =>
  ⟨hheap ▸ hid.contains, by rw [hheap]⟩

theorem Sound.spares_collectGarbage (hm : m.Sound terms held) : m.Spares m.collectGarbage.2 :=
  fun id hid =>
    have hstays := Heap.contains_collect_of_reachable hid
    ⟨hstays, (hm.counted.tidy.shrinks_collect m.roots).objects id hstays⟩

theorem Spares.of_collected (hm : m.Sound terms held) (hheap : m'.heap = m.collectGarbage.2.heap) :
    m.Spares m' := fun id hid => by
  rw [hheap]
  exact hm.spares_collectGarbage id hid

theorem saveToFile_spares (hm : m.Sound terms held) (name : String) :
    Ends (saveToFile name m) (fun _ m' => m.Spares m') fun _ m' => m.Spares m' := by
  have hcreate : Ends (onFiles (·.create name) m) (fun _ m' => ∃ host, m' = { m with host })
      fun _ m' => m.Spares m' := by
    unfold onFiles Ends
    rcases hr : m.host.create name with ⟨_ | a, host⟩
    · simp only [hr]
      exact .of_heap rfl
    · simp only [hr]
      exact ⟨host, rfl⟩
  refine hcreate.bind (fun _ m₁ hm₁ => ?_) fun _ _ he => he
  obtain ⟨host, rfl⟩ := hm₁
  refine Ends.bind_ok rfl (Spares.of_collected hm ?_)
  rw [(Beside.storeFile _ _ _).2]
  rfl

/-- The functions that collect garbage spare what can be reached, whatever the
    arguments, which are still on the stack. -/
theorem call_spares (hm : m.Sound terms held) {f : Intrinsic} (hf : f = .runGC ∨ f = .saveState)
    (args : List Value) :
    Ends (f.call args m) (fun _ m' => m.Spares m') fun _ m' => m.Spares m' := by
  rcases hf with rfl | rfl
  · exact hm.spares_collectGarbage
  · have hfault (e : Fault) (m' : Machine) (he : m.Peeked m' ∧ e.Plain) : m.Spares m' :=
      .of_heap he.1.heap
    refine (argument_peeks args 0 m (.refl m)).bind (fun v m₁ hm₁ => ?_) hfault
    refine (expectString_peeks v m₁ hm₁.1).bind (fun name m₂ hm₂ => ?_) hfault
    obtain ⟨pools, -, rfl⟩ := hm₂.1
    have hends := saveToFile_spares (hm.peeked hm₂.1) name
    exact hends.bind (fun _ _ hm' => hm') fun _ _ he => he

end Machine

namespace Session

/-- The machine after the start of a run and `n` instructions of it. -/
def runFor? : (n : Nat) → Machine → Option Machine
  | 0, m =>
    match prepare m with
    | .ok _ m => some m
    | .error _ _ => none
  | n + 1, m => do
    let m ← runFor? n m
    guard m.Quiet
    match StoryMachine.turn 0 m with
    | .ok none m => return m
    | _ => failure

theorem Reachable.exists_runFor? (hs : Reachable stale s) (hphase : s.phase = .idle) {n : Nat}
    (hm : runFor? n s.machine = some m) :
    ∃ s', Reachable stale s' ∧ s'.phase = .running false ∧ s'.machine = m := by
  induction n generalizing m with
  | zero =>
    unfold runFor? at hm
    split at hm
    · next hok =>
      obtain rfl := Option.some.inj hm
      exact ⟨_, .step hs (.run hphase hok), rfl, rfl⟩
    · cases hm
  | succ n ih =>
    obtain ⟨m', hm', hm⟩ := Option.bind_eq_some_iff.1 hm
    obtain ⟨s', hs', hphase', rfl⟩ := ih hm'
    obtain ⟨_, hquiet, hm⟩ := Option.bind_eq_some_iff.1 hm
    split at hm
    · next hok =>
      obtain rfl := Option.some.inj hm
      exact ⟨_, .step hs' (.turn hphase' (by simpa [guard] using hquiet) hok), rfl, rfl⟩
    · cases hm

/-- An image whose program puts its arguments into a variable. -/
def keeper : Bytes :=
  let code := [Instr.getArg 0, .setGlobal 0, .retNil].foldl Assembler.emit
    (Assembler.method { argc := 1, maxStack := 1 })
  ImageDraft.encode {
    metaclasses := #[("list", []), ("string", [])]
    code := code.finish.toArray
    objects := #[⟨1, 0, [0, 0]⟩]
    entry? := some 0 }

end Session

end StoryMachine
