import StoryMachine.Proofs.Machine.Leavings

/-!
# Between instructions

A run can be looked at before any of its instructions, and after the last one. Whatever has
happened until then, the pins of code are those of the calls that are active, and the code of
each of them is kept.

* `Machine.Moment`: when a machine can be looked at;
* `Moment.inOrder`: calls are active, or the outermost one has ended;
* `Moment.runs`, `Moment.call`, `Served.moment`: whole runs, calls and what hosts do;
* `pages_mirror_calls`: pins and calls.
-/

namespace StoryMachine

/-- The state after something, however that ends. -/
def past {ε σ α : Type} (x : EStateM ε σ α) (s : σ) : σ :=
  match x s with
  | .ok _ s => s
  | .error _ s => s

theorem ends_past {ε σ α : Type} (x : EStateM ε σ α) (s : σ) :
    Ends (x s) (fun _ s' => s' = past x s) fun _ s' => s' = past x s := by
  unfold past
  cases x s <;> exact rfl

theorem Ends.past {ε σ α : Type} {x : EStateM ε σ α} {s : σ} {P : σ → Prop}
    (hx : Ends (x s) (fun _ s' => P s') fun _ s' => P s') : P (past x s) := by
  have hends := (ends_past x s).and hx
  cases hr : x s <;> (rw [hr] at hends; exact hends.1 ▸ hends.2)

/-- Pages are pinned for these calls and for nothing else. -/
structure PagedPool.MirrorsCalls (p : PagedPool) (calls : List Frame) : Prop where
  /-- A page is pinned once for each call whose method starts on it. -/
  pins : ∀ i, (p.page i).pins = calls.countP fun f => p.geometry.pageOf? f.method == some i
  /-- The method of each call starts on a page that is kept. -/
  held : ∀ f ∈ calls, ∃ i, p.geometry.pageOf? f.method = some i ∧ p.Held i

namespace Machine

/-- A machine before an instruction or after the last one, with all that its program and its
    host have done since it was loaded. -/
inductive Moment (base : Machine) : Machine → Prop
  | load : Moment base base
  /-- A run begins, or it cannot. -/
  | prepare {m : Machine} (hm : Moment base m) (hidle : m.stack.frames = []) :
      Moment base (past StoryMachine.prepare m)
  /-- The host calls a function, or it cannot. -/
  | prepareCall {m : Machine} (hm : Moment base m) (hidle : m.stack.frames = []) (ofs : UInt32)
      (args : List Value) : Moment base (past (StoryMachine.prepareCall ofs args) m)
  /-- An instruction is done, and what goes with it. -/
  | turn {m : Machine} (hm : Moment base m) (hbusy : m.stack.frames ≠ []) :
      Moment base (past (StoryMachine.turn 0) m)
  /-- A run is over, -/
  | settle {m : Machine} (hm : Moment base m) : Moment base m.settle
  /-- or a call that the host has made. -/
  | leave {m : Machine} (hm : Moment base m) : Moment base (after (leaveTo 0) m)
  | keepResult {m : Machine} (hm : Moment base m) (v : Value) :
      Moment base (after (StoryMachine.keepResult v) m)
  | restart {m m' : Machine} (hm : Moment base m) (hidle : m.stack.frames = [])
      (hok : m.restart = .ok m') : Moment base m'
  | restore {m m' : Machine} {bs : Bytes} (hm : Moment base m) (hidle : m.stack.frames = [])
      (hok : Machine.restore bs m = .ok () m') : Moment base m'
  | saveState {m : Machine} (hm : Moment base m) : Moment base m.saveState.2
  | collectGarbage {m : Machine} (hm : Moment base m) : Moment base m.collectGarbage.2
  /-- The host itself asks something of the object table. -/
  | perform {m : Machine} {op : Heap.Operation} (hm : Moment base m)
      (hop : ∀ object, op = .alloc object → object.Typed m.image.metaclasses) :
      Moment base { m with heap := m.heap.performed op }
  | storeFile {m : Machine} (hm : Moment base m) (name : String) (bs : Bytes) :
      Moment base (m.storeFile name bs)
  /-- Pages are read. -/
  | read {m : Machine} {pools : Pools} (hm : Moment base m) (hpools : m.pools.Later pools) :
      Moment base { m with pools }
  /-- The host is changed, or the signal that waits. -/
  | outside {m : Machine} (hm : Moment base m) (host : Host) (interrupt : Interrupt) :
      Moment base { m with host, interrupt }

variable {base m m' : Machine} {limits : StackSettings} {k : Nat}

/-! ## What is true at each moment -/

/-- Calls are active, or the outermost one has ended. -/
def InOrder (m base : Machine) (limits : StackSettings) : Prop := ∃ k, m.Wound base limits k

instance : Lasting base fun m => m.InOrder base limits where
  image := fun ⟨k, hk⟩ => Lasting.image (I := (·.Wound base limits k)) hk
  next := fun ⟨k, hk⟩ himage hstack hpins hheap =>
    ⟨k, Lasting.next (I := (·.Wound base limits k)) hk himage hstack hpins hheap⟩

namespace InOrder

theorem idle (hm : m.InOrder base limits) (hidle : m.stack.frames = []) :
    ∃ k, m.Idle base limits k := by
  obtain ⟨k, hk⟩ := hm
  exact ⟨k, hk.resolve_left fun hactive => hactive.frames_ne_nil hidle⟩

theorem active (hm : m.InOrder base limits) (hbusy : m.stack.frames ≠ []) :
    ∃ k, m.Active base limits k := by
  obtain ⟨k, hk⟩ := hm
  exact ⟨k, hk.resolve_right fun hidle => hbusy hidle.kept.stack.frames⟩

theorem housed (hm : m.InOrder base limits) : m.Housed base := by
  obtain ⟨k, hm | hm⟩ := hm
  · exact hm.housed
  · exact hm.housed

theorem prepare (hm : m.InOrder base limits) (hidle : m.stack.frames = [])
    (hlimits : limits.problem? = none) : (past StoryMachine.prepare m).InOrder base limits := by
  obtain ⟨k, hk⟩ := hm.idle hidle
  refine Ends.past (P := fun m : Machine => m.InOrder base limits) ?_
  exact (hk.prepare hlimits).mono (fun _ _ hm' => ⟨0, .inl hm'.1⟩) fun _ _ he => ⟨_, .inr he⟩

theorem prepareCall (hm : m.InOrder base limits) (hidle : m.stack.frames = []) (ofs : UInt32)
    (args : List Value) : (past (StoryMachine.prepareCall ofs args) m).InOrder base limits := by
  obtain ⟨k, hk⟩ := hm.idle hidle
  refine Ends.past (P := fun m : Machine => m.InOrder base limits) ?_
  exact (hk.prepareCall ofs args).mono (fun _ _ hm' => ⟨k, .inl hm'⟩) fun _ _ he => ⟨k, .inr he⟩

theorem turn (hm : m.InOrder base limits) (hbusy : m.stack.frames ≠ []) :
    (past (StoryMachine.turn 0) m).InOrder base limits := by
  obtain ⟨k, hk⟩ := hm.active hbusy
  refine Ends.past (P := fun m : Machine => m.InOrder base limits) ?_
  refine (turn_active hk).mono (fun result? _ hm' => ⟨k, ?_⟩) fun _ _ he => ⟨k, he⟩
  cases result? with
  | none => exact .inl hm'
  | some v => exact .inr hm'

theorem settle (hm : m.InOrder base limits) : m.settle.InOrder base limits := by
  obtain ⟨k, hk⟩ := hm
  exact ⟨k, .inr (settle_wound hk)⟩

theorem leave (hm : m.InOrder base limits) : (after (leaveTo 0) m).InOrder base limits := by
  obtain ⟨k, hk⟩ := hm
  obtain ⟨m', hok, hm'⟩ := leaveTo_wound hk
  refine ⟨k, .inr ?_⟩
  rwa [after, hok]

end InOrder

section Loaded

variable {bs : Bytes} {settings : MachineSettings} {host : Host}
  (hload : Machine.load bs settings host = .ok base)

include hload

/-- Nothing that a program or its host does brings a machine out of order. -/
theorem Moment.inOrder (hm : Moment base m) : m.InOrder base settings.stack := by
  have hlimits := problem?_stack_of_load hload
  induction hm with
  | load => exact ⟨0, .inr (idle_of_load hload)⟩
  | prepare _ hidle ih => exact ih.prepare hidle hlimits
  | prepareCall _ hidle ofs args ih => exact ih.prepareCall hidle ofs args
  | turn _ hbusy ih => exact ih.turn hbusy
  | settle _ ih => exact ih.settle
  | leave _ ih => exact ih.leave
  | keepResult _ v ih => exact Stays.after (I := (·.InOrder base _)) (keepResult_stays v) ih
  | restart _ hidle hok ih =>
    obtain ⟨k, hk⟩ := ih.idle hidle
    exact ⟨k, .inr (hk.restart (definable_of_load hload) hok)⟩
  | restore _ hidle hok ih =>
    obtain ⟨k, hk⟩ := ih.idle hidle
    exact ⟨k, .inr (hk.restore hok)⟩
  | saveState _ ih => exact Lasting.saveState (I := (·.InOrder base _)) ih
  | collectGarbage _ ih => exact Lasting.collectGarbage (I := (·.InOrder base _)) ih
  | perform _ hop ih =>
    refine Lasting.withHeap (I := (·.InOrder base _)) ih fun hc => hc.performed fun object ho _ => ?_
    exact Lasting.image (I := (·.InOrder base settings.stack)) ih ▸ hop object ho
  | storeFile _ name bs ih => exact Lasting.storeFile (I := (·.InOrder base _)) ih name bs
  | read _ hpools ih => exact Lasting.peeked (I := (·.InOrder base _)) ih ⟨_, hpools, rfl⟩
  | outside _ host interrupt ih => exact Lasting.congr (I := (·.InOrder base _)) ih rfl rfl rfl rfl

/-! ## Whole runs and calls -/

/-- The induction is on the number of turns that may be taken. -/
theorem Moment.turns (hm : Moment base m) (hbusy : m.stack.frames ≠ []) (fuel : Nat) :
    Ends (turns 0 fuel m) (fun _ m' => Moment base m') fun _ m' => Moment base m' := by
  induction fuel generalizing m with
  | zero => exact hm
  | succ fuel ih =>
    obtain ⟨k, hk⟩ := (hm.inOrder hload).active hbusy
    have hturn : Moment base (past (StoryMachine.turn 0) m) := .turn hm hbusy
    refine ((ends_past (StoryMachine.turn 0) m).and (turn_active hk)).bind
      (fun result? m' ⟨hpast, hm'⟩ => ?_) fun _ _ he => he.1 ▸ hturn
    rw [← hpast] at hturn
    cases result? with
    | none => exact ih hturn hm'.frames_ne_nil
    | some v => exact hturn

theorem Moment.execute (hm : Moment base m) (fuel : Nat) :
    Ends (execute 0 fuel m) (fun _ m' => Moment base m') fun _ m' => Moment base m' := by
  refine Ends.get ?_
  split
  · exact hm
  · next hdepth => exact hm.turns hload (List.length_pos_iff.1 (not_le.1 hdepth)) fuel

/-- A run can be looked at before any of its turns, so also where the last one was that it was
    given. -/
theorem Moment.start (hm : Moment base m) (hidle : m.stack.frames = []) (fuel : Nat) :
    Ends (start fuel m) (fun _ m' => Moment base m') fun _ m' => Moment base m' := by
  have hprepare : Moment base (past StoryMachine.prepare m) := .prepare hm hidle
  refine (plainly_halts (ends_past StoryMachine.prepare m)).bind
    (fun _ m' hpast => ?_) fun h m' ⟨_, _, hpast⟩ => hpast ▸ hprepare
  exact (hpast ▸ hprepare).execute hload fuel

/-- The induction is on the restarts. -/
theorem Moment.runs (hm : Moment base m) (hidle : m.stack.frames = []) (fuel restarts : Nat) :
    Moment base (m.runs fuel restarts).2 := by
  induction restarts generalizing m with
  | zero => exact hm
  | succ restarts ih =>
    have hends := hm.start hload hidle fuel
    obtain ⟨k, hk⟩ := (hm.inOrder hload).idle hidle
    have hsettled := hk.start (problem?_stack_of_load hload) fuel
    rw [Machine.runs]
    cases hr : StoryMachine.start fuel m with
    | ok v m' =>
      rw [hr] at hends
      exact .keepResult (.settle hends) v
    | error h m' =>
      rw [hr] at hends hsettled
      have hended : Moment base m'.settle := .settle hends
      have hleft : m'.settle.stack.frames = [] := hsettled.kept.stack.frames
      cases h with
      | failed f => exact .outside hended (m'.settle.host.report _) _
      | endless => exact hended
      | interrupted signal =>
        cases signal with
        | quit => exact hended
        | abort => exact hended
        | restart =>
          cases hrestart : m'.settle.restart with
          | error f =>
            simp only [hrestart]
            exact hended
          | ok m'' =>
            simp only [hrestart]
            have hnew := hsettled.restart (definable_of_load hload) hrestart
            exact ih (.restart hended hleft hrestart) hnew.kept.stack.frames

theorem Moment.call (hm : Moment base m) (hidle : m.stack.frames = []) (name : String)
    (args : List Value) (fuel : Nat) : Moment base (m.call name args fuel).2 := by
  have hdepth : m.stack.depth = 0 := List.length_eq_zero_iff.2 hidle
  have hcall (ofs : UInt32) : Ends (callWith ofs args fuel m) (fun _ m' => Moment base m')
      fun _ m' => Moment base m' := by
    have hprepare : Moment base (past (StoryMachine.prepareCall ofs args) m) :=
      .prepareCall hm hidle ofs args
    refine Ends.get ?_
    rw [hdepth]
    refine (plainly_halts (ends_past (StoryMachine.prepareCall ofs args) m)).bind
      (fun _ m' hpast => ?_) fun h m' ⟨_, _, hpast⟩ => hpast ▸ hprepare
    exact (hpast ▸ hprepare).execute hload fuel
  unfold Machine.call
  rw [hdepth]
  split
  · next ofs _ =>
    have hends := hcall ofs
    cases hr : callWith ofs args fuel m with
    | ok v m' =>
      rw [hr] at hends
      exact .keepResult hends v
    | error h m' =>
      rw [hr] at hends
      have hleft : Moment base (after (leaveTo 0) m') := .leave hends
      cases h <;> exact hleft
  · exact hm

/-- What a host does takes a machine from one moment to another. -/
theorem Served.moment (hm : Served base m) : Moment base m := by
  have hidle {m : Machine} (hm : Served base m) : m.stack.frames = [] := by
    obtain ⟨k, hk⟩ := hm.idle (idle_of_load hload) (definable_of_load hload)
      (problem?_stack_of_load hload)
    exact hk.kept.stack.frames
  induction hm with
  | load => exact .load
  | run hm fuel ih => exact ih.runs hload (hidle hm) fuel fuel
  | call hm name args fuel ih => exact ih.call hload (hidle hm) name args fuel
  | restore hm hok ih => exact .restore ih (hidle hm) hok
  | saveState _ ih => exact .saveState ih
  | collectGarbage _ ih => exact .collectGarbage ih
  | perform _ hop ih => exact .perform ih hop
  | storeFile _ name bs ih => exact .storeFile ih name bs
  | read _ hpools ih => exact .read ih hpools
  | outside _ host interrupt ih => exact .outside ih host interrupt

end Loaded

/-! ## Pins and calls -/

theorem Housed.mirrorsCalls {p : PagedPool} (hm : m.Housed base) (hcode : m.pools.code = .paged p) :
    p.MirrorsCalls m.stack.frames where
  pins i := by
    have hpins := hm.pinned (by rw [hcode]; rfl) i
    rw [hcode, List.count_eq_countP, List.countP_map] at hpins
    exact hpins
  held f hf := by
    obtain ⟨i, start, page, hsplit, hpage, -⟩ := hcode ▸ hm.shown f hf
    refine ⟨i, ?_, Option.isSome_iff_exists.2 ⟨page, hpage⟩⟩
    exact congrArg (·.toOption.map Prod.fst) hsplit

/-- An image whose first function calls itself. -/
def caller : Bytes :=
  let program := [Instr.call 0 0].foldl Assembler.emit (Assembler.method {})
  ImageDraft.encode {
    metaclasses := #[("list", [])]
    code := program.finish.toArray
    objects := #[⟨1, 0, [0, 0]⟩]
    entry? := some 0 }

/-- One page is kept at a time. -/
def paging : MachineSettings := { mode := .paged 1 }

end Machine

end StoryMachine
