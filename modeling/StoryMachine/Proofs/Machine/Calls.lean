import StoryMachine.Code.Assembler
import StoryMachine.Image.Draft
import StoryMachine.Proofs.Machine.Nesting

/-!
# Calls give the stack back

Whoever calls a function finds the stack as it was when the call is over, whether it has
given a result, has not even started, was stopped by a signal, or ended in whatever
failure. The counts that were taken on the arguments are given back with the places that
they had on the stack.

* `Stack.Ongoing`: a call that is still there, maybe below others;
* `Stack.Back`: a call that has ended, and nothing else has happened since;
* `unwind_ongoing`, `instruction_ongoing`, `turn_ongoing`: exceptions, instructions and
  turns, which may end the call;
* `turns_ongoing`: all turns until there is a result;
* `Life.Reachable.call_gives_back`: calls by the host.
-/

namespace StoryMachine

namespace Stack

variable {limits : StackSettings} {s t u : Stack} {n : Nat} {f : Frame}

/-- The calls of `s` are still there, and what lies below the innermost of them is as it
    was. -/
structure Ongoing (limits : StackSettings) (s t : Stack) : Prop where
  nested : t.Nested limits
  intact : s.Intact t

/-- The innermost call of `s` has ended, and below it all is as it was. -/
structure Back (s t : Stack) : Prop where
  depth : t.depth + 1 = s.depth
  values : t.values = s.left.values

/-- The innermost call of `s` goes on, or it is over. -/
def Over (limits : StackSettings) (s t : Stack) : Prop := s.Ongoing limits t ∨ s.Back t

theorem Ongoing.within (ht : s.Ongoing limits t) (hw : t.Within s.localsAt u) : s.Ongoing limits u :=
  ⟨hw.nested ht.nested, ht.intact.within ht.nested hw⟩

theorem Ongoing.goes (ht : s.Ongoing limits t) (hg : t.Goes s.localsAt u) : s.Ongoing limits u := by
  rcases hg with hw | ⟨u, f, hw, hf, rfl⟩
  · exact ht.within hw
  · have hu := ht.within hw
    exact ⟨hu.nested.call hf, hu.intact.call hu.nested f⟩

theorem Ongoing.left (ht : s.Ongoing limits t) (hdepth : s.depth < t.depth) : s.Ongoing limits t.left :=
  ⟨ht.nested.left, ht.intact.left ht.nested hdepth⟩

theorem Ongoing.iterate_left (ht : s.Ongoing limits t) (hdepth : s.depth + n ≤ t.depth) :
    s.Ongoing limits (Stack.left^[n] t) :=
  ⟨ht.nested.iterate_left n, ht.intact.iterate_left ht.nested hdepth⟩

/-- When the call ends, all is gone that came with it. -/
theorem Ongoing.back_left (hs : s.Nested limits) (hpos : 0 < s.depth) (ht : s.Ongoing limits t)
    (hdepth : t.depth = s.depth) : s.Back t.left := by
  obtain ⟨f, fs, hframes⟩ := List.exists_cons_of_length_pos hpos
  have hshapes := ht.intact.shapes
  rw [hdepth, Nat.sub_self, List.drop_zero, hframes, List.map_cons] at hshapes
  obtain ⟨g, gs, hframes', hshape, -⟩ := List.map_eq_cons_iff.1 hshapes
  have hbase : g.shape.argBase = f.shape.argBase := by rw [hshape]
  change g.argBase = f.argBase at hbase
  have hlocals : s.localsAt = f.localBase := by
    rw [localsAt, frame?, hframes, List.head?_cons, Option.map_some, Option.getD_some]
  have hargs := hs.args f (hframes ▸ List.mem_cons_self)
  refine ⟨?_, Array.ext_getElem? fun i => ?_⟩
  · rw [depth_left, hdepth, Nat.sub_add_cancel hpos]
  · rw [left_of_cons hframes, left_of_cons hframes', hbase]
    have hcut := getElem?_truncate t f.argBase i
    have hcut' := getElem?_truncate s f.argBase i
    rw [truncate] at hcut hcut'
    rw [hcut, hcut']
    refine ite_congr rfl (fun hi => ht.intact.below i ?_) fun _ => rfl
    omega

theorem Ongoing.over_left (hs : s.Nested limits) (hpos : 0 < s.depth) (ht : s.Ongoing limits t) :
    s.Over limits t.left := by
  rcases ht.intact.depth_le.eq_or_lt with hdepth | hdepth
  · exact .inr (ht.back_left hs hpos hdepth.symm)
  · exact .inl (ht.left hdepth)

/-- If there are still as many calls, then the call goes on. -/
theorem Over.ongoing (ht : s.Over limits t) (hdepth : s.depth ≤ t.depth) : s.Ongoing limits t := by
  rcases ht with ht | ht
  · exact ht
  · have := ht.depth
    omega

/-- Whether the call goes on or is over, it is over once all calls but those around it have
    ended. -/
theorem Over.iterate_left (hs : s.Nested limits) (hpos : 0 < s.depth) (ht : s.Over limits t)
    {floor : Nat} (hfloor : s.depth = floor + 1) : s.Back (Stack.left^[t.depth - floor] t) := by
  rcases ht with ht | ht
  · have hle := ht.intact.depth_le
    obtain ⟨n, hn⟩ : ∃ n, t.depth = s.depth + n := Nat.exists_eq_add_of_le hle
    have hsucc : t.depth - floor = n + 1 := by omega
    have hdepth : (Stack.left^[n] t).depth = s.depth := by
      rw [depth, frames_iterate_left, List.length_drop, ← depth]
      omega
    rw [hsucc, Function.iterate_succ_apply']
    exact (ht.iterate_left hn.ge).back_left hs hpos hdepth
  · have hzero : t.depth - floor = 0 := by
      have := ht.depth
      omega
    rw [hzero]
    exact ht

theorem Over.back (ht : s.Over limits t) (hdepth : t.depth < s.depth) : s.Back t := by
  rcases ht with ht | ht
  · exact absurd ht.intact.depth_le (not_le.2 hdepth)
  · exact ht

end Stack

namespace Machine

variable {α : Type} {base m m' : Machine} {limits : StackSettings} {S : Stack → Prop} {s : Stack}
  {floor n : Nat} {v : Value} {x : MachineM α}

/-- A call also goes on while one that it has started does. -/
instance : Calling base s.localsAt (fun m => m.Kept base (s.Ongoing limits))
    fun m => m.Kept base (s.Ongoing limits) where
  floor_le hm := hm.stack.nested.floor_le
  size_le hm := hm.stack.nested.settings.symm ▸ hm.stack.nested.size_le
  within hm ht _ := ⟨hm.same, hm.stack.within ht, hm.classed⟩
  goes hm := hm
  calls hm hf :=
    ⟨hm.same, hm.stack.goes (.inr ⟨_, _, .refl hm.stack.nested _, hf.room, rfl⟩), hm.classed⟩

/-! ## Exceptions -/

/-- If nothing handles an exception, then that is what a run ends with. -/
theorem unwind_zero_ends (hm : m.Kept base S) (exception : Value) :
    Ends (unwind exception 0 m) (fun _ _ => False)
      fun h m' => m'.Kept base S ∧ h.isMemory = false := by
  have hends := unhandled_ends (m := m) exception
  have hstays := unhandled_stays (I := (·.Kept base S)) exception m hm
  cases hr : unhandled exception m with
  | error e m₁ =>
    rw [hr] at hends
    exact hends.elim
  | ok f m₁ =>
    rw [hr] at hends hstays
    have hm₁ : m₁.Kept base S := hstays
    have hcode : f.code = .unhandledException := hends.1
    refine Ends.bind_ok (plainly_ok hr) (Ends.bind_ok rfl ⟨?_, ?_⟩)
    · exact hm₁.withHeap (hm₁.classed.ages (.releaseValue _ exception))
    · rw [Halt.isMemory, hcode]
      rfl

/-- A call has been stopped: it is still there, or it is over. If memory has run out, then
    it is still there. -/
def HaltedIn (base : Machine) (limits : StackSettings) (s : Stack) (h : Halt) (m : Machine) : Prop :=
  m.Kept base (s.Over limits) ∧ (h.isMemory = true → s.Ongoing limits m.stack)

theorem HaltedIn.of_ongoing {h : Halt} (hm : m.Kept base (s.Ongoing limits)) :
    HaltedIn base limits s h m := ⟨hm.mono fun _ ht => .inl ht, fun _ => hm.stack⟩

/-- The induction is on the calls that may be ended, of which the last is the one that
    this is about. -/
theorem unwind_over (hs : s.Nested limits) (hpos : 0 < s.depth) (hm : m.Kept base (s.Over limits))
    (hn : m.stack.depth + 1 = s.depth + n) (exception : Value) :
    Ends (unwind exception n m) (fun _ m' => m'.Kept base (s.Ongoing limits))
      (HaltedIn base limits s) := by
  induction n generalizing m with
  | zero =>
    refine (unwind_zero_ends hm exception).mono (fun _ _ hfalse => hfalse.elim) fun h m' he => ⟨he.1, ?_⟩
    exact fun hmemory => absurd (he.2.symm.trans hmemory) (by decide)
  | succ n ih =>
    have hongoing := hm.stack.ongoing (by omega)
    have hsame : m.Kept base (· = m.stack) := ⟨hm.same, rfl, hm.classed⟩
    have hkeep {m' : Machine} (hm' : m'.Kept base (· = m.stack)) : m'.Kept base (s.Ongoing limits) :=
      hm'.mono fun _ ht => ht ▸ hongoing
    have hfind := (findHandler_stays (I := (·.Kept base (· = m.stack))) exception).onFault
      (releaseValue_stays exception)
    refine Ends.bind (hfind.plainly hsame) (fun handler? m₁ hm₁ => ?_) fun _ _ he =>
      .of_ongoing (hkeep he.1)
    cases handler? with
    | some handler =>
      have hhandle : Stays (·.Kept base (s.Ongoing limits)) (handleAt handler exception) :=
        handleAt_stays handler exception
      exact (hhandle.plainly (hkeep hm₁)).mono (fun _ _ hm' => hm') fun _ _ he => .of_ongoing he.1
    | none =>
      obtain ⟨m₂, hok, hm₂⟩ := leave_left hm₁
      have hleft : m₂.stack = m.stack.left := by rw [hm₂.stack, hm₁.stack]
      refine Ends.bind_ok (plainly_ok hok) (ih (hm₂.mono fun t ht => ?_) ?_)
      · rw [ht, hm₁.stack]
        exact hongoing.over_left hs hpos
      · rw [hleft, Stack.depth_left]
        omega

/-- A fault is handled in the call, or in one that it has started, or the call is over. -/
theorem handleFault_over (hs : s.Nested limits) (hfloor : s.depth = floor + 1)
    (hm : m.Kept base (s.Ongoing limits)) (fault : Fault) :
    Ends (handleFault fault floor m) (fun _ m' => m'.Kept base (s.Ongoing limits))
      (HaltedIn base limits s) := by
  have hunwind {v : Value} {m' : Machine} (hm' : m'.Kept base (s.Ongoing limits)) :
      Ends ((get >>= fun m => unwind v (m.stack.depth - floor)) m')
        (fun _ m' => m'.Kept base (s.Ongoing limits)) (HaltedIn base limits s) := by
    have hdepth := hm'.stack.intact.depth_le
    exact Ends.get (unwind_over hs (by omega) (hm'.mono fun _ ht => .inl ht) (by omega) v)
  cases fault with
  | thrown v => exact hunwind hm
  | failed f =>
    unfold handleFault
    dsimp only
    split
    · exact .of_ongoing hm
    · exact Ends.bind ((raise_stays f).plainly hm) (fun v m' hm' => hunwind hm') fun _ _ he =>
        .of_ongoing he.1
  | endless => exact .of_ongoing hm

/-! ## Turns -/

/-- What has become of the call after a turn. It is over only if there is a result. -/
def PassedIn (base : Machine) (limits : StackSettings) (s : Stack) (result? : Option Value)
    (m : Machine) : Prop :=
  match result? with
  | none => m.Kept base (s.Ongoing limits)
  | some _ => m.Kept base s.Back

theorem instruction_over (hs : s.Nested limits) (hfloor : s.depth = floor + 1) (hquiet : m.Quiet)
    (hm : m.Kept base (s.Ongoing limits)) :
    Ends (instruction floor m) (PassedIn base limits s) fun _ m' => m'.Kept base (s.Ongoing limits) := by
  have hfetch := fetch_stays (I := (·.Kept base (s.Ongoing limits))) m hm
  cases hr : fetch m with
  | error e m₁ =>
    rw [hr] at hfetch
    exact Ends.bind_error hr hfetch
  | ok i m₁ =>
    rw [hr] at hfetch
    have hi : i.intrinsic? base.image ≠ some .restoreState := fun hi => by
      rw [Quiet, instr?, hr, Option.bind_some, hm.same, hi] at hquiet
      exact hquiet rfl
    have hstep := step_moves (I := (·.Kept base (s.Ongoing limits)))
      (fun _ hm => Stack.localsAt_le hm.stack.nested hm.stack.intact.shapes) i
      (fun hrestore => absurd hrestore hi) hfetch
    refine Ends.bind_ok hr (hstep.bind (fun flow m₂ hm₂ => ?_) fun _ _ he => he)
    cases flow with
    | next => exact hm₂
    | returned v =>
      have hm₂ : m₂.Kept base (s.Ongoing limits) := hm₂
      obtain ⟨m₃, hok, hm₃⟩ := leave_left hm₂
      have hover : m₃.Kept base (s.Over limits) :=
        hm₃.mono fun t ht => ht ▸ hm₂.stack.over_left hs (by omega)
      refine Ends.bind_ok hok (Ends.get ?_)
      split
      · next hdepth => exact ⟨hover.same, hover.stack.back (by omega), hover.classed⟩
      · next hdepth =>
        -- The result goes to a call that this one has started.
        have hongoing : m₃.Kept base (s.Ongoing limits) :=
          ⟨hover.same, hover.stack.ongoing (by omega), hover.classed⟩
        exact (push_stays (I := (·.Kept base (s.Ongoing limits))) v m₃ hongoing).bind
          (fun _ _ hm' => hm') fun _ _ he => he

theorem turn_over (hs : s.Nested limits) (hfloor : s.depth = floor + 1) (hquiet : m.Quiet)
    (hm : m.Kept base (s.Ongoing limits)) :
    Ends (turn floor m) (PassedIn base limits s) (HaltedIn base limits s) := by
  refine (checkSignal_ends m).bind (fun _ m₁ hm₁ => ?_) fun h m₁ hm₁ => ?_
  rotate_left
  · subst hm₁
    exact .of_ongoing (hm.congr rfl rfl rfl)
  subst hm₁
  have hcollect : Ends (collectIfDue m₁) (fun _ m' => m'.Kept base (s.Ongoing limits) ∧ m'.Quiet)
      fun _ _ => False := by
    refine (collectIfDue_ends m₁).mono (fun _ m₂ hm₂ => ?_) fun _ _ he => he
    rcases hm₂ with rfl | rfl
    · exact ⟨hm, hquiet⟩
    · exact ⟨hm.collectGarbage, hquiet.collectGarbage⟩
  refine hcollect.bind (fun _ m₂ hm₂ => ?_) fun _ _ he => he.elim
  have hends := instruction_over hs hfloor hm₂.2 hm₂.1
  cases hr : instruction floor m₂ with
  | ok result? m₃ =>
    rw [hr] at hends
    exact Ends.bind_ok (plainly_ok (attempt_ok hr)) hends
  | error e m₃ =>
    rw [hr] at hends
    refine Ends.bind_ok (plainly_ok (attempt_error hr)) ?_
    exact (handleFault_over hs hfloor hends e).bind (fun _ _ hm' => hm') fun _ _ he => he

/-- The machine after some turns, of which none has ended the call. -/
def TurnsTo (floor : Nat) : Machine → Machine → Prop :=
  Relation.ReflTransGen fun m m' => turn floor m = .ok none m'

/-- The induction is on the number of turns that may be taken. -/
theorem turns_over (hs : s.Nested limits) (hfloor : s.depth = floor + 1)
    (hquiet : ∀ m', TurnsTo floor m m' → m'.Quiet) (hm : m.Kept base (s.Ongoing limits)) (fuel : Nat) :
    Ends (turns floor fuel m) (fun _ m' => m'.Kept base s.Back) (HaltedIn base limits s) := by
  induction fuel generalizing m with
  | zero => exact .of_ongoing hm
  | succ fuel ih =>
    have hends := turn_over hs hfloor (hquiet m .refl) hm
    cases hr : turn floor m with
    | error h m' =>
      rw [hr] at hends
      exact Ends.bind_error hr hends
    | ok result? m' =>
      rw [hr] at hends
      refine Ends.bind_ok hr ?_
      cases result? with
      | some v => exact hends
      | none => exact ih (fun m'' hm'' => hquiet m'' (.head hr hm'')) hends

theorem execute_over (hs : s.Nested limits) (hfloor : s.depth = floor + 1)
    (hquiet : ∀ m', TurnsTo floor m m' → m'.Quiet) (hm : m.Kept base (s.Ongoing limits)) (fuel : Nat) :
    Ends (execute floor fuel m) (fun _ m' => m'.Kept base s.Back) (HaltedIn base limits s) := by
  refine Ends.get ?_
  split
  · exact .of_ongoing hm
  · exact turns_over hs hfloor hquiet hm fuel

/-- Counts stay owned in the course of the turns, unless memory runs out. -/
theorem turns_sound {terms : Terms} {held : Multiset Value} (hm : m.Sound terms held)
    (hheld : terms.stale = false → held = 0) (hquiet : ∀ m', TurnsTo floor m m' → m'.Quiet) (fuel : Nat) :
    Ends (turns floor fuel m) (fun v m' => m'.Sound terms.loose ({v} + held))
      fun h m' => h.isMemory = true ∨ m'.Sound terms.loose held := by
  induction fuel generalizing m with
  | zero => exact .inr hm.loose
  | succ fuel ih =>
    have hends := turn_ends hm hheld (hquiet m .refl) floor
    cases hr : turn floor m with
    | error h m' =>
      rw [hr] at hends
      exact Ends.bind_error hr (hends.imp_right And.left)
    | ok result? m' =>
      rw [hr] at hends
      refine Ends.bind_ok hr ?_
      cases result? with
      | some v => exact hends.1
      | none => exact ih hends fun m'' hm'' => hquiet m'' (.head hr hm'')

theorem execute_sound {terms : Terms} {held : Multiset Value} (hm : m.Sound terms held)
    (hheld : terms.stale = false → held = 0) (hquiet : ∀ m', TurnsTo floor m m' → m'.Quiet) (fuel : Nat) :
    Ends (execute floor fuel m) (fun v m' => m'.Sound terms.loose ({v} + held))
      fun h m' => h.isMemory = true ∨ m'.Sound terms.loose held := by
  refine Ends.get ?_
  split
  · exact .inr hm.loose
  · exact turns_sound hm hheld hquiet fuel

/-! ## The start of a call -/

end Machine

namespace Stack

variable {limits : StackSettings} {s t : Stack} {f : Frame} {vs : List Value}

/-- The stack with more values on top. -/
def heaped (s : Stack) (vs : List Value) : Stack := { s with values := s.values ++ vs.toArray }

theorem size_heaped (s : Stack) (vs : List Value) : (s.heaped vs).size = s.size + vs.length := by
  simp [size, heaped]

theorem truncate_heaped (s : Stack) (vs : List Value) : (s.heaped vs).truncate s.size = s := by
  have hvalues : (s.values ++ vs.toArray).shrink s.values.size = s.values :=
    Array.toList_inj.1 (by simp)
  rw [truncate, heaped]
  exact congrArg (fun values => { s with values }) hvalues

theorem Nested.heaped (hs : s.Nested limits) (hsize : s.size + vs.length ≤ limits.stackSize) :
    (s.heaped vs).Nested limits := by
  refine ⟨hs.settings, hs.args, hs.locals, hs.nested, ?_, ?_, hs.depth_le⟩
  · rw [size_heaped]
    exact hs.floor_le.trans (Nat.le_add_right _ _)
  · rw [size_heaped]
    exact hsize

/-- A call that has been started with arguments on top of the stack. -/
theorem Nested.call_heaped (hs : s.Nested limits) (hf : (s.heaped vs).Admits f) (hargc : f.argc = vs.length) :
    ((s.heaped vs).call f).Nested limits ∧ ((s.heaped vs).call f).depth = s.depth + 1 ∧
      ((s.heaped vs).call f).left.values = s.values := by
  have hstart := hf.start
  have hargs := hf.args
  rw [size_heaped] at hstart
  have hbase : f.argBase = s.size := by omega
  refine ⟨(hs.heaped ?_).call hf, rfl, ?_⟩
  · rw [← hs.settings]
    have hlocals := hf.locals
    have hsize : f.stackBase ≤ s.settings.stackSize := hf.size_le
    omega
  · have hframes : ((s.heaped vs).call f).frames = f :: s.frames := rfl
    have hvalues : ((s.heaped vs).call f).values =
        s.values ++ vs.toArray ++ Array.replicate f.header.locals.toNat .nil := rfl
    rw [left_of_cons hframes, hbase]
    exact Array.toList_inj.1 (by simp [hvalues, size])

end Stack

namespace Machine

variable {base m m' : Machine} {limits : StackSettings} {s : Stack} {vs args : List Value} {v : Value}
  {ofs : UInt32}

theorem pushOwned_heaped (hm : m.Kept base (· = s.heaped vs)) (v : Value) :
    Ends (pushOwned v m) (fun _ m' => m'.Kept base (· = s.heaped (vs ++ [v])))
      fun _ m' => m'.Kept base (· = s.heaped vs) := by
  have hm₁ : Kept { m with heap := m.heap.retainValue v } base (· = s.heaped vs) :=
    hm.withHeap (hm.classed.ages (.retainValue _ v))
  refine Ends.bind_ok rfl (Ends.get ?_)
  split
  · refine hm₁.withStack ?_
    change Stack.put m.stack v = s.heaped (vs ++ [v])
    rw [hm.stack]
    have hvalues : (s.values ++ vs.toArray).push v = s.values ++ (vs ++ [v]).toArray :=
      Array.toList_inj.1 (by simp)
    exact congrArg (fun values => { s with values }) hvalues
  · exact Ends.bind_ok rfl (hm₁.withHeap (hm₁.classed.ages (.releaseValue _ v)))

/-- The induction is on the arguments that are still to be pushed. -/
theorem pushAll_heaped (hm : m.Kept base (· = s.heaped vs)) (args : List Value) :
    Ends (args.forM pushOwned m) (fun _ m' => m'.Kept base (· = s.heaped (vs ++ args)))
      fun _ m' => m'.Kept base fun t => ∃ ws, t = s.heaped ws := by
  induction args generalizing m vs with
  | nil =>
    rw [List.append_nil]
    exact hm
  | cons v args ih =>
    refine (pushOwned_heaped hm v).bind (fun _ m' hm' => ?_) fun _ _ he => he.mono fun _ ht => ⟨vs, ht⟩
    have hrest := ih hm'
    rw [List.append_assoc, List.singleton_append] at hrest
    exact hrest

/-- A call that can start finds its arguments on top of the stack, and nothing has happened
    to the stack after all if it cannot. -/
theorem prepareCall_opens (hm : m.Kept base (Stack.Nested limits)) (ofs : UInt32) (args : List Value) :
    Ends (prepareCall ofs args m)
      (fun _ m' => m'.Kept base fun t => ∃ f, (m.stack.heaped args).Admits f ∧
        f.argc = args.length ∧ t = (m.stack.heaped args).call f)
      fun _ m' => m'.Kept base (· = m.stack) := by
  have hstart : m.Kept base (· = m.stack.heaped []) :=
    ⟨hm.same, by simp [Stack.heaped], hm.classed⟩
  have hroom : ∀ t, t = m.stack.heaped args → t.floor ≤ t.size := by
    rintro t rfl
    rw [Stack.size_heaped]
    exact hm.stack.floor_le.trans (Nat.le_add_right _ _)
  refine Ends.get (Ends.onFault (E := fun _ m' => m'.Kept base fun t => ∃ ws, t = m.stack.heaped ws) ?_
    fun e m' he => ⟨_, rfl, ?_⟩)
  · refine (pushAll_heaped hstart args).bind (fun _ m₁ hm₁ => ?_) fun _ _ he => he
    rw [List.nil_append] at hm₁
    refine (hm₁.enter_calls hroom).mono (fun _ m₂ hm₂ => hm₂.mono ?_) fun _ _ he =>
      he.mono fun _ ht => ⟨args, ht⟩
    rintro t ⟨u, f, rfl, hf, hargc, rfl⟩
    exact ⟨f, hf, hargc, rfl⟩
  · -- The arguments that have been pushed are taken off again.
    obtain ⟨ws, hws⟩ := he.stack
    refine ⟨he.same, ?_, he.classed.ages (.releaseValues _ _)⟩
    change m'.stack.truncate m.stack.size = m.stack
    rw [hws, Stack.truncate_heaped]

/-! ## What is released at the end -/

end Machine

namespace Heap

variable (h : Heap)

/-- To release some names after others is to release all of them. -/
theorem releaseAll_append (ids more : List ObjectId) :
    h.releaseAll (ids ++ more) = (h.releaseAll ids).releaseAll more := by
  induction h, ids using Heap.releaseAll.induct with
  | case1 h =>
    rw [releaseAll.eq_def h []]
    rfl
  | case2 h id ids ho ih =>
    rw [List.cons_append, releaseAll, releaseAll, ho]
    exact ih
  | case3 h id ids o ho hlast ih =>
    rw [List.cons_append, releaseAll, releaseAll, ho]
    simp only [hlast, and_self, if_true]
    rw [← List.append_assoc]
    exact ih
  | case4 h id ids o ho hlast ih =>
    rw [List.cons_append, releaseAll, releaseAll, ho]
    simp only [hlast, if_false]
    exact ih

theorem releaseValues_append (vs ws : List Value) :
    h.releaseValues (vs ++ ws) = (h.releaseValues vs).releaseValues ws := by
  rw [releaseValues, Value.objects, List.filterMap_append]
  exact h.releaseAll_append _ _

end Heap

namespace Machine

variable {m : Machine}

/-- A call that ends releases all that the stack does not hold any more. -/
theorem leave_releases (m : Machine) : ∃ m' gone, leave m = .ok () m' ∧ m'.stack = m.stack.left ∧
    m'.heap = m.heap.releaseValues gone ∧ (gone : Multiset Value) + m'.stack.held = m.stack.held := by
  cases hf : m.stack.frame? with
  | none =>
    refine ⟨m, [], leave_of_none hf, by rw [Stack.left, hf], ?_, by simp⟩
    rw [Heap.releaseValues, Value.objects, List.filterMap_nil, Heap.releaseAll]
  | some f =>
    obtain ⟨fs, hframes⟩ := List.head?_eq_some_iff.1 hf
    refine ⟨_, m.stack.above f.argBase ++ f.held, leave_of_some hf, by rw [Stack.left, hf],
      (Heap.releaseValues_append _ _ _).symm, ?_⟩
    have hvalues := toList_shrink_append_above m.stack f.argBase
    rw [Stack.held, Stack.held, ← hvalues, Stack.popFrame, Stack.truncate, hframes]
    simp only [List.tail_cons, List.reverse_cons, List.flatMap_append, List.flatMap_cons,
      List.flatMap_nil, List.append_nil, ← Multiset.coe_add]
    abel

theorem leaveMany_releases (m : Machine) (n : Nat) : ∃ m' gone, leaveMany n m = .ok () m' ∧
    m'.stack = Stack.left^[n] m.stack ∧ m'.heap = m.heap.releaseValues gone ∧
    (gone : Multiset Value) + m'.stack.held = m.stack.held := by
  induction n generalizing m with
  | zero =>
    refine ⟨m, [], rfl, rfl, ?_, by simp⟩
    rw [Heap.releaseValues, Value.objects, List.filterMap_nil, Heap.releaseAll]
  | succ n ih =>
    obtain ⟨m₁, gone, hok, hstack, hheap, hheld⟩ := leave_releases m
    obtain ⟨m₂, more, hok₂, hstack₂, hheap₂, hheld₂⟩ := ih m₁
    refine ⟨m₂, gone ++ more, (bind_eq_of_ok hok).trans hok₂, ?_, ?_, ?_⟩
    · rw [hstack₂, hstack, Function.iterate_succ_apply]
    · rw [hheap₂, hheap, Heap.releaseValues_append]
    · rw [← hheld, ← hheld₂, ← Multiset.coe_add, add_assoc]

/-! ## Whole calls -/

/-- The ways in which a call leaves the machine: there is no such function, it cannot be
    started, it gives a result, or it is stopped. -/
inductive CallsTo (m : Machine) (name : String) (args : List Value) (fuel : Nat) : Machine → Prop
  | unknown : CallsTo m name args fuel m
  | refused {ofs : UInt32} {e : Fault} {m₁ : Machine} (herr : prepareCall ofs args m = .error e m₁) :
    CallsTo m name args fuel (after (leaveTo m.stack.depth) m₁)
  | completed {ofs : UInt32} {v : Value} {m₁ m₂ : Machine} (hexport : m.export? name = some (.function ofs))
    (hstart : prepareCall ofs args m = .ok () m₁) (hok : execute m.stack.depth fuel m₁ = .ok v m₂) :
    CallsTo m name args fuel (after (keepResult v) m₂)
  | stopped {ofs : UInt32} {h : Halt} {m₁ m₂ : Machine} (hexport : m.export? name = some (.function ofs))
    (hstart : prepareCall ofs args m = .ok () m₁) (herr : execute m.stack.depth fuel m₁ = .error h m₂) :
    CallsTo m name args fuel (after (leaveTo m.stack.depth) m₂)

theorem callWith_of_ok {m m₁ : Machine} {ofs : UInt32} {args : List Value}
    (hstart : prepareCall ofs args m = .ok () m₁) (fuel : Nat) :
    callWith ofs args fuel m = execute m.stack.depth fuel m₁ :=
  (bind_eq_of_ok (x := get) rfl).trans (bind_eq_of_ok (plainly_ok hstart))

theorem callWith_of_error {m m₁ : Machine} {ofs : UInt32} {args : List Value} {e : Fault}
    (herr : prepareCall ofs args m = .error e m₁) (fuel : Nat) :
    callWith ofs args fuel m = .error e.halt m₁ := by
  refine (bind_eq_of_ok (x := get) rfl).trans (bind_eq_of_error ?_)
  rw [plainly, herr]

theorem call_of_callWith_error {m m₁ : Machine} {name : String} {ofs : UInt32} {args : List Value}
    {fuel : Nat} {h : Halt} (hexport : m.export? name = some (.function ofs))
    (herr : callWith ofs args fuel m = .error h m₁) :
    (m.call name args fuel).2 = after (leaveTo m.stack.depth) m₁ := by
  unfold Machine.call
  rw [hexport]
  dsimp only
  rw [herr]
  cases h <;> rfl

theorem callsTo_call (m : Machine) (name : String) (args : List Value) (fuel : Nat) :
    m.CallsTo name args fuel (m.call name args fuel).2 := by
  by_cases hfunction : ∃ ofs, m.export? name = some (.function ofs)
  · obtain ⟨ofs, hexport⟩ := hfunction
    cases hstart : prepareCall ofs args m with
    | error e m₁ =>
      rw [call_of_callWith_error hexport (callWith_of_error hstart fuel)]
      exact .refused hstart
    | ok _ m₁ =>
      have hcall := callWith_of_ok hstart fuel
      cases hr : execute m.stack.depth fuel m₁ with
      | ok v m₂ =>
        unfold Machine.call
        rw [hexport]
        dsimp only
        rw [hcall, hr]
        exact .completed hexport hstart hr
      | error h m₂ =>
        rw [call_of_callWith_error hexport (hcall.trans hr)]
        exact .stopped hexport hstart hr
  · unfold Machine.call
    split
    · next ofs hexport => exact absurd ⟨ofs, hexport⟩ hfunction
    · exact .unknown

/-- No instruction of the call puts another state in place of the machine's. -/
def CallsQuietly (m : Machine) (name : String) (args : List Value) : Prop :=
  ∀ ofs m₁, m.export? name = some (.function ofs) → prepareCall ofs args m = .ok () m₁ →
    ∀ m₂, TurnsTo m.stack.depth m₁ m₂ → m₂.Quiet

/-- Memory runs out in the call, with the machine as it is then. -/
def RunsOut (m : Machine) (name : String) (args : List Value) (fuel : Nat) (m₂ : Machine) : Prop :=
  ∃ ofs h m₁, m.export? name = some (.function ofs) ∧ prepareCall ofs args m = .ok () m₁ ∧
    execute m.stack.depth fuel m₁ = .error h m₂ ∧ h.isMemory = true

variable {base m m₁ m₂ : Machine} {limits : StackSettings} {name : String} {args : List Value}
  {ofs : UInt32} {fuel : Nat}

theorem after_leaveTo (m : Machine) (floor : Nat) : ∃ gone,
    (after (leaveTo floor) m).stack = Stack.left^[m.stack.depth - floor] m.stack ∧
      (after (leaveTo floor) m).heap = m.heap.releaseValues gone ∧
        (gone : Multiset Value) + (after (leaveTo floor) m).stack.held = m.stack.held := by
  obtain ⟨m', gone, hok, hstack, hheap, hheld⟩ := leaveMany_releases m (m.stack.depth - floor)
  have hafter : after (leaveTo floor) m = m' := by
    have hleave : leaveTo floor m = .ok () m' := (bind_eq_of_ok (x := get) rfl).trans hok
    rw [after, hleave]
  rw [hafter]
  exact ⟨gone, hstack, hheap, hheld⟩

/-- A call that has been started is on top of what there was, and of its arguments. -/
structure Started (m : Machine) (args : List Value) (limits : StackSettings) (s : Stack) : Prop where
  nested : s.Nested limits
  depth : s.depth = m.stack.depth + 1
  left : s.left.values = m.stack.values
  args_lt : ∀ i < m.stack.size + args.length, i < s.localsAt
  args_eq : ∀ i < m.stack.size + args.length, s.values[i]? = (m.stack.heaped args).values[i]?

theorem started_of_prepareCall (hm : m.Kept base (Stack.Nested limits))
    (hstart : prepareCall ofs args m = .ok () m₁) :
    m.Started args limits m₁.stack ∧ m₁.Kept base (m₁.stack.Ongoing limits) := by
  have hends := prepareCall_opens hm ofs args
  rw [hstart] at hends
  obtain ⟨hsame, ⟨f, hf, hargc, hstack⟩, hclassed⟩ := hends
  obtain ⟨hs, hdepth, hleft⟩ := hm.stack.call_heaped hf hargc
  have hstarted : m.Started args limits m₁.stack := by
    rw [hstack]
    refine ⟨hs, hdepth, hleft, fun i hi => ?_, fun i hi => ?_⟩
    · have hlocals : ((m.stack.heaped args).call f).localsAt = f.localBase := rfl
      rwa [hlocals, hf.start, Stack.size_heaped]
    · rw [← Stack.size_heaped] at hi
      exact Array.getElem?_append_left hi
  exact ⟨hstarted, hsame, ⟨hstarted.nested, .refl _⟩, hclassed⟩

/-- Whatever becomes of a call, the stack is as it was. -/
theorem call_back (hm : m.Kept base (Stack.Nested limits)) (hquiet : m.CallsQuietly name args)
    (fuel : Nat) :
    (m.call name args fuel).2.stack.depth = m.stack.depth ∧
      (m.call name args fuel).2.stack.values = m.stack.values := by
  have hcall := m.callsTo_call name args fuel
  generalize (m.call name args fuel).2 = m' at hcall
  have hback {s t : Stack} (hs : m.Started args limits s) (ht : s.Back t) :
      t.depth = m.stack.depth ∧ t.values = m.stack.values :=
    ⟨Nat.succ_injective (ht.depth.trans hs.depth), ht.values.trans hs.left⟩
  cases hcall with
  | unknown => exact ⟨rfl, rfl⟩
  | @refused ofs e m₁ herr =>
    have hends := prepareCall_opens hm ofs args
    rw [herr] at hends
    have hm₁ : m₁.Kept base (· = m.stack) := hends
    obtain ⟨-, hleft, -⟩ := m₁.after_leaveTo m.stack.depth
    rw [hleft, hm₁.stack, Nat.sub_self]
    exact ⟨rfl, rfl⟩
  | completed hexport hstart hok =>
    obtain ⟨hstarted, hongoing⟩ := started_of_prepareCall hm hstart
    have hends := execute_over hstarted.nested hstarted.depth (hquiet _ _ hexport hstart) hongoing fuel
    rw [hok] at hends
    exact hback hstarted (Kept.keepResult hends _).stack
  | @stopped ofs h m₁ m₂ hexport hstart herr =>
    obtain ⟨hstarted, hongoing⟩ := started_of_prepareCall hm hstart
    have hends := execute_over hstarted.nested hstarted.depth (hquiet _ _ hexport hstart) hongoing fuel
    rw [herr] at hends
    obtain ⟨-, hleft, -⟩ := m₂.after_leaveTo m.stack.depth
    rw [hleft]
    have hpos : 0 < m₁.stack.depth := hstarted.depth ▸ Nat.succ_pos _
    -- The calls that are still open are left down to the one around the call.
    exact hback hstarted (hends.1.stack.iterate_left hstarted.nested hpos hstarted.depth)

/-- Unless memory runs out, all counts are owned as before: those that were taken on the
    arguments for the call are gone. -/
theorem call_sound {terms : Terms} {held : Multiset Value} (hm : m.Sound terms held)
    (hheld : terms.stale = false → held = 0) (hargs : ∀ v ∈ args, m.Knows terms v)
    (hquiet : m.CallsQuietly name args) (hmemory : ∀ m₂, ¬m.RunsOut name args fuel m₂) :
    (m.call name args fuel).2.Sound terms.loose held := by
  have hcall := m.callsTo_call name args fuel
  generalize (m.call name args fuel).2 = m' at hcall
  have hleave {m₁ : Machine} {terms : Terms} (hm₁ : m₁.Sound terms held) (floor : Nat) :
      (after (leaveTo floor) m₁).Sound terms.loose held := by
    obtain ⟨m₂, hok, hm₂, -⟩ := leaveTo_eq_ok hm₁ floor
    rw [after, hok]
    exact hm₂
  cases hcall with
  | unknown => exact hm.loose
  | @refused ofs e m₁ herr =>
    have hends := prepareCall_refuses hm hargs ofs
    rw [herr] at hends
    exact hleave hends.2 _
  | @completed ofs v m₁ m₂ hexport hstart hok =>
    have hends := prepareCall_refuses hm hargs ofs
    rw [hstart] at hends
    have hresult := execute_sound hends hheld (hquiet _ _ hexport hstart) fuel
    rw [hok] at hresult
    exact Sound.keepResult hresult
  | @stopped ofs h m₁ m₂ hexport hstart herr =>
    have hends := prepareCall_refuses hm hargs ofs
    rw [hstart] at hends
    have hresult := execute_sound hends hheld (hquiet _ _ hexport hstart) fuel
    rw [herr] at hresult
    exact hleave (hresult.resolve_left fun hh => hmemory m₂ ⟨ofs, h, m₁, hexport, hstart, herr, hh⟩) _

/-- When memory has run out, the arguments still have the places on the stack that own
    their counts, and these are released with all that the stack holds no more. -/
theorem call_of_runsOut (hm : m.Kept base (Stack.Nested limits)) (hquiet : m.CallsQuietly name args)
    (hmemory : m.RunsOut name args fuel m₂) :
    m.stack.values.toList ++ args <+: m₂.stack.values.toList ∧
      ∃ gone : List Value, (args : Multiset Value) ≤ gone ∧
        (gone : Multiset Value) + (m.call name args fuel).2.stack.held = m₂.stack.held ∧
        (m.call name args fuel).2.heap = m₂.heap.releaseValues gone := by
  obtain ⟨hdepth, hvalues⟩ := call_back hm hquiet fuel
  obtain ⟨ofs, h, m₁, hexport, hstart, herr, hh⟩ := hmemory
  obtain ⟨hstarted, hongoing⟩ := started_of_prepareCall hm hstart
  have hends := execute_over hstarted.nested hstarted.depth (hquiet _ _ hexport hstart) hongoing fuel
  rw [herr] at hends
  have hm₂ : m₁.stack.Ongoing limits m₂.stack := hends.2 hh
  have hcall := call_of_callWith_error hexport ((callWith_of_ok hstart fuel).trans herr)
  have hbelow : m.stack.values.toList ++ args <+: m₂.stack.values.toList := by
    have hlist : m.stack.values.toList ++ args = (m.stack.heaped args).values.toList := by
      simp [Stack.heaped]
    refine List.prefix_iff_getElem?.2 fun i hi => ?_
    have hlt : i < m.stack.size + args.length := by simpa [Stack.size] using hi
    rw [Array.getElem?_toList, hm₂.intact.below i (hstarted.args_lt i hlt), hstarted.args_eq i hlt,
      ← Array.getElem?_toList, ← hlist, List.getElem?_eq_getElem hi]
  obtain ⟨gone, hleft, hheap, hheld⟩ := m₂.after_leaveTo m.stack.depth
  rw [← hcall] at hleft hheap hheld
  refine ⟨hbelow, gone, ?_, hheld, hheap⟩
  -- What the stack holds in the end and the arguments were on it before.
  have hframes : List.Sublist ((m.call name args fuel).2.stack.frames.reverse.flatMap Frame.held)
      (m₂.stack.frames.reverse.flatMap Frame.held) := by
    rw [hleft, Stack.frames_iterate_left]
    exact ((List.drop_sublist _ _).reverse).flatMap _
  have hsublist := (hbelow.sublist.append hframes).subperm
  refine Multiset.le_of_add_le_add_right
    (u := ((m.call name args fuel).2.stack.held : Multiset Value)) ?_
  rw [hheld, Stack.held, hvalues]
  refine le_trans (le_of_eq ?_) (Multiset.coe_le.2 hsublist)
  simp only [← Multiset.coe_add]
  abel

/-- The count of every object that can be freed is the number of places in which its name
    is found, and of those outside of the machine. -/
def Accounted (m : Machine) (held : Multiset Value) : Prop :=
  ∀ id o, m.heap.occupant? id = some o → o.persistent = false →
    o.refs.toNat = (m.heap.edges + m.stack.held + m.globals.toList + {m.result} +
      m.heap.undo.values + held : Multiset Value).count (.obj id)

theorem Sound.accounted {terms : Terms} {held : Multiset Value} (hm : m.Sound terms held)
    (hreliable : m.heap.Reliable terms.stale) : m.Accounted held := by
  intro id o ho hp
  rw [(hm.counted.balanced hreliable).exact id o ho hp]
  congr 1
  rw [Heap.owned, placed]
  abel

end Machine

namespace Life

variable {base : Machine} {l : Life} {name : String} {args : List Value}

/-- Whoever calls a function finds the stack as it was, whatever becomes of the call: as
    many calls, as many values, and the same values. Unless memory runs out, the counts are
    again those of the places in the machine and of what is held outside, so that those
    taken on the arguments have been given back. When memory runs out, the failing
    instruction may keep counts of what it had in its hands, but the arguments are still on
    the stack then, and what the stack does not hold any more is released. -/
theorem Reachable.call_gives_back {bs : Bytes} {settings : MachineSettings} {host : Host}
    (hload : Machine.load bs settings host = .ok base) (hl : Reachable base l)
    (hquiet : l.machine.CallsQuietly name args) (fuel : Nat) :
    ((l.machine.call name args fuel).2.stack.depth = l.machine.stack.depth ∧
      (l.machine.call name args fuel).2.stack.values = l.machine.stack.values) ∧
    (∀ terms held, l.machine.Sound terms held → (terms.stale = false → held = 0) →
      (∀ v ∈ args, l.machine.Knows terms v) → (∀ m, ¬l.machine.RunsOut name args fuel m) →
      (l.machine.call name args fuel).2.Sound terms.loose held ∧
        ((l.machine.call name args fuel).2.heap.Reliable terms.stale →
          (l.machine.call name args fuel).2.Accounted held)) ∧
    ∀ m, l.machine.RunsOut name args fuel m →
      l.machine.stack.values.toList ++ args <+: m.stack.values.toList ∧
        ∃ gone : List Value, (args : Multiset Value) ≤ gone ∧
          (gone : Multiset Value) + (l.machine.call name args fuel).2.stack.held = m.stack.held ∧
          (l.machine.call name args fuel).2.heap = m.heap.releaseValues gone := by
  have hkept := (hl.fits hload).kept
  refine ⟨Machine.call_back hkept hquiet fuel, fun terms held hm hheld hargs hmemory => ?_,
    fun m hm => Machine.call_of_runsOut hkept hquiet hm⟩
  have hsound := Machine.call_sound hm hheld hargs hquiet hmemory
  exact ⟨hsound, fun hreliable => hsound.accounted hreliable⟩

end Life

/-! ## A function that keeps its argument -/

namespace Machine

/-- Whether the turns of a call come to an end before there are `n` of them, with no
    instruction among them that puts another state in place. -/
def turnsQuietly (floor : Nat) : (n : Nat) → Machine → Bool
  | 0, _ => false
  | n + 1, m => decide m.Quiet &&
    match turn floor m with
    | .ok none m => turnsQuietly floor n m
    | _ => true

theorem quiet_of_turnsQuietly {m m' : Machine} {floor n : Nat} (hm : turnsQuietly floor n m = true)
    (hm' : TurnsTo floor m m') : m'.Quiet := by
  induction n generalizing m with
  | zero => cases hm
  | succ n ih =>
    rw [turnsQuietly, Bool.and_eq_true, decide_eq_true_iff] at hm
    rcases hm'.cases_head with rfl | ⟨m₁, hturn, hrest⟩
    · exact hm.1
    · rw [hturn] at hm
      exact ih hm.2 hrest

/-- Whether the function at an offset can be called, gives a result, and puts no other state
    in place. -/
def callsQuietly (m : Machine) (ofs : UInt32) (args : List Value) (fuel : Nat) : Bool :=
  match prepareCall ofs args m with
  | .ok _ m₁ => turnsQuietly m.stack.depth fuel m₁ &&
    match execute m.stack.depth fuel m₁ with
    | .ok _ _ => true
    | .error _ _ => false
  | .error _ _ => false

theorem quiet_of_callsQuietly {m : Machine} {name : String} {ofs : UInt32} {args : List Value} {fuel : Nat}
    (hexport : m.export? name = some (.function ofs)) (hm : m.callsQuietly ofs args fuel = true) :
    m.CallsQuietly name args ∧ ∀ m₂, ¬m.RunsOut name args fuel m₂ := by
  have hofs {ofs' : UInt32} (hexport' : m.export? name = some (.function ofs')) : ofs' = ofs := by
    rw [hexport] at hexport'
    exact (Value.function.inj (Option.some.inj hexport')).symm
  unfold callsQuietly at hm
  refine ⟨fun ofs' m₁ hexport' hstart m₂ hm₂ => ?_, ?_⟩
  · obtain rfl := hofs hexport'
    rw [hstart] at hm
    exact quiet_of_turnsQuietly (Bool.and_eq_true_iff.1 hm).1 hm₂
  · rintro m₂ ⟨ofs', h, m₁, hexport', hstart, herr, -⟩
    obtain rfl := hofs hexport'
    rw [hstart] at hm
    dsimp only at hm
    rw [herr, Bool.and_false] at hm
    cases hm

end Machine

/-- An image with a function that makes a list, and one that keeps its argument. -/
def stash : Bytes :=
  let make := [Instr.pushInt 7, .new 1 0, .ret].foldl Assembler.emit (Assembler.method { maxStack := 1 })
  let keep := [Instr.getArg 0, .setGlobal 0, .retNil].foldl Assembler.emit
    (Assembler.method { argc := 1, maxStack := 1 })
  ImageDraft.encode {
    metaclasses := #[("list", [])]
    code := (make.finish ++ keep.finish).toArray
    objects := #[⟨1, 0, [0, 0]⟩]
    symbols := #[("make", .function 0), ("keep", .function 17)]
    entry? := some 0 }

namespace Life

/-- The list is passed to the second function, and then it has one count, for the variable. -/
theorem call_gives_back_stash : ∃ base l, Machine.load stash { globals := 1 } {} = .ok base ∧
    Reachable base l ∧ l.machine.CallsQuietly "keep" [.obj ⟨2, 1⟩] ∧
    (l.machine.call "keep" [.obj ⟨2, 1⟩] 5).2.stack.values = l.machine.stack.values ∧
    (l.machine.call "keep" [.obj ⟨2, 1⟩] 5).2.heap.occupant? ⟨2, 1⟩ =
      some ⟨⟨0, .list [.int 7]⟩, 1, false⟩ ∧
    (l.machine.call "keep" [.obj ⟨2, 1⟩] 5).2.Accounted 0 := by
  have hrun : (Machine.load stash { globals := 1 } {}).toOption.any (fun base =>
      base.export? "make" == some (.function 0) && base.callsQuietly 0 [] 5 &&
        let m := (base.call "make" [] 5).2
        let m' := (m.call "keep" [.obj ⟨2, 1⟩] 5).2
        m.export? "keep" == some (.function 17) && m.callsQuietly 17 [.obj ⟨2, 1⟩] 5 &&
          m.result == .obj ⟨2, 1⟩ && !m'.heap.saturated && !m'.heap.wrapped &&
          m'.heap.occupant? ⟨2, 1⟩ == some ⟨⟨0, .list [.int 7]⟩, 1, false⟩) = true := by
    decide +kernel
  obtain ⟨base, hload, hrun⟩ := Machine.exists_load_of_any hrun
  simp only [Bool.and_eq_true, beq_iff_eq, Bool.not_eq_true'] at hrun
  obtain ⟨⟨hmake, hmakes⟩, ⟨⟨⟨⟨⟨hkeep, hkeeps⟩, hresult⟩, hsaturated⟩, hwrapped⟩, ho⟩⟩ := hrun
  have hbase : Fits base ⟨.idle, base⟩ := Reachable.fits hload .refl
  have hl : Reachable base ⟨.idle, (base.call "make" [] 5).2⟩ :=
    call_leads hbase rfl "make" [] 5
  obtain ⟨hquiet, hmemory⟩ := Machine.quiet_of_callsQuietly hmake hmakes
  obtain ⟨hquiet', hmemory'⟩ := Machine.quiet_of_callsQuietly hkeep hkeeps
  have hsound := Machine.call_sound (Machine.load_sound true hload).1 (fun h => by cases h) (by simp)
    hquiet hmemory
  have hargs : ∀ v ∈ [Value.obj ⟨2, 1⟩], (base.call "make" [] 5).2.Knows ⟨true, none, ∅⟩ v := by
    intro v hv
    rw [List.mem_singleton.1 hv, ← hresult]
    exact hsound.knows_placed (by simp [Machine.placed])
  obtain ⟨hstack, hcounts, -⟩ := hl.call_gives_back hload hquiet' 5
  exact ⟨base, _, hload, hl, hquiet', hstack.2, ho, (hcounts _ _ hsound (fun h => by cases h) hargs hmemory').2
    ⟨hsaturated, fun _ => hwrapped⟩⟩

end Life

end StoryMachine
