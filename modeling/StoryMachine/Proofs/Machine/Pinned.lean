import StoryMachine.Proofs.Machine.Life

/-!
# The code of active calls

While a call is active, the page with the start of its method is pinned, and so it is kept. A
call pins it when it starts and takes the pin back when it ends, and nothing else pins code or
takes pins back. So each page is pinned once for each call whose method starts on it, and no
page is pinned when no call is active. If code ends early enough, then no call gets to
instructions before its method.

Calls lie one above the other, so once the outermost one has ended there are only the values
below it.

* `Machine.Pinned`, `Machine.Housed`: pins are those of the calls, and code is kept;
* `Machine.Active`, `Machine.Idle`: what is true while calls are active, and when none is;
* `leave_active`, `turn_active`, `execute_active`: calls that end, and instructions;
* `Idle.enter`, `Idle.push`: what happens before the first call;
* `Idle.call`: functions that the host calls.
-/

namespace StoryMachine

namespace Machine

variable {base m m' : Machine} {limits : StackSettings} {k n : Nat} {f : Frame} {v : Value}

/-- Each page of code is pinned once for each call whose method starts on it. In memory all
    pages are kept anyway. -/
def Pinned (m : Machine) : Prop :=
  m.pools.code.isPaged = true → ∀ i, m.pools.code.pins i =
    (m.stack.frames.map fun f => m.pools.code.geometry.pageOf? f.method).count (some i)

/-- The code of the calls is there. -/
structure Housed (m base : Machine) : Prop where
  /-- It is kept as that of the other machine. -/
  isPaged : m.pools.code.isPaged = base.pools.code.isPaged
  /-- It is pinned once for each call. -/
  pinned : m.Pinned
  /-- The headers of methods are kept. -/
  shown : ∀ f ∈ m.stack.frames, m.pools.code.Shows f.method MethodHeader.size
  /-- The pages do not go on any further than those of the other machine. -/
  ends : ∀ n, base.pools.code.EndsBy n → m.pools.code.EndsBy n
  /-- If they end early enough, then no instruction is before its method. -/
  placed : base.pools.code.EndsBy codeLimit → ∀ f ∈ m.stack.frames, f.Placed

/-- Calls are active, and the outermost one starts at place `k`. -/
structure Active (m base : Machine) (limits : StackSettings) (k : Nat) : Prop where
  /-- Calls lie one above the other, and objects are of metaclasses for their kinds. -/
  kept : m.Kept base (Stack.Nested limits)
  /-- The outermost call starts there. -/
  based : m.stack.base? = some k
  /-- Their code is kept. -/
  housed : m.Housed base

/-- No call is active, and there are `k` values on the stack. -/
structure Idle (m base : Machine) (limits : StackSettings) (k : Nat) : Prop where
  /-- The stack keeps to its limits, and objects are of metaclasses for their kinds. -/
  kept : m.Kept base (Stack.Cleared limits k)
  /-- No code has to be kept. -/
  housed : m.Housed base

/-! ## Pins -/

/-- It does not matter what else becomes of the calls. -/
theorem Pinned.congr (hm : m.Pinned) (hpins : m.pools.code.SamePins m'.pools.code)
    (hmethods : m'.stack.frames.map Frame.method = m.stack.frames.map Frame.method) : m'.Pinned := by
  intro hpaged i
  have hcount := hm (hpins.isPaged ▸ hpaged) i
  rw [hpins.pins, hcount, hpins.geometry]
  have hpages := congrArg (List.map m.pools.code.geometry.pageOf?) hmethods
  rw [List.map_map, List.map_map] at hpages
  exact congrArg (List.count (some i)) hpages.symm

theorem Pinned.call (hm : m.Pinned) (f : Frame) : Pinned { m with
    stack := m.stack.call f
    pools := { m.pools with code := m.pools.code.pin f.method } } := by
  intro hpaged i
  have hpages := m.pools.code.samePages_pin f.method
  have hpaged : m.pools.code.isPaged = true := hpages.isPaged.symm.trans hpaged
  dsimp only [Stack.call]
  rw [Pool.pins_pin hpaged, hpages.geometry, List.map_cons, List.count_cons, hm hpaged i]
  simp only [beq_iff_eq]
  split <;> rfl

theorem Pinned.leave (hm : m.Pinned) {fs : List Frame} (hframes : m.stack.frames = f :: fs)
    {stack : Stack} (hstack : stack.frames = fs) (heap : Heap) : Pinned { m with
      stack, heap
      pools := { m.pools with code := m.pools.code.unpin f.method } } := by
  intro hpaged i
  have hpages := m.pools.code.samePages_unpin f.method
  have hpaged : m.pools.code.isPaged = true := hpages.isPaged.symm.trans hpaged
  have hcount := hm hpaged i
  rw [hframes, List.map_cons, List.count_cons] at hcount
  simp only [beq_iff_eq] at hcount
  dsimp only
  rw [Pool.pins_unpin hpaged, hpages.geometry, hstack, hcount]
  split <;> rfl

theorem Pinned.unpinned (hm : m.Pinned) (hframes : m.stack.frames = []) : m.pools.code.Unpinned := by
  intro i
  cases hcode : m.pools.code with
  | memory p => rfl
  | paged p =>
    have hcount := hm (by rw [hcode]; rfl) i
    rw [hframes] at hcount
    exact hcode ▸ hcount

theorem Pinned.of_unpinned (hm : m.pools.code.Unpinned) (hframes : m.stack.frames = []) : m.Pinned := by
  intro _ i
  rw [hm i, hframes]
  rfl

/-- The page of a call is pinned. -/
theorem Pinned.pos (hm : m.Pinned) (hf : f ∈ m.stack.frames) {i : Nat}
    (hi : m.pools.code.geometry.pageOf? f.method = some i) (hpaged : m.pools.code.isPaged = true) :
    0 < m.pools.code.pins i := by
  rw [hm hpaged i, List.count_pos_iff]
  exact hi ▸ List.mem_map_of_mem hf

/-! ## Code -/

/-- Another state takes values out of calls only. -/
theorem Places.scrub (m : Machine) (h : Heap) : m.Places (m.stack.scrub h) := by
  intro _ _ hplaced f hf
  obtain ⟨g, hg, rfl⟩ := List.mem_map.1 hf
  exact ⟨(hplaced g hg).current, (hplaced g hg).next⟩

namespace Housed

theorem refl (hm : m.Pinned) (hframes : m.stack.frames = []) : m.Housed m where
  isPaged := rfl
  pinned := hm
  shown f hf := by simp [hframes] at hf
  ends _ hends := hends
  placed _ f hf := by simp [hframes] at hf

/-- Calls stay where they are, or go on in their methods. -/
theorem congr (hm : m.Housed base) (hpins : m.pools.code.SamePins m'.pools.code)
    (hmethods : m'.stack.frames.map Frame.method = m.stack.frames.map Frame.method)
    (hplaces : m.Places m'.stack) : m'.Housed base where
  isPaged := hpins.isPaged.trans hm.isPaged
  pinned := hm.pinned.congr hpins hmethods
  shown f hf := by
    have hmem : f.method ∈ m.stack.frames.map Frame.method := hmethods ▸ List.mem_map_of_mem hf
    obtain ⟨g, hg, hmethod⟩ := List.mem_map.1 hmem
    rw [← hmethod]
    exact hpins.shows (hm.shown g hg) fun i hi hpaged => hm.pinned.pos hg hi hpaged
  ends n hends := hpins.ends n (hm.ends n hends)
  placed hends := hplaces (hm.ends _ hends) hm.shown (hm.placed hends)

theorem same (hm : m.Housed base) (hpins : m.pools.code.SamePins m'.pools.code)
    (hframes : m'.stack.frames = m.stack.frames) : m'.Housed base :=
  hm.congr hpins (by rw [hframes]) (.of_frames hframes)

theorem call (hm : m.Housed base) (hf : m.Admits f) : Housed { m with
    stack := m.stack.call f
    pools := { m.pools with code := m.pools.code.pin f.method } } base where
  isPaged := (m.pools.code.samePages_pin _).isPaged.trans hm.isPaged
  pinned := hm.pinned.call f
  shown := by
    have hpages := m.pools.code.samePages_pin f.method
    exact List.forall_mem_cons.2 ⟨hpages.shows hf.shown, fun g hg => hpages.shows (hm.shown g hg)⟩
  ends n hends := (m.pools.code.samePages_pin _).ends n (hm.ends n hends)
  placed hends := List.forall_mem_cons.2 ⟨hf.placed (hm.ends _ hends), hm.placed hends⟩

theorem leave (hm : m.Housed base) {fs : List Frame} (hframes : m.stack.frames = f :: fs)
    {stack : Stack} (hstack : stack.frames = fs) (heap : Heap) : Housed { m with
      stack, heap
      pools := { m.pools with code := m.pools.code.unpin f.method } } base where
  isPaged := (m.pools.code.samePages_unpin _).isPaged.trans hm.isPaged
  pinned := hm.pinned.leave hframes hstack heap
  shown g hg := by
    have hmem : g ∈ m.stack.frames := hframes ▸ List.mem_cons_of_mem f (hstack ▸ hg)
    exact (m.pools.code.samePages_unpin _).shows (hm.shown g hmem)
  ends n hends := (m.pools.code.samePages_unpin _).ends n (hm.ends n hends)
  placed hends g hg := hm.placed hends g (hframes ▸ List.mem_cons_of_mem f (hstack ▸ hg))

end Housed

/-! ## What is true between instructions -/

instance : Calling base 0 (fun m => m.Active base limits k) fun m => m.Active base limits k where
  image hm := hm.kept.same
  next hm himage hstack hpins hheap :=
    ⟨Lasting.next (I := (·.Kept base _)) hm.kept himage hstack hpins hheap, hstack ▸ hm.based,
      hm.housed.same hpins (by rw [hstack])⟩
  floor_le hm := hm.kept.stack.floor_le
  size_le hm := hm.kept.stack.settings.symm ▸ hm.kept.stack.size_le
  within hm ht hplaces := ⟨hm.kept.withStack (ht.nested hm.kept.stack), ht.base?.trans hm.based,
    hm.housed.congr (.refl _) (ht.map_frames Frame.method fun _ => rfl) hplaces⟩
  goes hm := hm
  calls {m f} hm hf := by
    refine ⟨⟨hm.kept.same, hm.kept.stack.call hf.room, hm.kept.classed⟩, ?_, hm.housed.call hf⟩
    obtain ⟨g, hg, rfl⟩ := Option.map_eq_some_iff.1 hm.based
    dsimp only
    rw [Stack.base?, Stack.call, List.getLast?_cons, hg]
    rfl

instance : Lasting base fun m => m.Idle base limits k where
  image hm := hm.kept.same
  next hm himage hstack hpins hheap :=
    ⟨Lasting.next (I := (·.Kept base _)) hm.kept himage hstack hpins hheap,
      hm.housed.same hpins (by rw [hstack])⟩

theorem Active.frames_ne_nil (hm : m.Active base limits k) : m.stack.frames ≠ [] := fun hframes => by
  have hbased := hm.based
  rw [Stack.base?, hframes] at hbased
  cases hbased

theorem Active.depth_pos (hm : m.Active base limits k) : 0 < m.stack.depth :=
  List.length_pos_iff.2 hm.frames_ne_nil

theorem Idle.depth_eq_zero (hm : m.Idle base limits k) : m.stack.depth = 0 := by
  rw [Stack.depth, hm.kept.stack.frames, List.length_nil]

theorem Active.restore {bs : Bytes} (hm : m.Active base limits k)
    (hok : Machine.restore bs m = .ok () m') : m'.Active base limits k := by
  have hkept := hm.kept.restore (fun _ h hs => hs.scrub h) hok
  obtain ⟨s, h, -, -, rfl⟩ := exists_adopt_of_restore hok
  have hscrub := (Stack.Within.refl hm.kept.stack 0).scrub h.openHoles
  exact ⟨hkept, hscrub.base?.trans hm.based,
    hm.housed.congr (.refl _) (hscrub.map_frames Frame.method fun _ => rfl) (.scrub _ _)⟩

theorem Idle.restore {bs : Bytes} (hm : m.Idle base limits k)
    (hok : Machine.restore bs m = .ok () m') : m'.Idle base limits k := by
  have hkept := hm.kept.restore (fun _ h hs => ⟨hs.settings, by simp [Stack.scrub, hs.frames],
    by simpa [Stack.size, Stack.scrub] using hs.size,
    by simpa [Stack.size, Stack.scrub] using hs.size_le⟩) hok
  obtain ⟨s, h, -, -, rfl⟩ := exists_adopt_of_restore hok
  exact ⟨hkept, hm.housed.same (.refl _) (by simp [adopt, Stack.scrub, hm.kept.stack.frames])⟩

/-! ## Calls that end -/

/-- Calls are active, or the outermost one has ended. -/
def Wound (m base : Machine) (limits : StackSettings) (k : Nat) : Prop :=
  m.Active base limits k ∨ m.Idle base limits k

instance : Lasting base fun m => m.Wound base limits k where
  image hm := hm.elim (fun hm => hm.kept.same) fun hm => hm.kept.same
  next hm himage hstack hpins hheap := hm.imp
    (fun hm => Lasting.next (I := (·.Active base limits k)) hm himage hstack hpins hheap)
    fun hm => Lasting.next (I := (·.Idle base limits k)) hm himage hstack hpins hheap

theorem leave_active (hm : m.Active base limits k) :
    ∃ m', leave m = .ok () m' ∧ m'.Wound base limits k ∧ m'.stack.depth + 1 = m.stack.depth := by
  obtain ⟨f, fs, hframes⟩ := List.exists_cons_of_ne_nil hm.frames_ne_nil
  have hf : m.stack.frame? = some f := by rw [Stack.frame?, hframes, List.head?_cons]
  have hleft : m.stack.popFrame.truncate f.argBase = m.stack.left := by rw [Stack.left, hf]
  have hnested := hm.kept.stack.left
  have hfs : m.stack.left.frames = fs := by rw [Stack.frames_left, hframes, List.tail_cons]
  have hhoused := hm.housed.leave hframes hfs
    ((m.heap.releaseValues (m.stack.above f.argBase)).releaseValues f.held)
  have hclassed := (hm.kept.classed.ages (.releaseValues _ (m.stack.above f.argBase))).ages
    (.releaseValues _ f.held)
  have hbased := hm.based
  rw [Stack.base?, hframes] at hbased
  refine ⟨_, leave_of_some hf, ?_, ?_⟩
  · rw [hleft]
    cases fs with
    | nil =>
      -- It was the outermost call, so only the values below its arguments are left.
      rw [List.getLast?_singleton, Option.map_some] at hbased
      have hsize : m.stack.left.size = k :=
        (hm.kept.stack.size_left hf).trans (Option.some.inj hbased)
      exact .inr ⟨⟨hm.kept.same, ⟨hnested.settings, hfs, hsize, hnested.size_le⟩, hclassed⟩, hhoused⟩
    | cons g gs =>
      rw [List.getLast?_cons_cons, ← hfs] at hbased
      exact .inl ⟨⟨hm.kept.same, hnested, hclassed⟩, hbased, hhoused⟩
  · dsimp only
    rw [hleft, Stack.depth_left]
    exact Nat.sub_add_cancel hm.depth_pos

/-- The induction is on the number of calls that may be ended. -/
theorem leaveMany_wound (hm : m.Wound base limits k) (hn : m.stack.depth ≤ n) :
    ∃ m', leaveMany n m = .ok () m' ∧ m'.Idle base limits k := by
  induction n generalizing m with
  | zero =>
    rcases hm with hm | hm
    · exact absurd hm.depth_pos (not_lt.2 hn)
    · exact ⟨m, rfl, hm⟩
  | succ n ih =>
    rcases hm with hm | hm
    · obtain ⟨m₁, hok, hm₁, hdepth⟩ := leave_active hm
      obtain ⟨m₂, hok₂, hm₂⟩ := ih hm₁ (by omega)
      exact ⟨m₂, (bind_eq_of_ok hok).trans hok₂, hm₂⟩
    · have hnone : m.stack.frame? = none := List.head?_eq_none_iff.2 hm.kept.stack.frames
      obtain ⟨m₂, hok₂, hm₂⟩ := ih (.inr hm) (hm.depth_eq_zero.trans_le (Nat.zero_le _))
      exact ⟨m₂, (bind_eq_of_ok (leave_of_none hnone)).trans hok₂, hm₂⟩

theorem leaveTo_wound (hm : m.Wound base limits k) :
    ∃ m', leaveTo 0 m = .ok () m' ∧ m'.Idle base limits k :=
  leaveMany_wound hm (Nat.sub_zero _).ge

theorem settle_wound (hm : m.Wound base limits k) : m.settle.Idle base limits k := by
  obtain ⟨m', hok, hm'⟩ := leaveTo_wound hm
  have hsettle : m.settle = { m' with raised := [] } := by rw [settle, after, hok]
  rw [hsettle]
  exact Lasting.congr (I := (·.Idle base limits k)) hm' rfl rfl rfl rfl

/-- A handler is looked for only in a call. The induction is on the number of calls that may
    be ended. -/
theorem unwind_wound (hm : m.Wound base limits k) (n : Nat) :
    Ends (unwind v n m) (fun _ m' => m'.Active base limits k) fun _ m' => m'.Wound base limits k := by
  induction n generalizing m with
  | zero =>
    have hunhandled : Stays (·.Wound base limits k) (unhandled v) := unhandled_stays v
    have hrelease : Stays (·.Wound base limits k) (releaseValue v) := releaseValue_stays v
    refine (hunhandled.plainly hm).bind (fun f m₁ hm₁ => ?_) fun _ _ he => he.1
    exact (hrelease.plainly hm₁).bind (fun _ _ hm₂ => hm₂) fun _ _ he => he.1
  | succ n ih =>
    have hfind : Ends (onFault (findHandler v) (releaseValue v) m)
        (fun _ m' => m'.Active base limits k) fun _ m' => m'.Wound base limits k := by
      refine Ends.onFault (E := fun _ m' => m'.Wound base limits k) ?_ fun e m' he =>
        ⟨_, rfl, Lasting.withHeap (I := (·.Wound base limits k)) he fun hc => hc.ages (.releaseValue _ v)⟩
      refine (findHandler_peeks v m (.refl m)).mono (fun _ m' ha => ?_) fun _ m' he =>
        Lasting.peeked (I := (·.Wound base limits k)) hm he.1
      obtain ⟨hpeeked, f, hf⟩ := ha
      have hactive : m.Active base limits k := hm.resolve_right fun hidle => by
        rw [Stack.frame?, hidle.kept.stack.frames] at hf
        cases hf
      exact Lasting.peeked (I := (·.Active base limits k)) hactive hpeeked
    refine (plainly_halts hfind).bind (fun handler? m₁ hm₁ => ?_) fun _ _ he => by
      obtain ⟨-, -, he⟩ := he
      exact he
    cases handler? with
    | some handler =>
      have hhandle : Stays (·.Active base limits k) (handleAt handler v) := handleAt_stays handler v
      exact (hhandle.plainly hm₁).mono (fun _ _ hm₂ => hm₂) fun _ _ he => .inl he.1
    | none =>
      -- The call has no handler, so it ends, and the one around it is asked.
      obtain ⟨m₂, hok, hm₂, -⟩ := leave_active hm₁
      exact Ends.bind_ok (plainly_ok hok) (ih hm₂)

theorem handleFault_wound (hm : m.Active base limits k) (fault : Fault) :
    Ends (handleFault fault 0 m) (fun _ m' => m'.Active base limits k)
      fun _ m' => m'.Wound base limits k := by
  have hunwind {v : Value} {m' : Machine} (hm' : m'.Active base limits k) :
      Ends ((get >>= fun m => unwind v (m.stack.depth - 0)) m') (fun _ m' => m'.Active base limits k)
        fun _ m' => m'.Wound base limits k := Ends.get (unwind_wound (.inl hm') _)
  cases fault with
  | thrown v => exact hunwind hm
  | failed f =>
    unfold handleFault
    dsimp only
    split
    · exact .inl hm
    · have hraise : Stays (·.Active base limits k) (raise f) := raise_stays f
      exact Ends.bind (hraise.plainly hm) (fun v m' hm' => hunwind hm')
        fun _ _ he => .inl he.1
  | endless => exact .inl hm

/-! ## Instructions -/

/-- There is a result once the outermost call has ended. -/
def Resulted (base : Machine) (limits : StackSettings) (k : Nat) (result? : Option Value)
    (m : Machine) : Prop :=
  match result? with
  | none => m.Active base limits k
  | some _ => m.Idle base limits k

theorem instruction_active (hm : m.Active base limits k) :
    Ends (instruction 0 m) (Resulted base limits k) fun _ m' => m'.Active base limits k := by
  have hfetch : Stays (·.Active base limits k) fetch := fetch_stays
  refine (hfetch m hm).bind (fun i m₁ hm₁ => ?_) fun _ _ he => he
  have hstep := step_moves (I := (·.Active base limits k)) (fun _ _ => Nat.zero_le _) i
    (fun _ name => restoreFromFile_stays_of (I := (·.Active base limits k))
      (fun hm hok => hm.restore hok) name) hm₁
  refine hstep.bind (fun flow m₂ hm₂ => ?_) fun _ _ he => he
  cases flow with
  | next => exact hm₂
  | returned v =>
    obtain ⟨m₃, hok, hm₃, -⟩ := leave_active hm₂
    refine Ends.bind_ok hok (Ends.get ?_)
    rcases hm₃ with hm₃ | hm₃
    · rw [if_neg (not_le.2 hm₃.depth_pos)]
      have hpush : Stays (·.Active base limits k) (push v) := push_stays v
      exact (hpush m₃ hm₃).bind (fun _ _ hm' => hm') fun _ _ he => he
    · rw [if_pos hm₃.depth_eq_zero.le]
      exact hm₃

theorem turn_active (hm : m.Active base limits k) :
    Ends (turn 0 m) (Resulted base limits k) fun _ m' => m'.Wound base limits k := by
  refine (checkSignal_ends m).bind (fun _ m₁ hm₁ => ?_) fun h m₁ hm₁ => ?_
  rotate_left
  · subst hm₁
    exact .inl (Lasting.congr (I := (·.Active base limits k)) hm rfl rfl rfl rfl)
  subst hm₁
  have hcollect : Ends (collectIfDue m₁) (fun _ m' => m'.Active base limits k) fun _ _ => False := by
    refine (collectIfDue_ends m₁).mono (fun _ m₂ hm₂ => ?_) fun _ _ he => he
    rcases hm₂ with rfl | rfl
    · exact hm
    · exact Lasting.collectGarbage (I := (·.Active base limits k)) hm
  refine hcollect.bind (fun _ m₂ hm₂ => ?_) fun _ _ he => he.elim
  have hends := instruction_active hm₂
  cases hr : instruction 0 m₂ with
  | ok result? m₃ =>
    rw [hr] at hends
    exact Ends.bind_ok (plainly_ok (attempt_ok hr)) hends
  | error e m₃ =>
    rw [hr] at hends
    exact Ends.bind_ok (plainly_ok (attempt_error hr))
      ((handleFault_wound hends e).bind (fun _ _ hm' => hm') fun _ _ he => he)

/-- The induction is on the number of turns that may be taken. -/
theorem turns_active (hm : m.Active base limits k) (fuel : Nat) :
    Ends (turns 0 fuel m) (fun _ m' => m'.Idle base limits k) fun _ m' => m'.Wound base limits k := by
  induction fuel generalizing m with
  | zero => exact .inl hm
  | succ fuel ih =>
    refine (turn_active hm).bind (fun result? m₁ hm₁ => ?_) fun _ _ he => he
    cases result? with
    | none => exact ih hm₁
    | some v => exact hm₁

theorem execute_active (hm : m.Active base limits k) (fuel : Nat) :
    Ends (execute 0 fuel m) (fun _ m' => m'.Idle base limits k)
      fun _ m' => m'.Wound base limits k := by
  refine Ends.get ?_
  rw [if_neg (not_le.2 hm.depth_pos)]
  exact turns_active hm fuel

/-! ## The first call -/

theorem Idle.push (hm : m.Idle base limits k) (v : Value) :
    Ends (push v m) (fun _ m' => m'.Idle base limits (k + 1)) fun _ m' => m'.Idle base limits k := by
  refine Ends.get ?_
  split
  · next hroom => exact ⟨hm.kept.withStack (hm.kept.stack.put hroom v), hm.housed.same (.refl _) rfl⟩
  · exact Ends.bind_ok rfl
      (Lasting.withHeap (I := (·.Idle base limits k)) hm fun hc => hc.ages (.releaseValue _ v))

theorem Idle.pushOwned (hm : m.Idle base limits k) (v : Value) :
    Ends (pushOwned v m) (fun _ m' => m'.Idle base limits (k + 1))
      fun _ m' => m'.Idle base limits k := by
  have howned : Stays (·.Idle base limits k) (owned v) := owned_stays v
  exact (howned m hm).bind (fun v m' hm' => hm'.push v) fun _ _ he => he

/-- As many arguments are put on the stack as there is room for. The induction is on them. -/
theorem Idle.pushAll (hm : m.Idle base limits k) (args : List Value) :
    Ends (args.forM StoryMachine.pushOwned m) (fun _ m' => m'.Idle base limits (k + args.length))
      fun _ m' => ∃ n, k ≤ n ∧ m'.Idle base limits n := by
  induction args generalizing m k with
  | nil => exact hm
  | cons v args ih =>
    refine (hm.pushOwned v).bind (fun _ m' hm' => ?_) fun _ _ he => ⟨k, le_rfl, he⟩
    refine (ih hm').mono (fun _ _ hm'' => ?_) fun _ _ ⟨n, hn, he⟩ => ⟨n, (Nat.le_succ k).trans hn, he⟩
    rwa [List.length_cons, ← Nat.succ_add_eq_add_succ]

theorem Idle.dropAbove (hm : m.Idle base limits n) (hk : k ≤ n) :
    ∃ m', dropAbove k m = .ok () m' ∧ m'.Idle base limits k := by
  have hsize : (m.stack.truncate k).size = k := by
    rw [Stack.size_truncate, hm.kept.stack.size]
    exact min_eq_left hk
  refine ⟨_, rfl, ⟨hm.kept.same, ⟨hm.kept.stack.settings, hm.kept.stack.frames, hsize, ?_⟩,
    hm.kept.classed.ages (.releaseValues _ _)⟩, hm.housed.same (.refl _) rfl⟩
  have hle := hm.kept.stack.size_le
  rw [hm.kept.stack.size] at hle
  exact hsize.trans_le (hk.trans hle)

/-- A call that starts is the outermost one. -/
theorem Idle.enter {method : UInt32} {argc : Nat} {self : Value} {definer? : Option ObjectId}
    {target? : Option PropId} (hm : m.Idle base limits (k + argc)) :
    Ends (enter method argc self definer? target? m) (fun _ m' => m'.Active base limits k)
      fun _ m' => m'.Idle base limits (k + argc) := by
  refine enter_calls (I := (·.Idle base limits (k + argc))) (fun _ hm => hm.kept.stack.nested.floor_le)
    (fun m f hm hf hargc => ?_) hm
  refine ⟨⟨hm.kept.same, hm.kept.stack.nested.call hf.room, hm.kept.classed⟩, ?_, hm.housed.call hf⟩
  have hstart : f.argBase = k := by
    have hargs := hf.room.args
    rw [hf.room.start, hm.kept.stack.size, hargc] at hargs
    exact Nat.add_right_cancel hargs
  dsimp only
  rw [Stack.base?, Stack.call, hm.kept.stack.frames, List.getLast?_singleton, Option.map_some, hstart]

/-- A function that cannot be called leaves no arguments behind. -/
theorem Idle.prepareCall (hm : m.Idle base limits k) (ofs : UInt32) (args : List Value) :
    Ends (prepareCall ofs args m) (fun _ m' => m'.Active base limits k)
      fun _ m' => m'.Idle base limits k := by
  refine Ends.get ?_
  rw [hm.kept.stack.size]
  refine Ends.onFault (E := fun _ m' => ∃ n, k ≤ n ∧ m'.Idle base limits n)
    ((hm.pushAll args).bind (fun _ m' hm' => ?_) fun _ _ he => he) fun e m' ⟨n, hn, he⟩ => ?_
  · exact hm'.enter.mono (fun _ _ hm'' => hm'') fun _ _ he => ⟨_, Nat.le_add_right k _, he⟩
  · obtain ⟨m'', hok, hm''⟩ := he.dropAbove hn
    exact ⟨m'', hok, hm''⟩

theorem Idle.call (hm : m.Idle base limits k) (name : String) (args : List Value) (fuel : Nat) :
    (m.call name args fuel).2.Idle base limits k := by
  have hcall (ofs : UInt32) : Ends (callWith ofs args fuel m) (fun _ m' => m'.Idle base limits k)
      fun _ m' => m'.Wound base limits k := by
    refine Ends.get ?_
    rw [hm.depth_eq_zero]
    refine (plainly_halts (hm.prepareCall ofs args)).bind (fun _ m' hm' => execute_active hm' fuel)
      fun _ _ ⟨_, _, he⟩ => .inr he
  unfold Machine.call
  rw [hm.depth_eq_zero]
  split
  · next ofs _ =>
    have hends := hcall ofs
    cases hr : callWith ofs args fuel m with
    | ok v m' =>
      rw [hr] at hends
      exact Stays.after (I := (·.Idle base limits k)) (keepResult_stays v) hends
    | error h m' =>
      rw [hr] at hends
      obtain ⟨m'', hok, hm''⟩ := leaveTo_wound hends
      have hafter : (after (leaveTo 0) m').Idle base limits k := by
        rw [after, hok]
        exact hm''
      cases h <;> exact hafter
  · exact hm

end Machine

end StoryMachine
