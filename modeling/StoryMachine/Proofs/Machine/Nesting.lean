import StoryMachine.Code.Assembler
import StoryMachine.Image.Draft
import StoryMachine.Proofs.Machine.Life

/-!
# Calls leave each other alone

Between any two instructions of any run the calls lie one above the other on the stack.
As long as a call has not ended, no instruction changes the values below its local
variables: its own arguments, and everything that belongs to the calls around it. Only
another state that is put in place of the machine's can do so.

* `Stack.Intact`: calls that are still there, with what lies below the innermost one;
* `Life.Step.intact`: one step keeps them;
* `Life.Reachable.calls_apart`: whole runs.
-/

namespace StoryMachine

namespace Stack

/-- The calls of `s` are still there in `t`, maybe below others, and so are the values
    below the local variables of the innermost of them. -/
structure Intact (s t : Stack) : Prop where
  /-- The outermost calls of `t` are those of `s`. -/
  shapes : (t.frames.drop (t.depth - s.depth)).map Frame.shape = s.frames.map Frame.shape
  /-- The values are the same. -/
  below : ∀ i < s.localsAt, t.values[i]? = s.values[i]?

variable {limits : StackSettings} {s t u : Stack} {n : Nat} {f : Frame}

theorem Intact.refl (s : Stack) : s.Intact s :=
  ⟨by rw [Nat.sub_self, List.drop_zero], fun _ _ => rfl⟩

/-- Without calls there is nothing to keep. -/
theorem Intact.of_depth (hs : s.depth = 0) (t : Stack) : s.Intact t := by
  have hframes : s.frames = [] := List.length_eq_zero_iff.1 hs
  refine ⟨?_, fun i hi => ?_⟩
  · rw [hs, hframes, Nat.sub_zero, depth, List.drop_length]
  · rw [localsAt, frame?, hframes] at hi
    exact absurd hi (Nat.not_lt_zero i)

theorem Intact.depth_le (hi : s.Intact t) : s.depth ≤ t.depth := by
  have hlength := congrArg List.length hi.shapes
  rw [List.length_map, List.length_map, List.length_drop] at hlength
  change t.depth - (t.depth - s.depth) = s.depth at hlength
  omega

/-- The local variables of an outer call are below those of the innermost one. -/
theorem Nested.localBase_le (ht : t.Nested limits) (hf : f ∈ t.frames) : f.localBase ≤ t.localsAt := by
  have hnested := ht.nested
  rw [localsAt, frame?]
  cases hframes : t.frames with
  | nil =>
    rw [hframes] at hf
    cases hf
  | cons g fs =>
    rw [hframes, List.pairwise_cons] at hnested
    have hg : g ∈ t.frames := hframes ▸ List.mem_cons_self
    rw [hframes] at hf
    rw [List.head?_cons, Option.map_some, Option.getD_some]
    rcases List.mem_cons.1 hf with rfl | hf
    · exact le_rfl
    · calc
        f.localBase ≤ f.stackBase := Nat.le.intro (ht.locals f (hframes ▸ List.mem_cons_of_mem g hf))
        _ ≤ g.argBase := hnested.1 f hf
        _ ≤ g.localBase := Nat.le.intro (ht.args g hg)

theorem localsAt_le (ht : t.Nested limits)
    (hshapes : (t.frames.drop n).map Frame.shape = s.frames.map Frame.shape) :
    s.localsAt ≤ t.localsAt := by
  cases hframes : s.frames with
  | nil =>
    rw [localsAt, frame?, hframes]
    exact Nat.zero_le _
  | cons f fs =>
    rw [hframes, List.map_cons] at hshapes
    obtain ⟨g, gs, hdrop, hshape, -⟩ := List.map_eq_cons_iff.1 hshapes
    have hg : g ∈ t.frames := List.mem_of_mem_drop (hdrop ▸ List.mem_cons_self)
    have hbase : g.shape.localBase = f.shape.localBase := by rw [hshape]
    change g.localBase = f.localBase at hbase
    rw [localsAt, frame?, hframes]
    exact hbase.symm.trans_le (ht.localBase_le hg)

theorem Intact.within (hi : s.Intact t) (ht : t.Nested limits) (hw : t.Within s.localsAt u) :
    s.Intact u where
  shapes := by
    rw [hw.depth, List.map_drop, hw.shapes, ← List.map_drop]
    exact hi.shapes
  below i hlt := by
    have hle := (localsAt_le ht hi.shapes).trans ht.localsAt_le_floor
    rw [hw.below i hlt (hlt.trans_le hle), hi.below i hlt]

theorem Intact.left (hi : s.Intact t) (ht : t.Nested limits) (hdepth : s.depth < t.depth) :
    s.Intact t.left := by
  have hshapes : (t.left.frames.drop (t.left.depth - s.depth)).map Frame.shape =
      s.frames.map Frame.shape := by
    rw [frames_left, depth_left, List.drop_tail, ← hi.shapes]
    congr 2
    omega
  refine ⟨hshapes, fun i hlt => ?_⟩
  obtain ⟨f, fs, hframes⟩ := List.exists_cons_of_length_pos (Nat.zero_lt_of_lt hdepth)
  have hf : t.frame? = some f := by rw [frame?, hframes, List.head?_cons]
  have hbelow : i < f.argBase := calc
    i < s.localsAt := hlt
    _ ≤ t.left.localsAt := localsAt_le ht.left hshapes
    _ ≤ t.left.floor := ht.left.localsAt_le_floor
    _ ≤ f.argBase := ht.floor_left_le hf
  rw [Stack.left, hf]
  dsimp only
  rw [getElem?_truncate, if_pos hbelow]
  exact hi.below i hlt

theorem Intact.iterate_left (hi : s.Intact t) (ht : t.Nested limits) (hdepth : s.depth + n ≤ t.depth) :
    s.Intact (Stack.left^[n] t) := by
  induction n generalizing t with
  | zero => exact hi
  | succ n ih =>
    refine ih (hi.left ht (by omega)) ht.left ?_
    rw [depth_left]
    omega

theorem Intact.call (hi : s.Intact t) (ht : t.Nested limits) (f : Frame) : s.Intact (t.call f) where
  shapes := by
    have hdepth : (t.call f).depth - s.depth = t.depth - s.depth + 1 := by
      have := hi.depth_le
      rw [depth, Stack.call, List.length_cons, ← depth]
      omega
    rw [hdepth, Stack.call, List.drop_succ_cons]
    exact hi.shapes
  below i hlt := by
    have hsize : i < t.values.size := calc
      i < s.localsAt := hlt
      _ ≤ t.localsAt := localsAt_le ht hi.shapes
      _ ≤ t.floor := ht.localsAt_le_floor
      _ ≤ t.values.size := ht.floor_le
    rw [Stack.call, putLocals, Array.getElem?_append_left hsize]
    exact hi.below i hlt

/-- Calls that have not ended in a turn are still there after it. -/
theorem Intact.unwound (hi : s.Intact t) (ht : t.Nested limits) (hu : t.Unwound s.localsAt u)
    (hpos : 0 < s.depth) (hdepth : s.depth ≤ u.depth) : s.Intact u := by
  obtain ⟨n, hw⟩ := hu
  have hn : s.depth + n ≤ t.depth := by
    have hleft : (Stack.left^[n] t).depth = t.depth - n := by
      rw [depth, frames_iterate_left, List.length_drop, depth]
    rw [hw.depth, hleft] at hdepth
    omega
  exact (hi.iterate_left ht hn).within (ht.iterate_left n) hw

theorem Intact.next (hi : s.Intact t) (ht : t.Nested limits) (hn : t.Next s.localsAt u)
    (hpos : 0 < s.depth) (hdepth : s.depth ≤ u.depth) : s.Intact u := by
  rcases hn with ⟨n, -, hw⟩ | ⟨u, f, hw, -, rfl⟩
  · exact hi.unwound ht ⟨n, hw⟩ hpos hdepth
  · exact (hi.within ht hw).call (hw.nested ht) f

end Stack

namespace Life

variable {base : Machine} {l l' l'' : Life} {s : Stack}

/-- The next step does not put another state in place, and leaves at least so many
    calls. -/
def Continues (depth : Nat) (l l' : Life) : Prop := Step false l l' ∧ depth ≤ l'.machine.stack.depth

/-- Calls that do not end in a step stay as they are. -/
theorem Step.intact (hstep : Step false l l') (hl : l.Fits base) (hd : base.Definable)
    (hs : s.Intact l.machine.stack) (hdepth : s.depth ≤ l'.machine.stack.depth) :
    s.Intact l'.machine.stack := by
  rcases Nat.eq_zero_or_pos s.depth with hzero | hpos
  · exact .of_depth hzero _
  have hnested := hl.kept.stack
  have hb := Stack.localsAt_le hnested hs.shapes
  -- Where there are no calls there is nothing to keep.
  have hbare {t : Stack} (ht : t.frames = []) (hle : s.depth ≤ t.depth) : False := by
    have hzero : t.depth = 0 := by rw [Stack.depth, ht, List.length_nil]
    omega
  have hfits := hstep.fits hl hd
  have hturn (hquiet : l.machine.Quiet) := hl.turn hb fun hnot => absurd hquiet hnot
  cases hstep with
  | run hphase | runFails hphase | call hphase | callFails hphase =>
    exact (hbare (hl.bare (hphase ▸ rfl)) hs.depth_le).elim
  | complete | stop | restart | completeCall | stopCall | restore =>
    exact (hbare (hfits.bare rfl) hdepth).elim
  | turn _ hquiet hok =>
    have hends := hturn (hquiet rfl)
    rw [hok] at hends
    exact hs.next hnested (Machine.Kept.stack hends) hpos hdepth
  | @finish _ v m _ hquiet hok =>
    have hends := hturn (hquiet rfl)
    rw [hok] at hends
    exact absurd (hdepth.trans hends.2) (not_le.2 hpos)
  | halt _ hquiet herr =>
    have hends := hturn (hquiet rfl)
    rw [herr] at hends
    exact hs.unwound hnested hends.1.stack hpos hdepth
  | giveUp | collectGarbage | perform | outside => exact hs

/-- Between any two instructions of any run, whatever the image and the limits are, the
    calls lie one above the other, and there are neither more values nor more calls than
    there may be. From there on, as long as the innermost call has not ended and no other
    state is put in place, the values below its local variables stay as they are. The
    induction is on the steps that are taken. -/
theorem Reachable.calls_apart {bs : Bytes} {settings : MachineSettings} {host : Host}
    (hload : Machine.load bs settings host = .ok base) (hl : Reachable base l) :
    l.machine.stack.Nested settings.stack ∧
      ∀ l', Relation.ReflTransGen (Continues l.machine.stack.depth) l l' →
        l.machine.stack.Intact l'.machine.stack := by
  have hd := Machine.definable_of_load hload
  have hfits := hl.fits hload
  refine ⟨Machine.settings_stack_of_load hload ▸ hfits.kept.stack, fun l' hl' => ?_⟩
  suffices h : l'.Fits base ∧ l.machine.stack.Intact l'.machine.stack from h.2
  induction hl' with
  | refl => exact ⟨hfits, .refl _⟩
  | tail _ hstep ih =>
    exact ⟨hstep.1.fits ih.1 hd, hstep.1.intact ih.1 hd ih.2 hstep.2⟩

/-- An image whose program calls a function with one of the two values on its stack. -/
def caller : Bytes :=
  let program := [Instr.pushInt 7, .pushInt 8, .call 1 21, .retNil].foldl Assembler.emit
    (Assembler.method { maxStack := 2 })
  let function := [Instr.pushInt 9, .setLocal 0, .retNil].foldl Assembler.emit
    (Assembler.method { argc := 1, locals := 1, maxStack := 1 })
  ImageDraft.encode {
    metaclasses := #[("list", [])]
    code := (program.finish ++ function.finish).toArray
    objects := #[⟨1, 0, [0, 0]⟩]
    entry? := some 0 }

/-- The function has pushed a value of its own, above those of the program. -/
theorem calls_apart_calling : ∃ base l l', Machine.load caller {} {} = .ok base ∧
    Reachable base l ∧ Continues l.machine.stack.depth l l' ∧
    l'.machine.stack.values = #[.int 7, .int 8, .nil, .int 9] ∧
    l.machine.stack.Nested {} ∧ l.machine.stack.Intact l'.machine.stack := by
  have hrun : (Machine.load caller {} {}).toOption.any (fun base =>
      (Session.runFor? 4 base).any fun m' => m'.stack.values == #[.int 7, .int 8, .nil, .int 9] &&
        (Session.runFor? 3 base).any fun m => decide (m.stack.depth ≤ m'.stack.depth)) = true := by
    decide +kernel
  obtain ⟨base, hload, hrun⟩ := Machine.exists_load_of_any hrun
  obtain ⟨m', hm', hrun⟩ := (Option.any_eq_true ..).1 hrun
  obtain ⟨hvalues, hrun⟩ := Bool.and_eq_true_iff.1 hrun
  obtain ⟨m, hm, hquiet, hok⟩ := exists_turn_of_runFor? hm'
  rw [hm, Option.any_some, decide_eq_true_eq] at hrun
  have hcalled : Reachable base ⟨.running false, m⟩ := leads_of_runFor? hm
  have hstep : Continues m.stack.depth ⟨.running false, m⟩ ⟨.running false, m'⟩ :=
    ⟨.turn rfl (fun _ => hquiet) hok, hrun⟩
  have hapart := hcalled.calls_apart hload
  exact ⟨base, _, _, hload, hcalled, hstep, eq_of_beq hvalues, hapart.1, hapart.2 _ (.single hstep)⟩

end Life

end StoryMachine
