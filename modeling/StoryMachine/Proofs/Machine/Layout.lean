import StoryMachine.Proofs.Machine.Aside

/-!
# The layout of the stack

The parts of the stack that belong to a call lie one above the other: its arguments,
its local variables and its operands. Those of another call that it has started lie
above all of them. An instruction changes only the operands and the local variables
of the innermost call, or else starts a call on top of them or ends calls.

* `Stack.Nested`: the layout;
* `Stack.Within`: what a call leaves as it was while it goes on;
* `Stack.Opened`, `Stack.left`: a call that has been started, and the end of a call;
* `Frame.Placed`, `Machine.Places`: calls that do not get to before their methods;
* `push_stays`, `popValues_stays`, `callWithArgs_stays`: operands;
* `Machine.Admits`, `enter_calls`: the start of a call.
-/

namespace StoryMachine

/-- What does not change of a call while it goes on. -/
def Frame.shape (f : Frame) : Frame :=
  { f with current := 0, next := 0, self := .nil, definer? := none }

/-- A call has not got to before its method. -/
structure Frame.Placed (f : Frame) : Prop where
  /-- The instruction that is being executed is not before it, -/
  current : f.method ≤ f.current
  /-- nor is the next one. -/
  next : f.method ≤ f.next

/-- Where code has to end so that sixteen bits can be added to the place of any header in
    it. -/
def codeLimit : Nat := UInt32.size - UInt16.size + MethodHeader.size

section Offsets

variable {code : Pool} {ofs : UInt32}

/-- What is kept can be passed without wrapping around. -/
theorem Pool.Shows.lt {n : Nat} (hshown : code.Shows ofs n) (hends : code.EndsBy codeLimit) :
    ofs.toNat + n < UInt32.size :=
  (hshown.le hends).trans_lt (by decide)

/-- Sixteen bits can be added to the place of a header. -/
theorem Pool.Shows.add_lt (hshown : code.Shows ofs MethodHeader.size)
    (hends : code.EndsBy codeLimit) (n : UInt16) : ofs.toNat + n.toNat < UInt32.size := by
  have hle := hshown.le hends
  have hlt := n.toNat_lt_size
  simp only [codeLimit, MethodHeader.size, UInt32.size, UInt16.size] at *
  omega

theorem UInt32.le_add_of_lt {n : UInt32} (hlt : ofs.toNat + n.toNat < UInt32.size) :
    ofs ≤ ofs + n := by
  rw [UInt32.le_iff_toNat_le, UInt32.toNat_add, Nat.mod_eq_of_lt hlt]
  exact Nat.le_add_right _ _

end Offsets

namespace Stack

/-- Calls lie one above the other, within the limits. -/
structure Nested (limits : StackSettings) (s : Stack) : Prop where
  /-- The limits of the stack are these. -/
  settings : s.settings = limits
  /-- The arguments of a call end where its local variables start. -/
  args : ∀ f ∈ s.frames, f.argBase + f.argc = f.localBase
  /-- The local variables end where the operands start. -/
  locals : ∀ f ∈ s.frames, f.localBase + f.header.locals.toNat = f.stackBase
  /-- The arguments of a call are on top of what belongs to the calls around it. -/
  nested : s.frames.Pairwise fun inner outer => outer.stackBase ≤ inner.argBase
  /-- The local variables of the innermost call are there. -/
  floor_le : s.floor ≤ s.size
  /-- There are no more values than there can be. -/
  size_le : s.size ≤ limits.stackSize
  /-- There are no more calls than there can be. -/
  depth_le : s.depth ≤ limits.maxFrames

/-- Where the local variables of the innermost call start. What is below belongs to
    the calls around it, or is among its arguments. -/
def localsAt (s : Stack) : Nat := (s.frame?.map Frame.localBase).getD 0

/-- The calls are still the same, and so are the values below place `b`, as far as they
    are not operands of the innermost one. -/
structure Within (b : Nat) (s t : Stack) : Prop where
  /-- The limits are the same. -/
  settings : t.settings = s.settings
  /-- The calls are the same. -/
  shapes : t.frames.map Frame.shape = s.frames.map Frame.shape
  /-- The values below are the same. -/
  below : ∀ i < b, i < s.floor → t.values[i]? = s.values[i]?
  /-- The local variables of the innermost call are still there. -/
  floor_le : s.floor ≤ t.size
  /-- There are no more values than there can be. -/
  size_le : t.size ≤ s.settings.stackSize

/-- The stack once the innermost call has ended. -/
def left (s : Stack) : Stack :=
  match s.frame? with
  | none => s
  | some f => s.popFrame.truncate f.argBase

/-- The stack once a call has started. -/
def call (s : Stack) (f : Frame) : Stack :=
  { s.putLocals f.header.locals.toNat with frames := f :: s.frames }

/-- There is room for a call, the arguments of which are the top operands. -/
structure Admits (s : Stack) (f : Frame) : Prop where
  /-- The arguments are operands. -/
  floor_le : s.floor ≤ f.argBase
  /-- The arguments are the top ones. -/
  args : f.argBase + f.argc = f.localBase
  /-- The local variables come on top of them. -/
  start : f.localBase = s.size
  /-- After them there is room for operands. -/
  locals : f.localBase + f.header.locals.toNat = f.stackBase
  /-- There may be as many values. -/
  size_le : f.stackBase ≤ s.settings.stackSize
  /-- There may be one more call. -/
  depth_lt : s.depth < s.settings.maxFrames

/-- A call has been started. -/
def Opened (b : Nat) (s t : Stack) : Prop :=
  ∃ u f, s.Within b u ∧ u.Admits f ∧ t = u.call f

/-- The innermost call goes on, or it has started another one. -/
def Goes (b : Nat) (s t : Stack) : Prop := s.Within b t ∨ s.Opened b t

variable {limits : StackSettings} {s t u : Stack} {b n : Nat} {v : Value} {f g : Frame}

theorem getElem?_truncate (s : Stack) (n i : Nat) :
    (s.truncate n).values[i]? = if i < n then s.values[i]? else none := by
  rw [truncate, ← Array.getElem?_toList, ← Array.getElem?_toList]
  simp [List.getElem?_take]

theorem size_truncate (s : Stack) (n : Nat) : (s.truncate n).size = min n s.size := by
  rw [size, truncate, Array.size_shrink, size]

/-! ## Nested calls -/

theorem Nested.localsAt_le_floor (hs : s.Nested limits) : s.localsAt ≤ s.floor := by
  unfold localsAt floor
  cases hf : s.frame? with
  | none => exact le_rfl
  | some f => exact le_of_add_le_left (hs.locals f (List.mem_of_mem_head? hf)).le

theorem left_of_cons {fs : List Frame} (hframes : s.frames = f :: fs) :
    s.left = { s with values := s.values.shrink f.argBase, frames := fs } := by
  simp only [left, frame?, hframes, List.head?_cons, popFrame, truncate, List.tail_cons]

theorem left_of_nil (hframes : s.frames = []) : s.left = s := by
  simp only [left, frame?, hframes, List.head?_nil]

theorem frames_left (s : Stack) : s.left.frames = s.frames.tail := by
  cases hframes : s.frames with
  | nil => rw [left_of_nil hframes, hframes, List.tail_nil]
  | cons f fs => rw [left_of_cons hframes, List.tail_cons]

theorem depth_left (s : Stack) : s.left.depth = s.depth - 1 := by
  rw [depth, frames_left, List.length_tail, depth]

theorem settings_left (s : Stack) : s.left.settings = s.settings := by
  unfold left
  split
  · rfl
  · rfl

/-- What is left is below the arguments of the call that has ended. -/
theorem Nested.floor_left_le (hs : s.Nested limits) (hf : s.frame? = some f) :
    s.left.floor ≤ f.argBase := by
  obtain ⟨fs, hframes⟩ := List.head?_eq_some_iff.1 hf
  have hnested := hs.nested
  rw [hframes, List.pairwise_cons] at hnested
  rw [left_of_cons hframes, floor, frame?]
  cases fs with
  | nil => exact Nat.zero_le _
  | cons g fs => exact hnested.1 g List.mem_cons_self

theorem Nested.argBase_le_floor (hs : s.Nested limits) (hf : s.frame? = some f) :
    f.argBase ≤ s.floor := by
  have hmem := List.mem_of_mem_head? hf
  have hargs := hs.args f hmem
  have hlocals := hs.locals f hmem
  rw [floor, hf, Option.map_some, Option.getD_some]
  omega

theorem Nested.floor_left_le_floor (hs : s.Nested limits) : s.left.floor ≤ s.floor := by
  cases hf : s.frame? with
  | none => rw [left, hf]
  | some f => exact (hs.floor_left_le hf).trans (hs.argBase_le_floor hf)

theorem Nested.argBase_le_size (hs : s.Nested limits) (hf : s.frame? = some f) : f.argBase ≤ s.size :=
  (hs.argBase_le_floor hf).trans hs.floor_le

theorem Nested.size_left (hs : s.Nested limits) (hf : s.frame? = some f) : s.left.size = f.argBase := by
  rw [left, hf]
  dsimp only
  rw [size_truncate]
  exact min_eq_left (hs.argBase_le_size hf)

theorem Nested.left (hs : s.Nested limits) : s.left.Nested limits := by
  cases hf : s.frame? with
  | none =>
    rw [left_of_nil (List.head?_eq_none_iff.1 hf)]
    exact hs
  | some f =>
    have htail : ∀ g ∈ s.left.frames, g ∈ s.frames := fun g hg => by
      rw [frames_left] at hg
      exact List.mem_of_mem_tail hg
    refine ⟨s.settings_left.trans hs.settings, fun g hg => hs.args g (htail g hg),
      fun g hg => hs.locals g (htail g hg), ?_, ?_, ?_, ?_⟩
    · rw [frames_left]
      exact hs.nested.sublist (List.tail_sublist _)
    · rw [hs.size_left hf]
      exact hs.floor_left_le hf
    · rw [hs.size_left hf]
      exact (hs.argBase_le_size hf).trans hs.size_le
    · rw [depth, frames_left, List.length_tail]
      exact (Nat.sub_le _ _).trans hs.depth_le

theorem frames_iterate_left (s : Stack) (n : Nat) : (left^[n] s).frames = s.frames.drop n := by
  induction n generalizing s with
  | zero => rfl
  | succ n ih => rw [Function.iterate_succ_apply, ih, frames_left, List.drop_tail]

theorem Nested.iterate_left (hs : s.Nested limits) (n : Nat) : (Stack.left^[n] s).Nested limits := by
  induction n generalizing s with
  | zero => exact hs
  | succ n ih => exact ih hs.left

theorem bottom_iterate_left_le (s : Stack) (n : Nat) : (left^[n] s).bottom ≤ s.bottom := by
  induction n generalizing s with
  | zero => exact le_rfl
  | succ n ih =>
    refine (ih s.left).trans ?_
    unfold left
    split
    · exact le_rfl
    · next hf => exact bottom_truncate_popFrame hf

theorem Nested.call (hs : s.Nested limits) (hf : s.Admits f) : (s.call f).Nested limits := by
  have hsize : (s.call f).size = f.stackBase := by
    simp [size, Stack.call, putLocals, ← hf.locals, hf.start]
  refine ⟨hs.settings, ?_, ?_, ?_, ?_, ?_, ?_⟩
  · exact List.forall_mem_cons.2 ⟨hf.args, hs.args⟩
  · exact List.forall_mem_cons.2 ⟨hf.locals, hs.locals⟩
  · -- All other calls lie below the innermost of them.
    refine List.pairwise_cons.2 ⟨fun g hg => ?_, hs.nested⟩
    refine le_trans ?_ hf.floor_le
    have hnested := hs.nested
    have hargs := hs.args
    have hlocals := hs.locals
    rw [floor, frame?]
    cases hframes : s.frames with
    | nil =>
      rw [hframes] at hg
      cases hg
    | cons g' fs =>
      rw [hframes] at hg hnested hargs hlocals
      rcases List.mem_cons.1 hg with rfl | hg
      · exact le_rfl
      · have hle := (List.pairwise_cons.1 hnested).1 g hg
        have hargs' := hargs g' List.mem_cons_self
        have hlocals' := hlocals g' List.mem_cons_self
        simp only [List.head?_cons, Option.map_some, Option.getD_some]
        omega
  · exact hsize.ge
  · rw [hsize, ← hs.settings]
    exact hf.size_le
  · rw [← hs.settings]
    exact hf.depth_lt

/-! ## A call that goes on -/

namespace Within

theorem of_le (hfloor : s.floor ≤ s.size) (hsize : s.size ≤ s.settings.stackSize) (b : Nat) :
    s.Within b s :=
  ⟨rfl, rfl, fun _ _ _ => rfl, hfloor, hsize⟩

theorem refl (hs : s.Nested limits) (b : Nat) : s.Within b s :=
  of_le hs.floor_le (hs.settings ▸ hs.size_le) b

theorem map_frames {α : Type} (hw : s.Within b t) (p : Frame → α) (hp : ∀ f, p f.shape = p f) :
    t.frames.map p = s.frames.map p := by
  have hshape : p ∘ Frame.shape = p := funext hp
  rw [← hshape, ← List.map_map, hw.shapes, List.map_map]

theorem map_frame? {α : Type} (hw : s.Within b t) (p : Frame → α) (hp : ∀ f, p f.shape = p f) :
    t.frame?.map p = s.frame?.map p := by
  rw [frame?, frame?, ← List.head?_map, ← List.head?_map, hw.map_frames p hp]

theorem depth (hw : s.Within b t) : t.depth = s.depth := by
  simpa [Stack.depth] using congrArg List.length hw.shapes

theorem floor (hw : s.Within b t) : t.floor = s.floor := by
  rw [Stack.floor, Stack.floor, hw.map_frame? _ fun _ => rfl]

theorem localsAt (hw : s.Within b t) : t.localsAt = s.localsAt := by
  rw [Stack.localsAt, Stack.localsAt, hw.map_frame? _ fun _ => rfl]

theorem trans (hw : s.Within b t) (hu : t.Within b u) : s.Within b u where
  settings := hu.settings.trans hw.settings
  shapes := hu.shapes.trans hw.shapes
  below i hi hfloor := (hu.below i hi (hw.floor.symm ▸ hfloor)).trans (hw.below i hi hfloor)
  floor_le := hw.floor ▸ hu.floor_le
  size_le := hw.settings ▸ hu.size_le

theorem nested (hw : s.Within b t) (hs : s.Nested limits) : t.Nested limits where
  settings := hw.settings.trans hs.settings
  args f hf := by
    have hmem : f.shape ∈ s.frames.map Frame.shape := hw.shapes ▸ List.mem_map_of_mem hf
    obtain ⟨g, hg, hshape⟩ := List.mem_map.1 hmem
    have hargs := hs.args g hg
    change g.shape.argBase + g.shape.argc = g.shape.localBase at hargs
    rwa [hshape] at hargs
  locals f hf := by
    have hmem : f.shape ∈ s.frames.map Frame.shape := hw.shapes ▸ List.mem_map_of_mem hf
    obtain ⟨g, hg, hshape⟩ := List.mem_map.1 hmem
    have hlocals := hs.locals g hg
    change g.shape.localBase + g.shape.header.locals.toNat = g.shape.stackBase at hlocals
    rwa [hshape] at hlocals
  nested := by
    let R (inner outer : Frame) := outer.stackBase ≤ inner.argBase
    have hnested : (s.frames.map Frame.shape).Pairwise R := List.pairwise_map.2 hs.nested
    rw [← hw.shapes] at hnested
    exact List.pairwise_map.1 hnested
  floor_le := by
    rw [hw.floor]
    exact hw.floor_le
  size_le := hs.settings ▸ hw.size_le
  depth_le := hw.depth.trans_le hs.depth_le

theorem put (hw : s.Within b t) (hroom : t.hasRoom = true) (v : Value) :
    s.Within b (t.put v) where
  settings := hw.settings
  shapes := hw.shapes
  below i hi hfloor := by
    have hlt : i < t.values.size := hfloor.trans_le hw.floor_le
    rw [← hw.below i hi hfloor, Stack.put, Array.getElem?_push_lt hlt, Array.getElem?_eq_getElem hlt]
  floor_le := by
    rw [size, Stack.put, Array.size_push]
    exact hw.floor_le.trans (Nat.le_succ _)
  size_le := by
    rw [size, Stack.put, Array.size_push, ← hw.settings]
    simpa [hasRoom, Nat.succ_le_iff] using hroom

theorem truncate (hw : s.Within b t) (hn : s.floor ≤ n) : s.Within b (t.truncate n) where
  settings := hw.settings
  shapes := hw.shapes
  below i hi hfloor := by
    rw [getElem?_truncate, if_pos (hfloor.trans_le hn), hw.below i hi hfloor]
  floor_le := by
    rw [size_truncate]
    exact le_min hn hw.floor_le
  size_le := by
    rw [size_truncate]
    exact (min_le_right _ _).trans hw.size_le

theorem set {i : Nat} (hw : s.Within b t) (hi : b ≤ i) (v : Value) : s.Within b (t.set i v) where
  settings := hw.settings
  shapes := hw.shapes
  below j hj hfloor := by
    rw [Stack.set, Array.getElem?_setIfInBounds_ne (hj.trans_le hi).ne', hw.below j hj hfloor]
  floor_le := by simpa [size, Stack.set] using hw.floor_le
  size_le := by simpa [size, Stack.set] using hw.size_le

theorem modifyFrame {g : Frame → Frame} (hw : s.Within b t) (hg : ∀ f, (g f).shape = f.shape) :
    s.Within b (t.modifyFrame g) := by
  unfold Stack.modifyFrame
  split
  · exact hw
  · next frame rest hframes =>
    refine ⟨hw.settings, ?_, hw.below, hw.floor_le, hw.size_le⟩
    rw [List.map_cons, hg, ← List.map_cons, ← hframes, hw.shapes]

/-- Another state changes values, but not where they are. -/
theorem scrub (hw : s.Within 0 t) (h : Heap) : s.Within 0 (t.scrub h) where
  settings := hw.settings
  shapes := by
    rw [Stack.scrub, List.map_map, ← hw.shapes]
    rfl
  below i hi := absurd hi (Nat.not_lt_zero i)
  floor_le := by simpa [size, Stack.scrub] using hw.floor_le
  size_le := by simpa [size, Stack.scrub] using hw.size_le

theorem left (hw : s.Within b t) (hs : s.Nested limits) : s.left.Within b t.left := by
  cases hframes : s.frames with
  | nil =>
    have hframes' : t.frames = [] := by simpa [hframes] using hw.shapes
    rw [left_of_nil hframes, left_of_nil hframes']
    exact hw
  | cons f fs =>
    have hf : s.frame? = some f := by rw [frame?, hframes, List.head?_cons]
    obtain ⟨f', hf', hshape⟩ : ∃ f', t.frame? = some f' ∧ f'.argBase = f.argBase := by
      have hmap := hw.map_frame? Frame.argBase fun _ => rfl
      rw [hf, Option.map_some] at hmap
      exact Option.map_eq_some_iff.1 hmap
    have hsize : t.left.size = f.argBase := by rw [(hw.nested hs).size_left hf', hshape]
    have hfloor : s.left.floor ≤ s.floor := hs.floor_left_le_floor
    refine ⟨?_, ?_, fun i hi hlt => ?_, ?_, ?_⟩
    · rw [settings_left, settings_left, hw.settings]
    · rw [frames_left, frames_left, List.map_tail, List.map_tail, hw.shapes]
    · rw [Stack.left, Stack.left, hf, hf']
      dsimp only
      rw [getElem?_truncate, getElem?_truncate, hshape]
      exact ite_congr rfl (fun _ => hw.below i hi (hlt.trans_le hfloor)) fun _ => rfl
    · rw [hsize]
      exact hs.floor_left_le hf
    · rw [hsize, settings_left, hs.settings]
      exact (hs.argBase_le_size hf).trans hs.size_le

end Within

theorem Goes.nested (hg : s.Goes b t) (hs : s.Nested limits) : t.Nested limits := by
  rcases hg with hw | ⟨u, f, hw, hf, rfl⟩
  · exact hw.nested hs
  · exact (hw.nested hs).call hf

end Stack

namespace Machine

variable {α β : Type} {base : Machine} {S T : Stack → Prop} {I J : Machine → Prop} {s : Stack} {b : Nat}
  {m m' : Machine} {x : MachineM α} {f : α → MachineM β} {P : α → Prop} {v : Value}

theorem Kept.mono (hm : m.Kept base S) (hT : ∀ t, S t → T t) : m.Kept base T :=
  ⟨hm.same, hT _ hm.stack, hm.classed⟩

theorem Kept.withStack (hm : m.Kept base S) {t : Stack} (ht : T t) :
    Kept { m with stack := t } base T :=
  ⟨hm.same, ht, hm.classed⟩

/-- A part that looks at the machine, and whose result says something. -/
theorem Stays.peek [Lasting base I] (hx : ∀ m : Machine, I m → m.Peeks x P)
    (hf : ∀ a, P a → Stays I (f a)) : Stays I (x >>= f) := fun m hm =>
  (hx m hm m (.refl m)).bind (fun a _ ha => hf a ha.2 _ (Lasting.peeked hm ha.1))
    fun _ _ he => Lasting.peeked hm he.1

/-! ## What is read of calls -/

section Lasting

variable [hI : Lasting base I]

include hI

theorem currentFrame_stays : Stays I currentFrame := .of_peeks fun _ => currentFrame_peeks

theorem readHeader_stays (ofs : UInt32) : Stays I (readHeader ofs) :=
  .of_peeks fun _ => readHeader_peeks ofs

theorem ownedSelf_stays : Stays I ownedSelf := currentFrame_stays.bind fun _ => owned_stays _

end Lasting

/-! ## Operands -/

/-- If code ends early enough and no call of the machine has got to before its method, then none
    has on the other stack. -/
def Places (m : Machine) (t : Stack) : Prop := m.pools.code.EndsBy codeLimit →
  (∀ f ∈ m.stack.frames, m.pools.code.Shows f.method MethodHeader.size) →
  (∀ f ∈ m.stack.frames, f.Placed) → ∀ f ∈ t.frames, f.Placed

theorem Places.of_frames {t : Stack} (ht : t.frames = m.stack.frames) : m.Places t :=
  fun _ _ hplaced f hf => hplaced f (ht ▸ hf)

theorem Places.modifyFrame {g : Frame} {h : Frame → Frame} (hg : m.stack.frame? = some g)
    (hh : m.pools.code.EndsBy codeLimit → m.pools.code.Shows g.method MethodHeader.size → g.Placed →
      (h g).Placed) : m.Places (m.stack.modifyFrame h) := by
  intro hends hshown hplaced
  obtain ⟨fs, hframes⟩ := List.head?_eq_some_iff.1 hg
  rw [hframes] at hshown hplaced
  rw [Stack.modifyFrame, hframes]
  obtain ⟨hplaced, hrest⟩ := List.forall_mem_cons.1 hplaced
  exact List.forall_mem_cons.2 ⟨hh hends (hshown g List.mem_cons_self) hplaced, hrest⟩

/-- A property that does not depend on the operands of the innermost call, nor on its local
    variables from place `b` on. -/
class Confined (base : outParam Machine) (b : outParam Nat) (I : Machine → Prop) : Prop
    extends Lasting base I where
  /-- The local variables of the innermost call are there. -/
  floor_le {m : Machine} : I m → m.stack.floor ≤ m.stack.size
  /-- There are no more values than there can be. -/
  size_le {m : Machine} : I m → m.stack.size ≤ m.stack.settings.stackSize
  /-- Only the calls matter, and what is below. -/
  within {m : Machine} {t : Stack} :
    I m → m.stack.Within b t → m.Places t → I { m with stack := t }

instance : Confined base b fun m => m.Kept base (s.Within b) where
  floor_le hm := hm.stack.floor.trans_le hm.stack.floor_le
  size_le hm := hm.stack.settings.symm ▸ hm.stack.size_le
  within hm ht _ := ⟨hm.same, hm.stack.trans ht, hm.classed⟩

section Confined

variable [hI : Confined base b I]

include hI

theorem Confined.refl (hm : I m) : m.stack.Within b m.stack :=
  .of_le (hI.floor_le hm) (hI.size_le hm) b

theorem push_stays (v : Value) : Stays I (push v) := fun m hm => by
  refine Ends.get ?_
  split
  · next hroom => exact hI.within hm ((hI.refl hm).put hroom v) (.of_frames rfl)
  · exact ((releaseValue_stays v).bind fun _ => .fail _) m hm

theorem pushAfter_stays {x : MachineM Value} (hx : Stays I x) : Stays I (x >>= fun v => push v) :=
  hx.bind fun v => push_stays v

theorem pop_stays : Stays I pop := fun m hm => by
  refine Ends.get ?_
  unfold Stack.peek
  split
  · exact hm
  · next hroom =>
    split
    · exact hm
    · refine hI.within hm ((hI.refl hm).truncate ?_) (.of_frames rfl)
      rw [Stack.size]
      omega

theorem popValues_stays (n : Nat) : Stays I (popValues n) := fun m hm => by
  refine Ends.get ?_
  unfold Stack.top
  split
  · exact hm
  · next hroom =>
    refine hI.within hm ((hI.refl hm).truncate ?_) (.of_frames rfl)
    have hle := hI.floor_le hm
    rw [Stack.size] at *
    omega

theorem popTwo_stays : Stays I popTwo := by
  refine (popValues_stays 2).bind fun vs => ?_
  split
  · exact .pure _
  · exact .fail _

theorem onOperands_stays {f : Value → Value → MachineM Value} (hf : ∀ v w, Stays I (f v w)) :
    Stays I (onOperands f) :=
  popTwo_stays.bind fun _ => pushAfter_stays ((hf _ _).andAfter (releaseValues_stays _))

theorem callWithArgs_stays (argc : Nat) {f : List Value → MachineM Value}
    (hf : ∀ args, Stays I (f args)) : Stays I (callWithArgs argc f) :=
  .get fun _ _ => (Stays.liftExcept _).bind fun args => pushAfter_stays ((hf args).andAfter
    ((popValues_stays argc).bind fun _ => releaseValues_stays _))

/-- The innermost call goes on somewhere else in its method. -/
theorem modifyFrame_ends {g : Frame} {h : Frame → Frame} (hm : I m) (hg : m.stack.frame? = some g)
    (hshape : ∀ f, (h f).shape = f.shape)
    (hplaced : m.pools.code.EndsBy codeLimit → m.pools.code.Shows g.method MethodHeader.size →
      g.Placed → (h g).Placed) :
    Ends (modifyFrame h m) (fun _ m' => I m') fun _ m' => I m' :=
  hI.within hm ((hI.refl hm).modifyFrame hshape) (.modifyFrame hg hplaced)

end Confined

/-! ## Calls that start -/

/-- A call can be started: there is room for it, and its code is there. -/
structure Admits (m : Machine) (f : Frame) : Prop where
  /-- The arguments are the top operands, and there is room for local variables. -/
  room : m.stack.Admits f
  /-- The header of the method is kept. -/
  shown : m.pools.code.Shows f.method MethodHeader.size
  /-- If code ends early enough, then the call starts behind its header. -/
  placed : m.pools.code.EndsBy codeLimit → f.Placed

/-- A header that has been read is kept. -/
theorem readHeader_shows [Lasting base I] (ofs : UInt32) (hm : I m) : Ends (readHeader ofs m)
    (fun _ m' => I m' ∧ m'.pools.code.Shows ofs MethodHeader.size) fun _ m' => I m' := by
  have hread : I { m with pools := (m.pools.readCode ofs MethodHeader.size).2 } :=
    Lasting.peeked hm ⟨_, m.pools.later_readCode _ _, rfl⟩
  cases hbs : (m.pools.readCode ofs MethodHeader.size).1 with
  | error e => exact Ends.bind_error (onPools_error hbs) hread
  | ok bs =>
    refine Ends.bind_ok (onPools_ok hbs) ?_
    cases MethodHeader.parse bs with
    | error e => exact hread
    | ok header => exact ⟨hread, Pool.shows_of_readCode hbs⟩

/-- A call that starts finds room for its local variables, and its arguments among the
    operands of the call around it. Its code is kept from then on. -/
theorem enter_calls [Lasting base I] {method : UInt32} {argc : Nat} {self : Value}
    {definer? : Option ObjectId} {target? : Option PropId}
    (hfloor : ∀ m : Machine, I m → m.stack.floor ≤ m.stack.size)
    (hcall : ∀ (m : Machine) (f : Frame), I m → m.Admits f → f.argc = argc → J { m with
      stack := m.stack.call f
      pools := { m.pools with code := m.pools.code.pin f.method } }) (hm : I m) :
    Ends (enter method argc self definer? target? m) (fun _ m' => J m') fun _ m' => I m' := by
  refine Ends.onFault (E := fun _ m' => I m') ?_ fun e m' he =>
    ⟨_, rfl, Lasting.withHeap he fun hc => hc.ages (.releaseValues _ _)⟩
  refine (readHeader_shows method hm).bind (fun header m' ⟨hm', hshown⟩ => ?_) fun _ _ he => he
  refine Ends.get ?_
  dsimp only
  split
  · exact hm'
  next hargs =>
    refine Ends.get (Ends.get ?_)
    split
    · exact hm'
    next hroom =>
      refine Ends.get (Ends.get ?_)
      split
      · exact hm'
      next hdepth =>
        let frame : Frame :=
          { method, header, self, definer?, target?, argc
            current := method
            next := method + m'.image.entry.headerSize.toUInt32
            argBase := m'.stack.size - argc
            localBase := m'.stack.size
            stackBase := m'.stack.size + header.locals.toNat }
        have hfloor := hfloor m' hm'
        have hroomy : argc ≤ m'.stack.size - m'.stack.floor := by
          by_contra hnot
          simp [Stack.hasArgs, hnot] at hargs
        have hadmits : m'.stack.Admits frame :=
          ⟨by dsimp only [frame]; omega, by dsimp only [frame]; omega, rfl, rfl, not_lt.1 hroom,
            not_le.1 hdepth⟩
        have hplaced (hends : m'.pools.code.EndsBy codeLimit) : frame.Placed := by
          refine ⟨UInt32.le_refl method, UInt32.le_add_of_lt ?_⟩
          rw [UInt16.toNat_toUInt32]
          exact hshown.add_lt hends _
        exact Ends.get (Ends.bind_ok rfl (hcall m' frame hm' ⟨hadmits, hshown, hplaced⟩ rfl))

/-- The stack with the call that has been started. -/
theorem Kept.enter_calls {method : UInt32} {argc : Nat} {self : Value} {definer? : Option ObjectId}
    {target? : Option PropId} (hm : m.Kept base S) (hS : ∀ t, S t → t.floor ≤ t.size) :
    Ends (enter method argc self definer? target? m)
      (fun _ m' => m'.Kept base fun t => ∃ u f, S u ∧ u.Admits f ∧ f.argc = argc ∧ t = u.call f)
      fun _ m' => m'.Kept base S :=
  Machine.enter_calls (I := (·.Kept base S)) (fun _ hm => hS _ hm.stack)
    (fun _ f hm hf hargc => ⟨hm.same, ⟨_, f, hm.stack, hf.room, hargc, rfl⟩, hm.classed⟩) hm

/-- The second property is true once an instruction has gone on with the innermost call or
    started another one. -/
class Calling (base : outParam Machine) (b : outParam Nat) (I : Machine → Prop)
    (J : outParam (Machine → Prop)) : Prop extends Confined base b I where
  /-- The innermost call goes on. -/
  goes {m : Machine} : I m → J m
  /-- Another one has been started. -/
  calls {m : Machine} {f : Frame} : I m → m.Admits f → J { m with
    stack := m.stack.call f
    pools := { m.pools with code := m.pools.code.pin f.method } }

instance : Calling base b (fun m => m.Kept base (s.Within b)) fun m => m.Kept base (s.Goes b) where
  goes hm := hm.mono fun _ ht => .inl ht
  calls hm hf := ⟨hm.same, .inr ⟨_, _, hm.stack, hf.room, rfl⟩, hm.classed⟩

/-- The part goes on with the innermost call or starts another one. -/
def Moves (I J : Machine → Prop) (x : MachineM α) : Prop :=
  ∀ m : Machine, I m → Ends (x m) (fun _ m' => J m') fun _ m' => I m'

theorem Stays.bindMoves (hx : Stays I x) (hf : ∀ a, Moves I J (f a)) : Moves I J (x >>= f) :=
  fun m hm => (hx m hm).bind (fun a m' hm' => hf a m' hm') fun _ _ he => he

theorem Moves.get {f : Machine → MachineM β} (hf : ∀ m : Machine, I m → Moves I J (f m)) :
    Moves I J (get >>= f) := fun m hm => hf m hm m hm

theorem Stays.moves [hI : Calling base b I J] (hx : Stays I x) : Moves I J x := fun m hm =>
  (hx m hm).mono (fun _ _ hm' => hI.goes hm') fun _ _ he => he

theorem enter_moves [hI : Calling base b I J] {method : UInt32} {argc : Nat} {self : Value}
    {definer? : Option ObjectId} {target? : Option PropId} :
    Moves I J (enter method argc self definer? target?) := fun _ hm =>
  enter_calls (fun _ hm => hI.floor_le hm) (fun _ _ hm hf _ => hI.calls hm hf) hm

end Machine

end StoryMachine
