import StoryMachine.Proofs.Machine.Intrinsics

/-!
# Operands and calls

What is taken off the stack comes into the machine's hands, and what is put on
leaves them. A call takes over its receiver and its definer, and lets go of them
with its operands when it ends.

* `Machine.Acts`: parts that leave nothing in the machine's hands;
* `push_acts`, `pop_ends`, `popValues_ends`: operands;
* `onOperands_acts`, `callWithArgs_acts`: operations on operands;
* `enter_acts`, `leave_eq_ok`: calls.
-/

namespace StoryMachine

theorem Heap.SameObjects.of_eq {M N : Multiset Value} (h : M = N) : SameObjects M N :=
  fun _ => by rw [h]

/-- The number of values below the outermost call, or of all if there is no call. -/
def Stack.bottom (s : Stack) : Nat := s.base?.getD s.values.size

theorem Stack.bottom_truncate_popFrame {s : Stack} {f : Frame} (hf : s.frame? = some f) :
    (s.popFrame.truncate f.argBase).bottom ≤ s.bottom := by
  obtain ⟨frames, hframes⟩ := List.head?_eq_some_iff.1 hf
  simp only [bottom, base?, popFrame, truncate, hframes, List.tail_cons]
  cases frames with
  | nil => simp
  | cons g frames => simp [List.getLast?_cons]

namespace Machine

variable {α β : Type} {terms : Terms} {m m' : Machine} {held rest : Multiset Value} {v : Value} {vs : List Value}
  {x : MachineM α} {f : α → MachineM β} {P : α → Prop}

/-! ## Parts that leave nothing in the machine's hands -/

/-- The part has ended with a fault. Counts are lost only if there was no
    memory. -/
def Stopped (terms : Terms) (rest : Multiset Value) (e : Fault) (m : Machine) : Prop :=
  e.Plain ∧ (e.isMemory = true ∨ m.Sound terms rest)

/-- The part has ended with a fault, and no counts are lost. -/
def Refused (terms : Terms) (rest : Multiset Value) (e : Fault) (m : Machine) : Prop :=
  e.Plain ∧ m.Sound terms rest

theorem Refused.stopped {e : Fault} (hr : Refused terms rest e m) : Stopped terms rest e m :=
  ⟨hr.1, .inr hr.2⟩

/-- Once the part has ended, only `rest` is in the machine's hands. -/
def Acts (m : Machine) (terms : Terms) (rest : Multiset Value) (x : MachineM α) : Prop :=
  Ends (x m) (fun _ m' => m'.Sound terms rest) (Stopped terms rest)

theorem Acts.fail (hm : m.Sound terms rest) (e : Failure) :
    m.Acts terms rest (StoryMachine.fail e : MachineM α) := ⟨trivial, .inr hm⟩

theorem Acts.get {f : Machine → MachineM β} (hf : m.Acts terms rest (f m)) :
    m.Acts terms rest (MonadState.get >>= f) := hf

theorem Acts.bind (hx : m.Acts terms rest x) (hf : ∀ a (m' : Machine), m'.Sound terms rest → m'.Acts terms rest (f a)) :
    m.Acts terms rest (x >>= f) :=
  Ends.bind hx hf fun _ _ he => he

theorem Acts.peek (hm : m.Sound terms rest) (hx : m.Peeks x P)
    (hf : ∀ a m', m.Peeked m' → P a → m'.Acts terms rest (f a)) : m.Acts terms rest (x >>= f) :=
  (hx m (.refl m)).bind (fun a m' ha => hf a m' ha.1 ha.2) fun _ _ he =>
    ⟨he.2, .inr (hm.peeked he.1)⟩

theorem Acts.yield {x : MachineM Value} {f : Value → MachineM β} (hx : m.Yields terms rest x)
    (hf : ∀ v m', m.Beside m' → m'.Sound terms ({v} + rest) → m'.Acts terms rest (f v)) :
    m.Acts terms rest (x >>= f) :=
  (hx m (.refl m)).bind (fun v m' hg => hf v m' hg.1 hg.2) fun _ _ he => he.2

theorem Stopped.releaseValues {e : Fault} (hs : Stopped terms (vs + rest) e m) :
    Stopped terms rest e { m with heap := m.heap.releaseValues vs } :=
  ⟨hs.1, hs.2.imp_right Sound.releaseValues⟩

theorem Stopped.releaseValue {e : Fault} (hs : Stopped terms ({v} + rest) e m) :
    Stopped terms rest e { m with heap := m.heap.releaseValue v } :=
  ⟨hs.1, hs.2.imp_right Sound.releaseValue⟩

theorem Stopped.of_peeked (hm : m.Sound terms rest) {e : Fault} (hp : m.Peeked m') (he : e.Plain) :
    Stopped terms rest e m' :=
  ⟨he, .inr (hm.peeked hp)⟩

/-- Values move between places and hands. -/
theorem Sound.rearrange (hm : m.Sound terms held) (himage : m'.image = m.image)
    (hheap : m'.heap = m.heap)
    (hfits : m'.stack.values.size ≤ m'.stack.settings.stackSize)
    (hframes : ∀ f ∈ m'.stack.frames, f.localBase + f.header.locals.toNat = f.stackBase)
    (hbased : ∀ b ∈ terms.base?, m'.stack.base? = some b)
    (hsum : Heap.SameObjects (m.placed + held) (m'.placed + rest)) : m'.Sound terms rest where
  ready := himage ▸ hm.ready
  defined := by
    rw [himage, hheap]
    exact hm.defined
  fits := hfits
  laidOut := hframes
  based := hbased
  named := by
    rw [hheap]
    exact hm.named
  counted := by
    rw [hheap]
    exact hm.counted.congr hsum

/-! ## Operands -/

theorem placed_eq (m : Machine) : m.placed = (m.stack.values.toList : Multiset Value) +
    (m.stack.frames.reverse.flatMap Frame.held : List Value) + m.globals.toList + {m.result} := by
  rw [placed, Stack.held]
  simp only [← Multiset.coe_add]

theorem Sound.put (hm : m.Sound terms ({v} + rest)) (hroom : m.stack.hasRoom = true) :
    Sound { m with stack := m.stack.put v } terms rest := by
  have hfits : (m.stack.values.push v).size ≤ m.stack.settings.stackSize := by
    simpa [Stack.hasRoom, Nat.succ_le_iff] using hroom
  refine hm.rearrange rfl rfl hfits hm.laidOut hm.based (.of_eq ?_)
  rw [placed_eq, placed_eq]
  simp only [Stack.put, Array.toList_push, ← Multiset.coe_add, Multiset.coe_singleton]
  abel

theorem above_eq_drop (s : Stack) (n : Nat) : s.above n = s.values.toList.drop n := by
  rw [Stack.above, Array.toList_extract]
  exact List.take_of_length_le (by simp)

theorem toList_shrink_append_above (s : Stack) (n : Nat) :
    (s.values.shrink n).toList ++ s.above n = s.values.toList := by
  rw [above_eq_drop]
  simp

theorem Sound.truncate (hm : m.Sound terms rest) (n : Nat) :
    Sound { m with stack := m.stack.truncate n } terms (m.stack.above n + rest) := by
  have hfits : (m.stack.values.shrink n).size ≤ m.stack.settings.stackSize := by
    have := hm.fits
    rw [Array.size_shrink]
    omega
  refine hm.rearrange rfl rfl hfits hm.laidOut hm.based (.of_eq ?_)
  rw [placed_eq, placed_eq, ← toList_shrink_append_above m.stack n, ← Multiset.coe_add]
  simp only [Stack.truncate]
  abel

theorem push_refuses (hm : m.Sound terms ({v} + rest)) :
    Ends (push v m) (fun _ m' => m'.Sound terms rest ∧ m' = { m with stack := m.stack.put v })
      (Refused terms rest) := by
  refine Ends.get ?_
  split
  · next hroom => exact ⟨hm.put hroom, rfl⟩
  · exact Ends.bind_ok rfl ⟨trivial, hm.releaseValue⟩

theorem push_ends (hm : m.Sound terms ({v} + rest)) :
    Ends (push v m) (fun _ m' => m'.Sound terms rest ∧ m' = { m with stack := m.stack.put v })
      (Stopped terms rest) :=
  (push_refuses hm).mono (fun _ _ hm' => hm') fun _ _ he => he.stopped

theorem push_acts (hm : m.Sound terms ({v} + rest)) : m.Acts terms rest (push v) :=
  (push_ends hm).mono (fun _ _ hm' => hm'.1) fun _ _ he => he

theorem push_eq_ok (hroom : m.stack.hasRoom = true) (v : Value) :
    push v m = .ok () { m with stack := m.stack.put v } := by
  change (if m.stack.hasRoom then modifyStack (·.put v) else _ : MachineM Unit) m = _
  rw [if_pos hroom]
  rfl

/-- The operands that can be taken off are on the stack. -/
theorem top_eq_ok {s : Stack} {n : Nat} (hvs : s.top n = .ok vs) :
    vs = s.above (s.size - n) ∧ vs.length = n ∧ n ≤ s.size := by
  unfold Stack.top at hvs
  split at hvs
  · cases hvs
  · obtain rfl := Except.ok.inj hvs
    refine ⟨rfl, ?_, ?_⟩
    · simp only [Array.length_toList, Array.size_extract]
      omega
    · rw [Stack.size]
      omega

theorem popValues_eq_ok {n : Nat} (hvs : m.stack.top n = .ok vs) :
    popValues n m = .ok vs { m with stack := m.stack.truncate (m.stack.size - n) } := by
  change (liftExcept (m.stack.top n) >>= _) m = _
  rw [hvs]
  rfl

theorem Sound.popValues {n : Nat} (hm : m.Sound terms rest) (hvs : m.stack.top n = .ok vs) :
    Sound { m with stack := m.stack.truncate (m.stack.size - n) } terms (vs + rest) := by
  rw [(top_eq_ok hvs).1]
  exact hm.truncate _

theorem popValues_ends (hm : m.Sound terms rest) (n : Nat) :
    Ends (popValues n m) (fun vs m' => m'.Sound terms (vs + rest) ∧ vs.length = n ∧
      m'.stack.values.size + n ≤ m'.stack.settings.stackSize) (Stopped terms rest) := by
  cases hvs : m.stack.top n with
  | error e =>
    have herr : popValues n m = .error (.failed e) m := by
      change (liftExcept (m.stack.top n) >>= _) m = _
      rw [hvs]
      rfl
    rw [herr]
    exact ⟨trivial, .inr hm⟩
  | ok vs =>
    rw [popValues_eq_ok hvs]
    obtain ⟨-, hlength, hle⟩ := top_eq_ok hvs
    refine ⟨hm.popValues hvs, hlength, ?_⟩
    have hfits := hm.fits
    rw [Stack.size] at hle
    simp only [Stack.truncate, Array.size_shrink, Stack.size]
    omega

theorem popTwo_ends (hm : m.Sound terms rest) :
    Ends (popTwo m) (fun p m' => m'.Sound terms (([p.1, p.2] : List Value) + rest) ∧
      m'.stack.values.size + 2 ≤ m'.stack.settings.stackSize) (Stopped terms rest) := by
  refine (popValues_ends hm 2).bind (fun vs m' hvs => ?_) fun _ _ he => he
  obtain ⟨a, b, rfl⟩ := List.length_eq_two.1 hvs.2.1
  exact ⟨hvs.1, hvs.2.2⟩

theorem pop_ends (hm : m.Sound terms rest) :
    Ends (pop m) (fun v m' => m'.Sound terms ({v} + rest) ∧ m.stack.floor ≤ m'.stack.values.size)
      (Stopped terms rest) := by
  refine Ends.get ?_
  unfold Stack.peek
  split
  · exact ⟨trivial, .inr hm⟩
  · next hroom =>
    split
    · exact ⟨trivial, .inr hm⟩
    · next v hv =>
      have habove : m.stack.above (m.stack.size - 1) = [v] := by
        obtain ⟨hlt, hval⟩ := Array.getElem?_eq_some_iff.1 hv
        rw [Nat.sub_zero] at hlt
        rw [above_eq_drop, Stack.size, List.drop_eq_getElem_cons (by simpa using hlt),
          List.drop_eq_nil_of_le (by simp; omega)]
        simpa using hval
      refine ⟨?_, ?_⟩
      · have := hm.truncate (m.stack.size - 1)
        rwa [habove] at this
      · simp only [Stack.truncate, Stack.floor, Stack.frame?, Stack.size, Array.size_shrink] at *
        omega

/-- What a part has borrowed from the machine's hands can be released after it. -/
theorem Yields.andRelease {x : MachineM Value} (hx : m.Yields terms (vs + rest) x) :
    Ends (andAfter x (releaseValues vs) m) (fun v => m.Gave terms rest {v})
      (Stopped terms rest) := by
  refine Ends.andAfter (hx m (.refl m)) (fun v m' hg => ⟨_, rfl, ?_⟩)
    fun e m' he => ⟨_, rfl, Stopped.releaseValues he.2⟩
  have hsound := hg.2
  rw [add_left_comm] at hsound
  exact ⟨hg.1.trans (.releaseValues m' vs), hsound.releaseValues⟩

/-- The result of an operation on operands comes in their place. -/
theorem onOperands_acts (hm : m.Sound terms rest) {f : Value → Value → MachineM Value}
    (hf : ∀ a b (m' : Machine), m'.Knows terms a → m'.Knows terms b → m'.Sound terms (([a, b] : List Value) + rest) →
      m'.Yields terms (([a, b] : List Value) + rest) (f a b)) : m.Acts terms rest (onOperands f) := by
  refine (popTwo_ends hm).bind (fun p m' hp => ?_) fun _ _ he => he
  have ha : m'.Knows terms p.1 := hp.1.knows_held (by simp)
  have hb : m'.Knows terms p.2 := hp.1.knows_held (by simp)
  exact (hf p.1 p.2 m' ha hb hp.1).andRelease.bind (fun v m'' hm'' => push_acts hm''.2) fun _ _ he =>
    he

/-- The result of an operation on arguments comes in their place. They stay on the
    stack while it lasts. -/
theorem callWithArgs_acts (hm : m.Sound terms rest) (argc : Nat) {f : List Value → MachineM Value}
    (hf : ∀ args, (∀ v ∈ args, m.Knows terms v) → m.Yields terms rest (f args)) :
    m.Acts terms rest (callWithArgs argc f) := by
  refine Ends.get ?_
  cases hargs : m.stack.top argc with
  | error e => exact ⟨trivial, .inr hm⟩
  | ok args =>
    have hk : ∀ v ∈ args, m.Knows terms v := fun v hv => by
      rw [(top_eq_ok hargs).1, Stack.above, Array.toList_extract] at hv
      refine hm.knows_placed (mem_placed_of_mem_values (Array.mem_toList_iff.1 ?_))
      exact List.mem_of_mem_drop (List.mem_of_mem_take hv)
    -- The function leaves the stack alone, so the same arguments are taken off after it.
    have hpop (m' : Machine) (hb : m.Beside m') : (do releaseValues (← popValues argc)) m' =
        .ok () { m' with
          stack := m'.stack.truncate (m'.stack.size - argc)
          heap := m'.heap.releaseValues args } := by
      have htop : m'.stack.top argc = .ok args := by rw [hb.stack, hargs]
      change EStateM.bind _ _ _ = _
      rw [EStateM.bind, popValues_eq_ok htop]
      rfl
    refine Ends.bind_ok (a := args) rfl ?_
    refine Ends.bind (Ends.andAfter (hf args hk m (.refl m))
      (R := fun v m' => m'.Sound terms ({v} + rest))
      (fun v m' hg => ⟨_, hpop m' hg.1, ?_⟩) (fun e m' he => ⟨_, hpop m' he.1, he.2.1, ?_⟩))
      (fun v m' hm' => push_acts hm') fun _ _ he => he
    · have htop : m'.stack.top argc = .ok args := by rw [hg.1.stack, hargs]
      have hsound := hg.2.popValues htop
      exact hsound.releaseValues
    · have htop : m'.stack.top argc = .ok args := by rw [he.1.stack, hargs]
      exact he.2.2.imp_right fun hsound => (hsound.popValues htop).releaseValues

/-! ## Calls -/

theorem currentFrame_peeks : m.Peeks currentFrame fun f => m.stack.frame? = some f := by
  refine Peeks.get.bind fun m' hm' => ?_
  rw [hm'.beside.stack]
  split
  · next f hf => exact .pure hf
  · exact .fail _

theorem mem_placed_of_get {n : Nat} (hv : m.stack.get n = .ok v) : v ∈ m.placed := by
  unfold Stack.get at hv
  split at hv
  · cases hv
  · next w hw =>
    obtain rfl := Except.ok.inj hv
    exact mem_placed_of_mem_values (Array.mem_of_getElem? hw)

theorem mem_placed_of_peek {n : Nat} (hv : m.stack.peek n = .ok v) : v ∈ m.placed := by
  unfold Stack.peek at hv
  split at hv
  · cases hv
  · split at hv
    · cases hv
    · next w hw =>
      obtain rfl := Except.ok.inj hv
      exact mem_placed_of_mem_values (Array.mem_of_getElem? hw)

theorem mem_frames_of_frame? {f : Frame} (hf : m.stack.frame? = some f) : f ∈ m.stack.frames :=
  List.mem_of_mem_head? hf

theorem mem_placed_of_held {f : Frame} (hf : m.stack.frame? = some f) (hv : v ∈ f.held) :
    v ∈ m.placed := by
  rw [placed_eq]
  refine Multiset.mem_add.2 (.inl (Multiset.mem_add.2 (.inl (Multiset.mem_add.2 (.inr ?_)))))
  exact Multiset.mem_coe.2 (List.mem_flatMap.2
    ⟨f, List.mem_reverse.2 (mem_frames_of_frame? hf), hv⟩)

theorem ownedSelf_yields (hm : m.Sound terms rest) : m.Yields terms rest ownedSelf :=
  .peek hm currentFrame_peeks fun _ hf =>
    owned_yields hm (hm.knows_placed (mem_placed_of_held hf List.mem_cons_self))

/-- Where a call goes on has nothing to do with counts. -/
theorem Sound.modifyFrame (hm : m.Sound terms rest) {g : Frame → Frame}
    (hheld : ∀ f, (g f).held = f.held) (hlaid : ∀ f, (g f).localBase = f.localBase ∧
      (g f).header = f.header ∧ (g f).stackBase = f.stackBase ∧ (g f).argBase = f.argBase) :
    Sound { m with stack := m.stack.modifyFrame g } terms rest := by
  unfold Stack.modifyFrame
  split
  · exact hm
  · next frame frames hframes =>
    refine hm.rearrange rfl rfl hm.fits (fun f hf => ?_) (fun b hb => ?_) (.of_eq ?_)
    · have hold := hm.laidOut
      rw [hframes] at hold
      rcases List.mem_cons.1 hf with rfl | hf
      · rw [(hlaid frame).1, (hlaid frame).2.1, (hlaid frame).2.2.1]
        exact hold frame List.mem_cons_self
      · exact hold f (List.mem_cons_of_mem _ hf)
    · rw [← hm.based b hb, Stack.base?, Stack.base?, hframes]
      cases frames with
      | nil => simp [(hlaid frame).2.2.2]
      | cons f fs => simp
    · rw [placed_eq, placed_eq, hframes]
      simp [hheld]

theorem liftDecoded_peeks (r : Except DecodeError α) : m.Peeks (liftDecoded r) fun _ => True := by
  cases r with
  | ok a => exact .pure trivial
  | error e => exact .fail _

theorem readHeader_peeks (method : UInt32) : m.Peeks (readHeader method) fun _ => True :=
  (Peeks.reads fun pools => pools.later_readCode method _).bind fun _ _ => liftDecoded_peeks _

/-- A call takes over the receiver and the definer. Its locals are nil, and so need
    no counts. -/
theorem Sound.pushFrame {frame : Frame} (hm : m.Sound terms (frame.held + rest))
    (hlaid : frame.localBase + frame.header.locals.toNat = frame.stackBase) {locals : Nat}
    (hroom : m.stack.size + locals ≤ m.stack.settings.stackSize) :
    Sound { m with stack := { m.stack.putLocals locals with frames := frame :: m.stack.frames } } terms
      rest := by
  have hfits : (m.stack.values ++ Array.replicate locals Value.nil).size ≤
      m.stack.settings.stackSize := by
    simpa [Stack.size] using hroom
  have hbased : ∀ b ∈ terms.base?, Stack.base?
      { m.stack.putLocals locals with frames := frame :: m.stack.frames } = some b := by
    intro b hb
    have hold := hm.based b hb
    rw [Stack.base?, List.getLast?_cons] at *
    obtain ⟨f, hf, rfl⟩ := Option.map_eq_some_iff.1 hold
    rw [hf]
    rfl
  refine hm.rearrange rfl rfl hfits (List.forall_mem_cons.2 ⟨hlaid, hm.laidOut⟩) hbased
    fun id => ?_
  have hnil : (List.replicate locals Value.nil).count (.obj id) = 0 :=
    List.count_eq_zero.2 fun hmem => by cases List.eq_of_mem_replicate hmem
  rw [placed_eq, placed_eq]
  simp only [Stack.putLocals, Array.toList_append, Array.toList_replicate, List.reverse_cons,
    List.flatMap_append, List.flatMap_cons, List.flatMap_nil, List.append_nil, ← Multiset.coe_add,
    Multiset.count_add, Multiset.coe_count, hnil]
  omega

/-- An outermost call starts at its arguments. -/
theorem enter_refuses {method : UInt32} {argc : Nat} {self : Value} {definer? : Option ObjectId}
    {target? : Option PropId}
    (hm : m.Sound terms ((self :: definer?.toList.map .obj : List Value) + rest)) :
    Ends (enter method argc self definer? target? m)
      (fun _ m' => m'.Sound terms rest ∧
        (m.stack.frames = [] → m'.stack.base? = some (m.stack.size - argc)))
      (Refused terms rest) := by
  refine Ends.onFault (E := Refused terms ((self :: definer?.toList.map .obj : List Value) + rest)) ?_
    fun e m' he => ⟨_, rfl, he.1, he.2.releaseValues⟩
  refine (readHeader_peeks method m (.refl m)).bind (fun header m' hm' => ?_) fun e m' he =>
    ⟨he.2, hm.peeked he.1⟩
  have hstack := hm'.1.beside.stack
  have hm' := hm.peeked hm'.1
  refine Ends.get ?_
  dsimp only
  split
  · exact ⟨trivial, hm'⟩
  refine Ends.get (Ends.get ?_)
  split
  · exact ⟨trivial, hm'⟩
  next hroom =>
    refine Ends.get (Ends.get ?_)
    split
    · exact ⟨trivial, hm'⟩
    refine Ends.get (Ends.bind_ok rfl ⟨?_, fun hframes => ?_⟩)
    · exact (Sound.pushFrame hm' rfl (not_lt.1 hroom)).withPools _
    · simp [Stack.base?, hstack, hframes]

theorem enter_acts {method : UInt32} {argc : Nat} {self : Value} {definer? : Option ObjectId}
    {target? : Option PropId}
    (hm : m.Sound terms ((self :: definer?.toList.map .obj : List Value) + rest)) :
    m.Acts terms rest (enter method argc self definer? target?) :=
  (enter_refuses hm).mono (fun _ _ hm' => hm'.1) fun _ _ he => he.stopped

/-- The innermost call lets go of its receiver and its definer. -/
theorem Sound.popFrame {f : Frame} (hm : m.Sound terms rest) (hf : m.stack.frame? = some f) :
    Sound { m with stack := m.stack.popFrame } terms.loose (f.held + rest) := by
  obtain ⟨frames, hframes⟩ := List.head?_eq_some_iff.1 hf
  refine hm.loose.rearrange rfl rfl hm.fits (fun f' hf' => hm.laidOut f' (List.mem_of_mem_tail hf'))
    (fun b hb => by simp [Terms.loose] at hb) (.of_eq ?_)
  rw [placed_eq, placed_eq, Stack.popFrame, hframes]
  simp only [List.tail_cons, List.reverse_cons, List.flatMap_append, List.flatMap_cons,
    List.flatMap_nil, List.append_nil, ← Multiset.coe_add]
  abel

/-- What a machine has left when `n` calls of it have ended. -/
structure Left (m : Machine) (n : Nat) (m' : Machine) : Prop where
  /-- The calls are not there any more. -/
  frames : m'.stack.frames = m.stack.frames.drop n
  /-- There are no more values below the outermost call than there were. -/
  bottom : m'.stack.bottom ≤ m.stack.bottom

/-- The outermost call stays the same as long as there is one. -/
theorem Left.base?_eq {n : Nat} (hl : m.Left n m') (hn : n < m.stack.depth) :
    m'.stack.base? = m.stack.base? := by
  have hlength : ¬m.stack.frames.length ≤ n := Nat.not_le.2 hn
  rw [Stack.base?, hl.frames, List.getLast?_drop, if_neg hlength, Stack.base?]

theorem leave_of_none (hf : m.stack.frame? = none) : leave m = .ok () m := by
  simp only [leave, bind, EStateM.bind, get, getThe, MonadStateOf.get, EStateM.get, hf]
  rfl

theorem leave_of_some {f : Frame} (hf : m.stack.frame? = some f) :
    leave m = .ok () { m with
      stack := m.stack.popFrame.truncate f.argBase
      heap := (m.heap.releaseValues (m.stack.above f.argBase)).releaseValues f.held
      pools := { m.pools with code := m.pools.code.unpin f.method } } := by
  simp only [leave, bind, EStateM.bind, get, getThe, MonadStateOf.get, EStateM.get, hf]
  rfl

/-- The end of a call cannot fault. -/
theorem leave_eq_ok (hm : m.Sound terms rest) :
    ∃ m', leave m = .ok () m' ∧ m'.Sound terms.loose rest ∧ m.Left 1 m' := by
  cases hf : m.stack.frame? with
  | none =>
    refine ⟨m, leave_of_none hf, hm.loose, ?_, le_rfl⟩
    rw [List.head?_eq_none_iff.1 hf, List.drop_nil]
  | some f =>
    have hleft := (hm.popFrame hf).truncate f.argBase
    have hreleased : Sound { m with
        stack := m.stack.popFrame.truncate f.argBase
        heap := (m.heap.releaseValues (m.stack.above f.argBase)).releaseValues f.held }
        terms.loose rest :=
      (Sound.releaseValues hleft).releaseValues
    exact ⟨_, leave_of_some hf, hreleased.withPools _, List.drop_one.symm,
      Stack.bottom_truncate_popFrame hf⟩

theorem leaveMany_eq_ok (hm : m.Sound terms rest) (n : Nat) :
    ∃ m', leaveMany n m = .ok () m' ∧ m'.Sound terms.loose rest ∧ m.Left n m' := by
  induction n generalizing m terms with
  | zero => exact ⟨m, rfl, hm.loose, rfl, le_rfl⟩
  | succ n ih =>
    obtain ⟨m', hok, hm', hleft⟩ := leave_eq_ok hm
    obtain ⟨m'', hok', hm'', hleft'⟩ := ih hm'
    refine ⟨m'', (bind_eq_of_ok hok).trans hok', hm'', ?_, hleft'.bottom.trans hleft.bottom⟩
    rw [hleft'.frames, hleft.frames, List.drop_drop, Nat.add_comm]

theorem leaveTo_eq_ok (hm : m.Sound terms rest) (floor : Nat) :
    ∃ m', leaveTo floor m = .ok () m' ∧ m'.Sound terms.loose rest ∧
      m.Left (m.stack.depth - floor) m' :=
  leaveMany_eq_ok hm _

theorem dropAbove_eq_ok (hm : m.Sound terms rest) (n : Nat) :
    ∃ m', dropAbove n m = .ok () m' ∧ m'.Sound terms rest ∧ m'.stack = m.stack.truncate n :=
  ⟨_, rfl, (hm.truncate n).releaseValues, rfl⟩

end Machine

end StoryMachine
