import StoryMachine.Proofs.Heap.Held
import StoryMachine.Proofs.Machine.Layout
import StoryMachine.Proofs.Pool.Calls

/-!
# On to the nearest handler

An exception ends calls until one has a handler for it. Whether a call has one depends on
its exception table, on the instruction it is at and on what the exception inherits from.
The calls that end release counts of objects, but none that the exception itself relies
on, so the handler is the one that could have been told when the exception was thrown.

* `ExceptionEntry.Handles`: the entries of a table that have a handler for an exception;
* `Pool.Inspects`: the exception tables of calls, as they are read;
* `Machine.Owns`: counts are those of what the machine holds;
* `leave_ends`: what the end of a call changes;
* `unwind_transfers`: where an exception goes.
-/

namespace StoryMachine

/-! ## Entries and tables -/

/-- The entry has the handler for an exception in a call: the instruction that the call is
    at lies in its range, and it is for all exceptions or for a class that this one is, or
    inherits from. -/
def ExceptionEntry.Handles (e : ExceptionEntry) (src : Inheritance.Source) (f : Frame)
    (exception : Value) : Prop :=
  e.start.toNat ≤ f.methodOffset.toNat ∧ f.methodOffset.toNat < e.stop.toNat ∧
    (e.class_ = 0 ∨ ∃ id, exception = .obj id ∧ src.Inherits id (.ofImage e.class_))

/-- No entry of the table has a handler. -/
def ExceptionTable.Passes (src : Inheritance.Source) (exception : Value) (f : Frame)
    (entries : List ExceptionEntry) : Prop :=
  ∀ e ∈ entries, ¬e.Handles src f exception

/-- The entry is the first in the table that has a handler. -/
def ExceptionTable.Catches (src : Inheritance.Source) (exception : Value) (f : Frame)
    (entries : List ExceptionEntry) (e : ExceptionEntry) : Prop :=
  e.Handles src f exception ∧ ∃ before after, entries = before ++ e :: after ∧
    Passes src exception f before

variable {h : Heap} {f : Frame} {e : ExceptionEntry} {entries : List ExceptionEntry}
  {exception : Value} {src src' : Inheritance.Source}

theorem ExceptionEntry.catches_iff : e.catches h f exception = true ↔ e.Handles h.source f exception := by
  have hcovers : (decide (f.methodOffset.toNat < 65536) && e.covers f.methodOffset.toUInt16) = true ↔
      e.start.toNat ≤ f.methodOffset.toNat ∧ f.methodOffset.toNat < e.stop.toNat := by
    have hstop := e.stop.toNat_lt
    rw [covers, Bool.and_eq_true, Bool.and_eq_true, decide_eq_true_iff, decide_eq_true_iff,
      decide_eq_true_iff, UInt16.le_iff_toNat_le, UInt16.lt_iff_toNat_lt, UInt32.toNat_toUInt16]
    omega
  have hclass : (e.catchesAll ||
        exception.obj?.any (Inheritance.isInstanceOf h.source · (.ofImage e.class_))) = true ↔
      (e.class_ = 0 ∨ ∃ id, exception = .obj id ∧ h.source.Inherits id (.ofImage e.class_)) := by
    rw [Bool.or_eq_true, catchesAll, beq_iff_eq, Option.any_eq_true]
    simp only [Value.obj?_eq_some_iff, Inheritance.isInstanceOf_iff]
  rw [catches, Bool.and_eq_true, hcovers, hclass, Handles, and_assoc]

theorem ExceptionEntry.Handles.congr
    (hsrc : ∀ id, exception = .obj id → ∀ id', src.Inherits id id' ↔ src'.Inherits id id') :
    e.Handles src f exception ↔ e.Handles src' f exception :=
  and_congr_right' (and_congr_right' (or_congr_right (exists_congr fun id => and_congr_right
    fun hid => hsrc id hid _)))

theorem ExceptionTable.Passes.congr
    (hsrc : ∀ id, exception = .obj id → ∀ id', src.Inherits id id' ↔ src'.Inherits id id') :
    Passes src exception f entries ↔ Passes src' exception f entries :=
  forall₂_congr fun _ _ => not_congr (ExceptionEntry.Handles.congr hsrc)

theorem ExceptionTable.Catches.congr
    (hsrc : ∀ id, exception = .obj id → ∀ id', src.Inherits id id' ↔ src'.Inherits id id') :
    Catches src exception f entries e ↔ Catches src' exception f entries e :=
  and_congr (ExceptionEntry.Handles.congr hsrc)
    (exists_congr fun _ => exists_congr fun _ => and_congr_right' (Passes.congr hsrc))

theorem ExceptionTable.find?_eq_none_iff :
    entries.find? (·.catches h f exception) = none ↔ Passes h.source exception f entries := by
  rw [List.find?_eq_none]
  exact forall₂_congr fun e _ => not_congr ExceptionEntry.catches_iff

theorem ExceptionTable.find?_eq_some_iff :
    entries.find? (·.catches h f exception) = some e ↔ Catches h.source exception f entries e := by
  rw [List.find?_eq_some_iff_append, ExceptionEntry.catches_iff]
  refine and_congr_right' (exists_congr fun before => exists_congr fun after => and_congr_right' ?_)
  refine forall₂_congr fun e _ => ?_
  rw [Bool.not_eq_true', ← Bool.not_eq_true, ExceptionEntry.catches_iff]

/-- The exception tables of calls that end one after the other, the innermost first, as they
    are read from the code pool. The pages that a call has pinned are unpinned when it ends. -/
inductive Pool.Inspects (entrySize : Nat) : Pool → List Frame → List (List ExceptionEntry) → Prop
  | done {p : Pool} : Inspects entrySize p [] []
  | bare {p : Pool} {f : Frame} {fs : List Frame} {tables : List (List ExceptionEntry)}
      (hbare : f.header.excTable = 0) (hrest : Inspects entrySize (p.unpin f.method) fs tables) :
      Inspects entrySize p (f :: fs) ([] :: tables)
  | table {p p' : Pool} {s : Slice} {f : Frame} {fs : List Frame} {entries : List ExceptionEntry}
      {tables : List (List ExceptionEntry)} (htable : f.header.excTable ≠ 0)
      (hslice : p.slice (f.method + f.header.excTable.toUInt32) = (.ok s, p'))
      (hentries : ExceptionTable.parse s.toBytes entrySize = .ok entries)
      (hrest : Inspects entrySize (p'.unpin f.method) fs tables) :
      Inspects entrySize p (f :: fs) (entries :: tables)

/-- The exception table of a call, as the pages of a pool have it. -/
def MemoryPool.HasTable (q : MemoryPool) (entrySize : Nat) (f : Frame)
    (entries : List ExceptionEntry) : Prop :=
  if f.header.excTable = 0 then entries = []
  else ∃ s, q.slice (f.method + f.header.excTable.toUInt32) = .ok s ∧
    ExceptionTable.parse s.toBytes entrySize = .ok entries

namespace Pool

variable {p : Pool} {q : MemoryPool} {image : Array UInt8} {entrySize : Nat} {fs : List Frame}
  {tables : List (List ExceptionEntry)}

/-- Nothing that is read or unpinned in between makes a difference to a pool in memory. -/
theorem inspects_memory_iff :
    (Pool.memory q).Inspects entrySize fs tables ↔ List.Forall₂ (q.HasTable entrySize) fs tables := by
  constructor
  · generalize hp : Pool.memory q = p
    intro h
    induction h with
    | done => exact .nil
    | bare hbare _ ih =>
      subst hp
      exact .cons (by rw [MemoryPool.HasTable, if_pos hbare]) (ih rfl)
    | table htable hslice hentries _ ih =>
      subst hp
      obtain ⟨hs, rfl⟩ := Prod.mk.injEq .. ▸ hslice
      refine .cons ?_ (ih rfl)
      rw [MemoryPool.HasTable, if_neg htable]
      exact ⟨_, hs, hentries⟩
  · intro h
    induction h with
    | nil => exact .done
    | cons htable _ ih =>
      rw [MemoryPool.HasTable] at htable
      split at htable
      · next hbare =>
        subst htable
        exact .bare hbare ih
      · next hne =>
        obtain ⟨s, hs, hentries⟩ := htable
        exact .table hne (congrArg (·, Pool.memory q) hs) hentries ih

/-- Nor does it to a pool that is read on demand. -/
theorem Mirrors.inspects_iff (hp : p.Mirrors image (.memory q)) :
    p.Inspects entrySize fs tables ↔ List.Forall₂ (q.HasTable entrySize) fs tables := by
  constructor
  · intro h
    induction h with
    | done => exact .nil
    | bare hbare _ ih => exact .cons (by rw [MemoryPool.HasTable, if_pos hbare]) (ih (hp.unpin _))
    | @table p p' s f _ _ _ htable hslice hentries _ ih =>
      obtain ⟨halike, hp'⟩ := hp.slice (f.method + f.header.excTable.toUInt32)
      rw [hslice] at halike hp'
      refine .cons ?_ (ih (hp'.unpin _))
      rw [MemoryPool.HasTable, if_neg htable]
      exact ⟨s, halike.eq_ok_iff.1 rfl, hentries⟩
  · intro h
    induction h generalizing p with
    | nil => exact .done
    | @cons f _ _ _ htable _ ih =>
      rw [MemoryPool.HasTable] at htable
      split at htable
      · next hbare =>
        subst htable
        exact .bare hbare (ih (hp.unpin _))
      · next hne =>
        obtain ⟨s, hs, hentries⟩ := htable
        obtain ⟨halike, hp'⟩ := hp.slice (f.method + f.header.excTable.toUInt32)
        refine .table hne (Prod.ext (halike.eq_ok_iff.2 hs) rfl) hentries (ih (hp'.unpin _))

end Pool

namespace Stack.Nested

variable {s : Stack} {limits : StackSettings} {inner outer : List Frame} {f g : Frame}

/-- What a call has on the stack lies below what any call inside of it has. -/
theorem stackBase_le_argBase (hs : s.Nested limits) (hframes : s.frames = g :: inner ++ f :: outer) :
    f.stackBase ≤ g.argBase := by
  have hnested := hs.nested
  rw [hframes, List.cons_append, List.pairwise_cons] at hnested
  exact hnested.1 f (List.mem_append_right _ List.mem_cons_self)

theorem argBase_le_stackBase (hs : s.Nested limits) (hframes : s.frames = inner ++ f :: outer) :
    f.argBase ≤ f.stackBase := by
  have hmem : f ∈ s.frames := hframes ▸ List.mem_append_right _ List.mem_cons_self
  have hargs := hs.args f hmem
  have hlocals := hs.locals f hmem
  omega

end Stack.Nested

namespace Machine

variable {m m' : Machine} {limits : StackSettings} {held rest : Multiset Value} {vs : List Value}
  {inner outer fs : List Frame} {tables : List (List ExceptionEntry)} {n floor : Nat}

/-! ## Counts -/

/-- The counts of objects are those of what the machine has in its places and in its hands. -/
def Owns (m : Machine) (held : Multiset Value) : Prop :=
  m.heap.Exact (m.heap.owned + (m.placed + held))

theorem Sound.owns {terms : Terms} (hm : m.Sound terms held) (hr : m.heap.Reliable terms.stale) :
    m.Owns held :=
  (hm.counted.balanced hr).exact

/-- Values move between places and hands. -/
theorem Owns.rearrange (hm : m.Owns held) (hheap : m'.heap = m.heap)
    (hsum : m.placed + held = m'.placed + rest) : m'.Owns rest := by
  rw [Owns, hheap, ← hsum]
  exact hm

theorem Owns.exact_releaseValues (hm : m.Owns (vs + held)) :
    m.heap.Exact (m.heap.owned + (vs + (m.placed + held))) := by
  rw [Owns, add_left_comm m.placed] at hm
  exact hm

theorem Owns.releaseValues (hm : m.Owns (vs + held)) :
    Owns { m with heap := m.heap.releaseValues vs } held :=
  hm.exact_releaseValues.releaseValues

/-- What others release makes no difference to what a value inherits from that is in the
    machine's hands. -/
theorem Owns.inherits_iff (hm : m.Owns (vs + held)) {id : ObjectId} (hid : .obj id ∈ held)
    (id' : ObjectId) :
    (m.heap.releaseValues vs).source.Inherits id id' ↔ m.heap.source.Inherits id id' :=
  Heap.inherits_releaseValues_iff hm.exact_releaseValues (Multiset.mem_add.2 (.inr hid))

theorem placed_left (hframes : m.stack.frames = f :: fs) :
    m.placed = Machine.placed { m with stack := m.stack.left } + (m.stack.above f.argBase + f.held) := by
  rw [placed_eq, placed_eq, Stack.left_of_cons hframes, ← toList_shrink_append_above m.stack f.argBase,
    hframes]
  simp only [List.reverse_cons, List.flatMap_append, List.flatMap_cons, List.flatMap_nil,
    List.append_nil, ← Multiset.coe_add]
  abel

theorem placed_truncate (m : Machine) (n : Nat) :
    m.placed = Machine.placed { m with stack := m.stack.truncate n } + m.stack.above n := by
  rw [placed_eq, placed_eq, ← toList_shrink_append_above m.stack n, ← Multiset.coe_add]
  simp only [Stack.truncate]
  abel

/-! ## The end of a call -/

/-- What the end of a call changes. -/
structure Ended (m : Machine) (exception : Value) (rest : Multiset Value) (m' : Machine) : Prop where
  /-- The image is the same. -/
  image : m'.image = m.image
  /-- The call and what is its own are off the stack. -/
  stack : m'.stack = m.stack.left
  /-- The counts are those of what is left. -/
  owns : m'.Owns ({exception} + rest)
  /-- The exception inherits from the same objects. -/
  inherits : ∀ id, exception = .obj id →
    ∀ id', m'.heap.source.Inherits id id' ↔ m.heap.source.Inherits id id'

theorem leave_ends (hm : m.Owns ({exception} + rest)) (hframes : m.stack.frames = f :: fs) :
    ∃ m', leave m = .ok () m' ∧ m.Ended exception rest m' ∧
      m'.pools.code = m.pools.code.unpin f.method := by
  have hf : m.stack.frame? = some f := by rw [Stack.frame?, hframes, List.head?_cons]
  have hspent : Owns { m with stack := m.stack.left }
      (m.stack.above f.argBase + ((f.held : Multiset Value) + ({exception} + rest))) := by
    refine hm.rearrange rfl ?_
    rw [placed_left hframes]
    abel
  have hheld : Owns { m with stack := m.stack.left, heap := m.heap.releaseValues (m.stack.above f.argBase) }
      (f.held + ({exception} + rest)) := hspent.releaseValues
  refine ⟨{ m with
    stack := m.stack.left
    heap := (m.heap.releaseValues (m.stack.above f.argBase)).releaseValues f.held
    pools := { m.pools with code := m.pools.code.unpin f.method } }, ?_,
    ⟨rfl, rfl, hheld.releaseValues, ?_⟩, rfl⟩
  · rw [Stack.left, hf, leave_of_some hf]
  · rintro id rfl id'
    exact (hheld.inherits_iff (by simp) id').trans (hspent.inherits_iff (by simp) id')

/-! ## Looking for a handler -/

/-- The exception table of the innermost call is read, and the first entry counts that has a
    handler. -/
theorem findHandler_eq (exception : Value) (hframes : m.stack.frames = f :: fs)
    (hp : m.pools.code.Inspects m.image.entry.excEntrySize.toNat (f :: inner) (entries :: tables)) :
    ∃ code, findHandler exception m =
        .ok ((entries.find? (·.catches m.heap f exception)).map (·.handler))
          { m with pools := { m.pools with code } } ∧
      (code.unpin f.method).Inspects m.image.entry.excEntrySize.toNat inner tables := by
  have hf : m.stack.frame? = some f := by rw [Stack.frame?, hframes, List.head?_cons]
  cases hp with
  | bare hbare hrest =>
    refine ⟨m.pools.code, ?_, hrest⟩
    rw [findHandler, bind_eq_of_ok (currentFrame_eq_ok hf), if_pos hbare]
    rfl
  | @table _ code s _ _ _ _ htable hslice hentries hrest =>
    refine ⟨code, ?_, hrest⟩
    have hread : onPools (·.codeSlice (f.method + f.header.excTable.toUInt32)) m =
        .ok s { m with pools := { m.pools with code } } := by
      simp only [onPools, Pools.codeSlice, hslice]
    rw [findHandler, bind_eq_of_ok (currentFrame_eq_ok hf), if_neg htable, bind_eq_of_ok hread]
    change (liftDecoded (ExceptionTable.parse s.toBytes m.image.entry.excEntrySize.toNat) >>= _) _ = _
    rw [hentries]
    rfl

/-! ## Going on at a handler -/

/-- What the call that handles an exception goes on with. -/
structure Caught (m : Machine) (exception : Value) (rest : Multiset Value) (f : Frame)
    (outer : List Frame) (handler : UInt16) (m' : Machine) : Prop where
  /-- The limits of the stack are the same. -/
  settings : m'.stack.settings = m.stack.settings
  /-- The call is at its handler, and otherwise it and the calls around it are as they were. -/
  frames : m'.stack.frames = { f with next := f.method + handler.toUInt32 } :: outer
  /-- The exception is its only operand, if there is room for one. -/
  values : m'.stack.values.toList = m.stack.values.toList.take f.stackBase ++
    if f.stackBase < m.stack.settings.stackSize then [exception] else []
  /-- The counts are those of what is left. -/
  owns : m'.Owns rest

theorem push_eq_error (hroom : m.stack.hasRoom = false) (v : Value) :
    push v m = .error (.failed Stack.overflow) { m with heap := m.heap.releaseValue v } := by
  change (if m.stack.hasRoom then modifyStack (·.put v) else _ : MachineM Unit) m = _
  rw [if_neg (Bool.eq_false_iff.1 hroom)]
  rfl

/-- The machine once the innermost call has dropped its operands and is at a handler. -/
def atHandler (m : Machine) (f : Frame) (handler : UInt16) : Machine :=
  { m with
    stack := (m.stack.truncate f.stackBase).modifyFrame fun f =>
      { f with next := f.method + handler.toUInt32 }
    heap := m.heap.releaseValues (m.stack.above f.stackBase) }

theorem stack_atHandler (hframes : m.stack.frames = f :: outer) (handler : UInt16) :
    (m.atHandler f handler).stack = { m.stack with
      values := m.stack.values.shrink f.stackBase
      frames := { f with next := f.method + handler.toUInt32 } :: outer } := by
  simp only [atHandler, Stack.truncate, Stack.modifyFrame, hframes]

theorem Owns.atHandler (hm : m.Owns ({exception} + rest)) (hframes : m.stack.frames = f :: outer)
    (handler : UInt16) : (m.atHandler f handler).Owns ({exception} + rest) := by
  have hdropped : Owns { m with stack := m.stack.truncate f.stackBase }
      (m.stack.above f.stackBase + ({exception} + rest)) := by
    refine hm.rearrange rfl ?_
    rw [placed_truncate m f.stackBase, add_assoc]
  refine hdropped.releaseValues.rearrange rfl (congrArg (· + _) ?_)
  rw [placed_eq, placed_eq, stack_atHandler hframes]
  simp only [Stack.truncate, hframes, List.reverse_cons, List.flatMap_append, List.flatMap_cons,
    List.flatMap_nil]
  rfl

/-- With the exception as its only operand the call goes on. -/
theorem caught_put (hm : m.Owns ({exception} + rest)) (hframes : m.stack.frames = f :: outer)
    (handler : UInt16) (hroom : f.stackBase < m.stack.settings.stackSize) :
    m.Caught exception rest f outer handler
      { m.atHandler f handler with stack := (m.atHandler f handler).stack.put exception } := by
  refine ⟨?_, ?_, ?_, (hm.atHandler hframes handler).rearrange rfl ?_⟩
  · rw [Stack.put, stack_atHandler hframes]
  · rw [Stack.put, stack_atHandler hframes]
  · rw [if_pos hroom, Stack.put, stack_atHandler hframes]
    simp
  · rw [placed_eq, placed_eq]
    simp only [Stack.put, Array.toList_push, ← Multiset.coe_add, Multiset.coe_singleton]
    abel

/-- Without room for the exception there is none for the call to go on with. -/
theorem caught_release (hm : m.Owns ({exception} + rest)) (hframes : m.stack.frames = f :: outer)
    (handler : UInt16) (hroom : ¬f.stackBase < m.stack.settings.stackSize) :
    m.Caught exception rest f outer handler
      { m.atHandler f handler with heap := (m.atHandler f handler).heap.releaseValue exception } := by
  have hheld : (m.atHandler f handler).Owns (([exception] : List Value) + rest) :=
    hm.atHandler hframes handler
  refine ⟨?_, ?_, ?_, hheld.releaseValues⟩
  · rw [stack_atHandler hframes]
  · rw [stack_atHandler hframes]
  · rw [if_neg hroom, stack_atHandler hframes]
    simp

/-- The exception becomes the only operand of the call, or is released if there is no room. -/
theorem handleAt_eq (hs : m.stack.Nested limits) (hm : m.Owns ({exception} + rest))
    (hframes : m.stack.frames = f :: outer) (handler : UInt16) :
    ∃ m', m.Caught exception rest f outer handler m' ∧
      handleAt handler exception m =
        if f.stackBase < m.stack.settings.stackSize then .ok () m'
        else .error (.failed Stack.overflow) m' := by
  have hf : m.stack.frame? = some f := by rw [Stack.frame?, hframes, List.head?_cons]
  have hfloor : f.stackBase ≤ m.stack.size := by
    have := hs.floor_le
    rwa [Stack.floor, hf, Option.map_some, Option.getD_some] at this
  have hpush : handleAt handler exception m = push exception (m.atHandler f handler) := by
    rw [handleAt, bind_eq_of_ok (currentFrame_eq_ok hf)]
    rfl
  have hroom : (m.atHandler f handler).stack.hasRoom =
      decide (f.stackBase < m.stack.settings.stackSize) := by
    rw [Stack.hasRoom, stack_atHandler hframes, Array.size_shrink]
    exact congrArg (fun n => decide (n < _)) (min_eq_left hfloor)
  rw [hpush]
  by_cases hfits : f.stackBase < m.stack.settings.stackSize
  · refine ⟨_, caught_put hm hframes handler hfits, ?_⟩
    rw [if_pos hfits, push_eq_ok (hroom.trans (decide_eq_true hfits))]
  · refine ⟨_, caught_release hm hframes handler hfits, ?_⟩
    rw [if_neg hfits, push_eq_error (hroom.trans (decide_eq_false hfits))]

/-! ## From call to call -/

theorem unwind_of_some {handler : UInt16} (hfind : findHandler exception m = .ok (some handler) m')
    (n : Nat) : unwind exception (n + 1) m = plainly (handleAt handler exception) m' := by
  rw [unwind, bind_eq_of_ok (plainly_ok (onFault_ok hfind _))]

theorem unwind_of_none {m'' : Machine} (hfind : findHandler exception m = .ok none m')
    (hleave : leave m' = .ok () m'') (n : Nat) :
    unwind exception (n + 1) m = unwind exception n m'' := by
  rw [unwind, bind_eq_of_ok (plainly_ok (onFault_ok hfind _))]
  exact bind_eq_of_ok (plainly_ok hleave)

/-- A call without a handler ends, and the call around it is next. -/
theorem unwind_passes (hm : m.Owns ({exception} + rest)) (hframes : m.stack.frames = f :: fs)
    (hp : m.pools.code.Inspects m.image.entry.excEntrySize.toNat (f :: inner) (entries :: tables))
    (hpass : ExceptionTable.Passes m.heap.source exception f entries) (n : Nat) :
    ∃ m', unwind exception (n + 1) m = unwind exception n m' ∧ m.Ended exception rest m' ∧
      m'.pools.code.Inspects m'.image.entry.excEntrySize.toNat inner tables := by
  obtain ⟨code, hfind, hrest⟩ := findHandler_eq exception hframes hp
  rw [ExceptionTable.find?_eq_none_iff.2 hpass, Option.map_none] at hfind
  have hm₁ : Owns { m with pools := { m.pools with code } } ({exception} + rest) := hm
  obtain ⟨m', hleave, hended, hcode⟩ := leave_ends hm₁ hframes
  refine ⟨m', unwind_of_none hfind hleave n,
    ⟨hended.image, hended.stack, hended.owns, hended.inherits⟩, ?_⟩
  rw [hcode, hended.image]
  exact hrest

/-- The induction is on the calls without a handler. What is below the one with a handler
    is below everything that they have on the stack. -/
theorem unwind_caught (hs : m.stack.Nested limits) (hm : m.Owns ({exception} + rest))
    (hframes : m.stack.frames = inner ++ f :: outer) (hn : inner.length < n)
    (hp : m.pools.code.Inspects m.image.entry.excEntrySize.toNat (inner ++ [f]) (tables ++ [entries]))
    (hinner : List.Forall₂ (ExceptionTable.Passes m.heap.source exception) inner tables)
    (he : ExceptionTable.Catches m.heap.source exception f entries e) :
    ∃ m', m.Caught exception rest f outer e.handler m' ∧
      unwind exception n m =
        if f.stackBase < m.stack.settings.stackSize then .ok () m'
        else .error (.failed Stack.overflow) m' := by
  induction inner generalizing m n tables with
  | nil =>
    cases hinner
    obtain ⟨n, rfl⟩ := Nat.exists_eq_succ_of_ne_zero (Nat.ne_of_gt hn)
    -- This call has the handler. To look for it may read pages, and changes nothing else.
    obtain ⟨code, hfind, -⟩ := findHandler_eq exception hframes hp
    rw [ExceptionTable.find?_eq_some_iff.2 he, Option.map_some] at hfind
    have hm₁ : Owns { m with pools := { m.pools with code } } ({exception} + rest) := hm
    obtain ⟨m', hcaught, hhandle⟩ :=
      handleAt_eq (m := { m with pools := { m.pools with code } }) hs hm₁ hframes e.handler
    refine ⟨m', ⟨hcaught.settings, hcaught.frames, hcaught.values, hcaught.owns⟩, ?_⟩
    rw [Nat.succ_eq_add_one, unwind_of_some hfind, plainly, hhandle]
    dsimp only
    split_ifs <;> rfl
  | cons g inner ih =>
    obtain _ | ⟨hpass, hinner⟩ := hinner
    obtain ⟨n, rfl⟩ := Nat.exists_eq_succ_of_ne_zero (Nat.ne_of_gt (Nat.zero_lt_of_lt hn))
    -- This call has none and is ended. What it inherits by is the same for the calls below.
    obtain ⟨m₁, hunwind, hended, hp₁⟩ := unwind_passes hm hframes hp hpass n
    have hleft : m₁.stack = { m.stack with
        values := m.stack.values.shrink g.argBase, frames := inner ++ f :: outer } :=
      hended.stack.trans (Stack.left_of_cons hframes)
    have hs₁ : m₁.stack.Nested limits := hended.stack ▸ hs.left
    have hn : inner.length < n := Nat.lt_of_succ_lt_succ hn
    obtain ⟨m', hcaught, hresult⟩ := ih hs₁ hended.owns (by rw [hleft]) hn hp₁
      (hinner.imp fun _ _ => (ExceptionTable.Passes.congr hended.inherits).2)
      ((ExceptionTable.Catches.congr hended.inherits).2 he)
    have hsettings : m₁.stack.settings = m.stack.settings := by rw [hleft]
    refine ⟨m', ⟨hcaught.settings.trans hsettings, hcaught.frames, ?_, hcaught.owns⟩, ?_⟩
    · rw [hcaught.values, hsettings, hleft, Array.toList_shrink, List.take_take,
        min_eq_left (hs.stackBase_le_argBase hframes)]
    · rw [Nat.succ_eq_add_one, hunwind, hresult, hsettings]

/-- What is left when no call has had a handler for an exception. -/
structure Uncaught (m : Machine) (rest : Multiset Value) (f : Frame) (outer : List Frame)
    (m' : Machine) : Prop where
  /-- The limits of the stack are the same. -/
  settings : m'.stack.settings = m.stack.settings
  /-- The calls around the last one that has ended are as they were. -/
  frames : m'.stack.frames = outer
  /-- So are the values below its arguments. -/
  values : m'.stack.values.toList = m.stack.values.toList.take f.argBase
  /-- The counts are those of what is left. -/
  owns : m'.Owns rest

/-- The exception is released once its failure has been worked out. -/
theorem unwind_zero (hm : m.Owns ({exception} + rest)) :
    ∃ failure m', failure.code = .unhandledException ∧ m'.stack = m.stack ∧ m'.Owns rest ∧
      unwind exception 0 m = .error (.failed failure) m' := by
  have hends := unhandled_ends (m := m) exception
  cases hr : unhandled exception m with
  | error e m₁ =>
    rw [hr] at hends
    exact hends.elim
  | ok failure m₁ =>
    rw [hr] at hends
    obtain ⟨hcode, pools, -, rfl⟩ := hends
    have hheld : m.Owns (([exception] : List Value) + rest) := hm
    refine ⟨failure, { m with pools, heap := m.heap.releaseValue exception }, hcode, rfl,
      hheld.releaseValues, ?_⟩
    rw [unwind, bind_eq_of_ok (plainly_ok hr)]
    rfl

/-- The induction is on the calls inside of the last one that ends. -/
theorem unwind_uncaught (hs : m.stack.Nested limits) (hm : m.Owns ({exception} + rest))
    (hframes : m.stack.frames = inner ++ f :: outer)
    (hp : m.pools.code.Inspects m.image.entry.excEntrySize.toNat (inner ++ [f]) tables)
    (hpass : List.Forall₂ (ExceptionTable.Passes m.heap.source exception) (inner ++ [f]) tables) :
    ∃ failure m', failure.code = .unhandledException ∧ m.Uncaught rest f outer m' ∧
      unwind exception (inner.length + 1) m = .error (.failed failure) m' := by
  induction inner generalizing m tables with
  | nil =>
    obtain _ | ⟨hpass, -⟩ := hpass
    obtain ⟨m₁, hunwind, hended, -⟩ := unwind_passes hm hframes hp hpass 0
    obtain ⟨failure, m', hcode, hstack, howns, hresult⟩ := unwind_zero hended.owns
    have hleft := (hstack.trans hended.stack).trans (Stack.left_of_cons hframes)
    refine ⟨failure, m', hcode, ⟨?_, ?_, ?_, howns⟩, hunwind.trans hresult⟩
    · rw [hleft]
    · rw [hleft]
    · rw [hleft, Array.toList_shrink]
  | cons g inner ih =>
    obtain _ | ⟨hpass, hinner⟩ := hpass
    obtain ⟨m₁, hunwind, hended, hp₁⟩ := unwind_passes hm hframes hp hpass (inner.length + 1)
    have hleft : m₁.stack = { m.stack with
        values := m.stack.values.shrink g.argBase, frames := inner ++ f :: outer } :=
      hended.stack.trans (Stack.left_of_cons hframes)
    obtain ⟨failure, m', hcode, huncaught, hresult⟩ := ih (hended.stack ▸ hs.left) hended.owns
      (by rw [hleft]) hp₁ (hinner.imp fun _ _ => (ExceptionTable.Passes.congr hended.inherits).2)
    refine ⟨failure, m', hcode, ⟨?_, huncaught.frames, ?_, huncaught.owns⟩, hunwind.trans hresult⟩
    · rw [huncaught.settings, hleft]
    · rw [huncaught.values, hleft, Array.toList_shrink, List.take_take,
        min_eq_left ((hs.argBase_le_stackBase hframes).trans (hs.stackBase_le_argBase hframes))]

/-- An exception goes to the innermost call that has a handler for it where it is, as far
    out as the exception may go. There it takes the place of all operands, if there is room
    for it, and the call goes on at the first handler of its table; the calls inside of it
    have ended, and those around it are as they were. If no call has a handler, all calls
    that the exception may end have ended. What inherits from what is told by the objects
    there were at the start: those that are freed on the way make no difference. -/
theorem unwind_transfers (hs : m.stack.Nested limits) (hm : m.Owns ({exception} + rest))
    (hframes : m.stack.frames = inner ++ f :: outer) :
    (∀ floor tables entries e, floor ≤ outer.length →
      m.pools.code.Inspects m.image.entry.excEntrySize.toNat (inner ++ [f]) (tables ++ [entries]) →
      List.Forall₂ (ExceptionTable.Passes m.heap.source exception) inner tables →
      ExceptionTable.Catches m.heap.source exception f entries e →
      ∃ m', m.Caught exception rest f outer e.handler m' ∧
        unwind exception (m.stack.depth - floor) m =
          if f.stackBase < limits.stackSize then .ok () m'
          else .error (.failed Stack.overflow) m') ∧
    (∀ tables,
      m.pools.code.Inspects m.image.entry.excEntrySize.toNat (inner ++ [f]) tables →
      List.Forall₂ (ExceptionTable.Passes m.heap.source exception) (inner ++ [f]) tables →
      ∃ failure m', failure.code = .unhandledException ∧ m.Uncaught rest f outer m' ∧
        unwind exception (m.stack.depth - outer.length) m = .error (.failed failure) m') := by
  have hdepth : m.stack.depth = inner.length + 1 + outer.length := by
    rw [Stack.depth, hframes, List.length_append, List.length_cons]
    omega
  refine ⟨fun floor tables entries e hfloor hp hinner he => ?_, fun tables hp hpass => ?_⟩
  · rw [← hs.settings]
    exact unwind_caught hs hm hframes (by omega) hp hinner he
  · rw [hdepth, Nat.add_sub_cancel]
    exact unwind_uncaught hs hm hframes hp hpass

/-- The table of a call with two entries for one range, of which the exception below is of
    the second class only. -/
def twoClasses : List ExceptionEntry := [⟨10, 14, 9, 20⟩, ⟨10, 14, 1, 24⟩]

/-- A call that is at an instruction in that range. -/
def catcher : Frame := { header := { locals := 1, excTable := 32 }, current := 12, stackBase := 1 }

/-- A machine in which an exception is thrown. The class of the exception inherits from an
    image object, and the other count of this class is owned by a vector, which is freed
    when the inner call ends. -/
def throwing : Machine :=
  let page := (List.replicate 32 0 ++ ExceptionTable.encode twoClasses).toArray
  { (default : Machine) with
    heap := { Heap.new {} with
      slots := #[{}, ⟨0, some ⟨⟨0, .program [] .empty⟩, 0, true⟩⟩,
        ⟨1, some ⟨⟨0, .program [⟨1, 0⟩] .empty⟩, 2, false⟩⟩,
        ⟨1, some ⟨⟨0, .program [⟨2, 1⟩] .empty⟩, 1, false⟩⟩,
        ⟨1, some ⟨⟨1, .vector [.obj ⟨2, 1⟩]⟩, 1, false⟩⟩] }
    pools := { (default : Pools) with code := .memory ⟨⟨1, 1, 64⟩, #[some page]⟩ }
    stack := {
      settings := {}
      values := #[.int 7, .int 5, .obj ⟨4, 1⟩]
      frames := [{ argBase := 2, localBase := 2, stackBase := 2 }, catcher] } }

theorem unwind_transfers_throwing :
    ∃ m', unwind (.obj ⟨3, 1⟩) 2 throwing = .ok () m' ∧
      m'.stack.frames = [{ catcher with next := 24 }] ∧
      m'.stack.values.toList = [.int 7, .obj ⟨3, 1⟩] ∧ m'.Owns 0 := by
  have hs : throwing.stack.Nested {} := by
    refine ⟨rfl, ?_, ?_, ?_, ?_, ?_, ?_⟩ <;> decide
  have hm : throwing.Owns ({.obj ⟨3, 1⟩} + 0) := Heap.exact_of_slots (by decide +kernel)
  have hframes : throwing.stack.frames =
      [{ argBase := 2, localBase := 2, stackBase := 2 }] ++ catcher :: [] := rfl
  have htable : throwing.pools.code.Inspects throwing.image.entry.excEntrySize.toNat
      ([{ argBase := 2, localBase := 2, stackBase := 2 }] ++ [catcher]) ([[]] ++ [twoClasses]) := by
    refine Pool.inspects_memory_iff.2 (.cons rfl (.cons ?_ .nil))
    rw [MemoryPool.HasTable, if_neg (by decide)]
    exact ⟨_, rfl, rfl⟩
  have hcatches : ExceptionTable.Catches throwing.heap.source (.obj ⟨3, 1⟩) catcher twoClasses
      ⟨10, 14, 1, 24⟩ := ExceptionTable.find?_eq_some_iff.1 (by decide +kernel)
  obtain ⟨m', hcaught, hresult⟩ := (unwind_transfers hs hm hframes).1 0 _ _ _ le_rfl htable
    (.cons (by simp [ExceptionTable.Passes]) .nil) hcatches
  exact ⟨m', hresult, hcaught.frames, hcaught.values, hcaught.owns⟩

end Machine

end StoryMachine
