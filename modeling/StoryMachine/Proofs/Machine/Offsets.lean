import StoryMachine.Proofs.Machine.Moments

/-!
# Offsets of code

Offsets of code have thirty-two bits. The places of the first instruction of a method, of the
next instruction, of the table of exceptions and of a handler are all found by adding
something to another offset. None of these sums wraps around if the code ends early enough
before the largest offset there is. No check on an image sees to that: if the header of a
method takes up the last bytes that have an offset, then the call goes on at the start of the
code pool, which is before the method.

* `codeLimit`: what is early enough;
* `OffsetsFit`: offsets that do not wrap around;
* `offsets_fit`, `not_offsets_fit`: when they do not, and a case in which they do.
-/

namespace StoryMachine

namespace Machine

variable {base m : Machine}

/-- No sum of offsets wraps around, and no call has got to before its method. -/
structure OffsetsFit (m : Machine) : Prop where
  /-- No instruction that is being executed is before its method. -/
  current : ∀ f ∈ m.stack.frames, f.method ≤ f.current
  /-- Nor is the next one. -/
  next : ∀ f ∈ m.stack.frames, f.method ≤ f.next
  /-- The first instruction of a method whose header can be read. -/
  enters : ∀ pools ofs bs, m.pools.Later pools → (pools.readCode ofs MethodHeader.size).1 = .ok bs →
    ofs.toNat + m.image.entry.headerSize.toNat < UInt32.size
  /-- What comes after an instruction that can be read. -/
  fetches : ∀ f ∈ m.stack.frames, ∀ pools slice p, m.pools.Later pools →
    (pools.codeSlice f.next).1 = .ok slice →
      Instr.decode (slice.front Instr.maxLength) = .ok p → f.next.toNat + p.2 < UInt32.size
  /-- The table of exceptions. -/
  finds : ∀ f ∈ m.stack.frames, f.method.toNat + f.header.excTable.toNat < UInt32.size
  /-- The handlers in it. -/
  handles : ∀ f ∈ m.stack.frames, ∀ handler : UInt16,
    f.method.toNat + handler.toNat < UInt32.size

theorem Housed.offsetsFit (hm : m.Housed base) (hends : base.pools.code.EndsBy codeLimit) :
    m.OffsetsFit where
  current f hf := (hm.placed hends f hf).current
  next f hf := (hm.placed hends f hf).next
  enters pools ofs bs hpools hbs := by
    have hlater := (hpools.trans (pools.later_readCode ofs MethodHeader.size)).code
    exact (Pool.shows_of_readCode hbs).add_lt (hlater.samePins.ends _ (hm.ends _ hends)) _
  fetches f hf pools slice p hpools hslice hdecode := by
    have hlater := (hpools.trans (pools.later_codeSlice f.next)).code
    exact (Pool.shows_of_decode hslice hdecode).lt (hlater.samePins.ends _ (hm.ends _ hends))
  finds f hf := (hm.shown f hf).add_lt (hm.ends _ hends) _
  handles f hf handler := (hm.shown f hf).add_lt (hm.ends _ hends) _

/-- Offsets do not wrap around, whatever has happened, if the code ends early enough. -/
theorem offsets_fit {bs : Bytes} {settings : MachineSettings} {host : Host}
    (hload : load bs settings host = .ok base) (hends : base.pools.code.EndsBy codeLimit)
    (hm : Moment base m) : m.OffsetsFit :=
  (hm.inOrder hload).housed.offsetsFit hends

/-- One page that has its usual size ends early enough. -/
theorem offsets_fit_caller : ∃ base m, load caller {} {} = .ok base ∧
    base.pools.code.EndsBy codeLimit ∧ Moment base m ∧ m.stack.depth = 1 ∧ m.OffsetsFit := by
  have hrun : (load caller {} {}).toOption.any (fun base =>
      base.stack.frames.isEmpty && (past prepare base).stack.depth == 1 &&
        base.pools.code.geometry == ⟨codePool, 1, 4096⟩) = true := by decide +kernel
  obtain ⟨base, hload, hrun⟩ := exists_load_of_any hrun
  simp only [Bool.and_eq_true, List.isEmpty_iff, beq_iff_eq] at hrun
  obtain ⟨⟨hidle, hdepth⟩, hgeometry⟩ := hrun
  have hends : base.pools.code.EndsBy codeLimit := by
    refine (accepted_of_load hload).inBounds.1.endsBy ?_
    rw [hgeometry]
    decide
  have hm : Moment base (past prepare base) := .prepare .load hidle
  exact ⟨base, _, hload, hends, hm, hdepth, offsets_fit hload hends hm⟩

/-- An image with so many pages of code, of which only these are there, and whose first function
    is at an offset. -/
def sparse (pageCount pageSize : UInt32) (pages : List (UInt32 × Bytes)) (entry : UInt32) : Bytes :=
  let draft : ImageDraft :=
    { metaclasses := #[("list", [])], objects := #[⟨1, 0, [0, 0]⟩], entry? := some entry }
  let definition := Bytes.u16 codePool ++ Bytes.u32 pageCount ++ Bytes.u32 pageSize
  let pages := pages.flatMap fun (i, page) =>
    Block.encode Block.poolPage true (Bytes.u16 codePool ++ Bytes.u32 i ++ 0 :: page)
  Image.signature ++ Bytes.u16 draft.version ++ draft.metaclassBlock ++ draft.functionSetBlock ++
    Block.encode Block.poolDefinition true definition ++ pages ++ draft.objectBlocks ++
      draft.entryBlock ++ Block.encode Block.eof true []

/-- A function whose header takes up the last ten bytes that have an offset, and what is at the
    start of the pool. -/
def lastMethod : Bytes :=
  sparse 3 2147483643
    [(0, [Instr.pushInt 42, Instr.ret].flatMap Assembler.encode), (2, MethodHeader.encode {})]
    4294967286

/-- The call goes on with what is at the start of the pool. -/
theorem not_offsets_fit : ¬∀ (bs : Bytes) (settings : MachineSettings) (host : Host)
    (base m : Machine), load bs settings host = .ok base → Moment base m → m.OffsetsFit := by
  have hrun : (load lastMethod {} {}).toOption.any (fun base =>
      base.stack.frames.isEmpty && (past prepare base).stack.frames.any (fun f => f.next < f.method)) =
        true := by decide +kernel
  obtain ⟨base, hload, hrun⟩ := exists_load_of_any hrun
  simp only [Bool.and_eq_true, List.isEmpty_iff, List.any_eq_true, decide_eq_true_eq] at hrun
  obtain ⟨hidle, f, hf, hnext⟩ := hrun
  intro h
  exact UInt32.not_le.2 hnext ((h _ _ _ base _ hload (.prepare .load hidle)).next f hf)

example : (load lastMethod {} {}).toOption.map (fun base => (base.run 2).1) =
    some (.completed (.int 42)) := by decide +kernel

end Machine

end StoryMachine
