import StoryMachine.Code.Assembler
import StoryMachine.Proofs.Bytes

/-!
# The listing of assembled code

An assembler is used by *calls*, each of which adds an instruction or binds the label of
a forward jump. Whatever the calls are, the listing of the bytes in the end has a line
for each instruction that was added, at the offset that the assembler gave before the
call. Binding a label goes back to a jump that has been written: no byte is changed by
it but those of the offset of that jump.

* `Instr.decode_encode`: an instruction is read back from its bytes;
* `Instr.length_le_of_decode`: none is longer than the bytes that it is read from;
* `Assembly.Call`, `Assembly.perform`: the calls, and what each of them does;
* `Assembly.getElem?_run`, `Assembly.operand?_run`: the bytes that no later call changes,
  and those of a jump, which the last call that binds its label decides;
* `Assembly.lines`: the instructions that calls ask for, where a jump goes to where its
  label is bound later;
* `Assembly.drop_run`: the bytes are theirs;
* `Assembly.listing_run`: the listing has these lines, and no error.
-/

namespace StoryMachine

/-! ## A single instruction -/

theorem Reader.reads_i16 (n : Int16) : Reads i16 (Bytes.u16 n.toUInt16) n :=
  (reads_u16 n.toUInt16).map UInt16.toInt16

namespace Op

theorem ofByte?_byte (op : Op) : ofByte? op.byte = some op := by
  cases op <;> rfl

end Op

namespace Instr

/-- The instructions without operands. -/
def plain : List Instr :=
  [nop, pushNil, pushTrue, pushSelf, dup, discard, swap, arith .add, arith .sub, arith .mul,
   arith .div, arith .mod, neg, not, compare .eq, compare .ne, compare .lt, compare .le,
   compare .gt, compare .ge, index, setIndex, ret, retNil, retTrue, throw]

/-- The instruction of an operation, if the operation has no operands. -/
def ofOp? (op : Op) : Option Instr := plain.find? (·.op == op)

theorem exists_ofOp? {op : Op} (hop : op.operandLength = 0) :
    ∃ i, ofOp? op = some i ∧ Assembler.encode i = [op.byte] := by
  cases op <;> first | exact ⟨_, rfl, rfl⟩ | cases hop

/-- What is read for an operation is what has been written for its instruction. An integer
    push is written in two ways. -/
theorem reads_operands {i : Instr} (hi : ∀ n, i ≠ pushInt n) :
    (operands i.op).Reads (Assembler.encode.operandBytes i) i := by
  cases i with
  | pushInt n => exact absurd rfl (hi n)
  | pushStr ofs => exact (Reader.reads_u32 ofs).map pushStr
  | pushList ofs => exact (Reader.reads_u32 ofs).map pushList
  | pushObj n => exact (Reader.reads_u32 n).map pushObj
  | pushProp p => exact (Reader.reads_u16 p).map pushProp
  | pushFnPtr ofs => exact (Reader.reads_u32 ofs).map pushFnPtr
  | getArg n => exact (Reader.reads_u8 n).map getArg
  | getLocal n => exact (Reader.reads_u16 n).map getLocal
  | setLocal n => exact (Reader.reads_u16 n).map setLocal
  | getGlobal n => exact (Reader.reads_u16 n).map getGlobal
  | setGlobal n => exact (Reader.reads_u16 n).map setGlobal
  | arith a => cases a <;> exact .pure _
  | compare rel => cases rel <;> exact .pure _
  | jump cond offset => cases cond <;> exact (Reader.reads_i16 offset).map _
  | getProp p => exact (Reader.reads_u16 p).map getProp
  | getPropSelf p => exact (Reader.reads_u16 p).map getPropSelf
  | setProp p => exact (Reader.reads_u16 p).map setProp
  | setPropSelf p => exact (Reader.reads_u16 p).map setPropSelf
  | callProp argc p => exact (Reader.reads_u8 argc).bind ((Reader.reads_u16 p).map _)
  | callPropSelf argc p => exact (Reader.reads_u8 argc).bind ((Reader.reads_u16 p).map _)
  | inherited argc p => exact (Reader.reads_u8 argc).bind ((Reader.reads_u16 p).map _)
  | call argc ofs => exact (Reader.reads_u8 argc).bind ((Reader.reads_u32 ofs).map _)
  | ptrCall argc => exact (Reader.reads_u8 argc).map ptrCall
  | builtin argc func set =>
    exact (Reader.reads_u8 argc).bind ((Reader.reads_u16 func).bind ((Reader.reads_u8 set).map _))
  | new argc metaclass => exact (Reader.reads_u8 argc).bind ((Reader.reads_u16 metaclass).map _)
  | _ => exact .pure _

theorem length_operandBytes {i : Instr} (hi : ∀ n, i ≠ pushInt n) :
    (Assembler.encode.operandBytes i).length = i.op.operandLength := by
  cases i with
  | pushInt n => exact absurd rfl (hi n)
  | arith a => cases a <;> rfl
  | compare rel => cases rel <;> rfl
  | jump cond offset => cases cond <;> rfl
  | _ => rfl

theorem decode_of_reads {op : Op} {bs : Bytes} {i : Instr} (hread : (operands op).Reads bs i)
    (hlength : bs.length = op.operandLength) (rest : Bytes) :
    decode (op.byte :: bs ++ rest) = .ok (i, (op.byte :: bs).length) := by
  simp only [decode, List.cons_append, Op.ofByte?_byte, hread rest, List.length_cons, hlength,
    Nat.add_comm]

/-- A number that has eight bits is the same when it is read back from them. -/
theorem toInt32_toInt8 {n : Int32} (hn : -128 ≤ n.toInt ∧ n.toInt ≤ 127) :
    n.toInt8.toInt32 = n := by
  apply Int32.toInt_inj.1
  rw [Int8.toInt_toInt32, Int32.toInt_toInt8, Int.bmod_eq_of_le] <;> omega

/-- An instruction is read back from its bytes, whatever comes after them. -/
theorem decode_encode (i : Instr) (rest : Bytes) :
    decode (Assembler.encode i ++ rest) = .ok (i, (Assembler.encode i).length) := by
  by_cases hi : ∃ n, i = pushInt n
  · obtain ⟨n, rfl⟩ := hi
    rw [Assembler.encode, Assembler.pushIntBytes]
    split
    · next hn =>
      have hread := (Reader.reads_u8 n.toInt8.toUInt8).map fun b => pushInt b.toInt8.toInt32
      have hback : n.toInt8.toUInt8.toInt8.toInt32 = n := toInt32_toInt8 hn
      rw [hback] at hread
      exact @decode_of_reads .pushInt8 _ _ hread rfl rest
    · have hread := (Reader.reads_u32 n.toUInt32).map fun d => pushInt d.toInt32
      exact @decode_of_reads .pushInt _ _ hread rfl rest
  · have hi : ∀ n, i ≠ pushInt n := fun n hn => hi ⟨n, hn⟩
    have hencode : Assembler.encode i = i.op.byte :: Assembler.encode.operandBytes i := by
      cases i <;> first | rfl | exact absurd rfl (hi _)
    rw [hencode]
    exact decode_of_reads (reads_operands hi) (length_operandBytes hi) rest

/-- So many bytes of operands are read as the operation has. -/
theorem fixed_operands (op : Op) : (operands op).Fixed op.operandLength := by
  cases op with
  | pushInt8 | getArg | ptrCall => exact Reader.fixed_u8.bind fun _ => .pure _
  | pushProp | getLocal | setLocal | getGlobal | setGlobal | getProp | getPropSelf | setProp
  | setPropSelf => exact Reader.fixed_u16.bind fun _ => .pure _
  | jmp | jt | jf => exact (Reader.fixed_u16.bind fun _ => .pure _).bind fun _ => .pure _
  | callProp | callPropSelf | inherited | new =>
    exact Reader.fixed_u8.bind fun _ => Reader.fixed_u16.bind fun _ => .pure _
  | pushInt | pushStr | pushList | pushObj | pushFnPtr =>
    exact Reader.fixed_u32.bind fun _ => .pure _
  | builtin =>
    exact Reader.fixed_u8.bind fun _ => Reader.fixed_u16.bind fun _ =>
      Reader.fixed_u8.bind fun _ => .pure _
  | call => exact Reader.fixed_u8.bind fun _ => Reader.fixed_u32.bind fun _ => .pure _
  | _ => exact .pure _

/-- Where the operands are there, they are read from their bytes alone. -/
theorem exists_decode_of_le {b : UInt8} {op : Op} {rest : Bytes} (hop : Op.ofByte? b = some op)
    (hrest : op.operandLength ≤ rest.length) : ∃ i,
      decode (b :: rest) = .ok (i, 1 + op.operandLength) ∧
        operands op rest = some (i, rest.drop op.operandLength) ∧
          ∀ more, decode (b :: rest.take op.operandLength ++ more) =
            .ok (i, 1 + op.operandLength) := by
  obtain ⟨i, hread, hi⟩ := (fixed_operands op).exists_of_le hrest
  refine ⟨i, by simp only [decode, hop, hi], hi, fun more => ?_⟩
  simp only [List.cons_append, decode, hop, hread more]

/-- Where a part of the operands is missing, nothing is read. -/
theorem decode_of_lt {b : UInt8} {op : Op} {rest : Bytes} (hop : Op.ofByte? b = some op)
    (hrest : rest.length < op.operandLength) : decode (b :: rest) = .error (.truncated 0) := by
  simp only [decode, hop, (fixed_operands op).few rest hrest]

theorem decode_of_none {b : UInt8} (hb : Op.ofByte? b = none) (rest : Bytes) :
    decode (b :: rest) = .error (.invalidOpcode b 0) := by
  rw [decode, hb]

/-- An instruction is no longer than the bytes that it was read from. -/
theorem length_le_of_decode {bs : Bytes} {i : Instr} {n : Nat} (hok : decode bs = .ok (i, n)) :
    n ≤ bs.length := by
  rcases bs with _ | ⟨b, rest⟩
  · cases hok
  cases hop : Op.ofByte? b with
  | none =>
    rw [decode_of_none hop] at hok
    cases hok
  | some op =>
    by_cases hrest : op.operandLength ≤ rest.length
    · obtain ⟨i', hi', -, -⟩ := exists_decode_of_le hop hrest
      obtain ⟨-, rfl⟩ := Prod.mk.inj (Except.ok.inj (hi'.symm.trans hok))
      rw [List.length_cons, Nat.add_comm]
      exact Nat.succ_le_succ hrest
    · rw [decode_of_lt hop (Nat.lt_of_not_le hrest)] at hok
      cases hok

end Instr

/-- The bytes of an instruction are a line of the listing. -/
theorem Listing.ofBytesAt_encode (base : Nat) (i : Instr) (rest : Bytes) :
    ofBytesAt base (Assembler.encode i ++ rest) =
      ⟨(base, i) :: (ofBytesAt (base + (Assembler.encode i).length) rest).lines,
        (ofBytesAt (base + (Assembler.encode i).length) rest).error?⟩ := by
  have hlength : (Assembler.encode i).length ≠ 0 := by
    cases i <;> first | exact Nat.succ_ne_zero _ | skip
    rw [Assembler.encode, Assembler.pushIntBytes]
    split <;> exact Nat.succ_ne_zero _
  have hne : Assembler.encode i ++ rest ≠ [] := fun hnil =>
    hlength (by rw [(List.append_eq_nil_iff.1 hnil).1, List.length_nil])
  rw [ofBytesAt, if_neg hne, Instr.decode_encode]
  simp only [if_neg hlength, List.drop_left]

/-! ## Bytes of code under construction -/

namespace Assembler

variable {a : Assembler} {bs : Bytes} {l : Label} {j : Nat}

theorem toList_append : (a.append bs).code.toList = a.code.toList ++ bs :=
  Array.toList_appendList

theorem offset_append : (a.append bs).offset = a.offset + bs.length := by
  rw [offset, ← Array.length_toList, toList_append, List.length_append, Array.length_toList,
    offset]

theorem offset_bind : (a.bind l).offset = a.offset := by
  simp [bind, offset]

theorem getElem?_append_of_lt (hj : j < a.offset) : (a.append bs).code[j]? = a.code[j]? := by
  rw [← Array.getElem?_toList, toList_append, List.getElem?_append_left hj, Array.getElem?_toList]

/-- The bytes that are added begin where the code ended. -/
theorem getElem?_append_add (k : Nat) : (a.append bs).code[a.offset + k]? = bs[k]? := by
  rw [offset, ← Array.length_toList, ← Array.getElem?_toList, toList_append,
    List.getElem?_append_right (Nat.le_add_right ..), Nat.add_sub_cancel_left]

theorem getElem?_bind_of_ne (hne : j ≠ l.operandAt ∧ j ≠ l.operandAt + 1) :
    (a.bind l).code[j]? = a.code[j]? := by
  rw [bind, Array.getElem?_setIfInBounds_ne hne.2.symm, Array.getElem?_setIfInBounds_ne hne.1.symm]

/-- The two bytes of the offset of the jump that a label belongs to. -/
def operand? (a : Assembler) (l : Label) : Option UInt8 × Option UInt8 :=
  (a.code[l.operandAt]?, a.code[l.operandAt + 1]?)

/-- An offset, as the two bytes that stand for it. -/
def offsetBytes (d : Int16) : Option UInt8 × Option UInt8 :=
  ((Bytes.u16 d.toUInt16)[0]?, (Bytes.u16 d.toUInt16)[1]?)

theorem operand?_bind (hl : l.operandAt + 1 < a.offset) :
    (a.bind l).operand? l = offsetBytes (distance l.base a.offset) := by
  have hfirst : l.operandAt < a.code.size := Nat.lt_of_succ_lt hl
  simp only [operand?, bind, offsetBytes]
  rw [Array.getElem?_setIfInBounds_ne (Nat.succ_ne_self _),
    Array.getElem?_setIfInBounds_self_of_lt hfirst,
    Array.getElem?_setIfInBounds_self_of_lt (by rwa [Array.size_setIfInBounds])]
  rfl

end Assembler

/-! ## Calls -/

/-- An assembler in use, with the labels of its forward jumps, in order. -/
structure Assembly where
  /-- The code so far. -/
  code : Assembler := .bare
  /-- The label of each forward jump. -/
  labels : List Assembler.Label := []

namespace Assembly

/-- A use of an assembler. -/
inductive Call where
  /-- Adds an operation, which has no operands. -/
  | operation (op : Op) (hop : op.operandLength = 0)
  /-- Adds an instruction with its operands. -/
  | emit (i : Instr)
  /-- Adds a forward jump. -/
  | jump (cond : Condition)
  /-- Makes the `n`th forward jump go to the end of the code so far. -/
  | bind (n : Nat)
  /-- Adds a jump to an offset that is known. -/
  | jumpTo (cond : Condition) (target : Nat)
deriving DecidableEq

/-- Whether the call adds an instruction. -/
def Call.emits : Call → Bool
  | bind _ => false
  | _ => true

/-- What is there after a call. There may be no forward jump for the label to belong to. -/
def perform (a : Assembly) : Call → Assembly
  | .operation op _ => { a with code := a.code.operation op }
  | .emit i => { a with code := a.code.emit i }
  | .jump cond =>
    let (l, code) := a.code.jump cond
    { code, labels := a.labels ++ [l] }
  | .bind n =>
    match a.labels[n]? with
    | none => a
    | some l => { a with code := a.code.bind l }
  | .jumpTo cond target => { a with code := a.code.jumpTo cond target }

/-- What is there after calls. -/
def run (a : Assembly) (calls : List Call) : Assembly := calls.foldl perform a

/-- Where the code ends when the label of the `n`th forward jump is bound for the last time. -/
def boundAt? (a : Assembly) (n : Nat) : List Call → Option Nat
  | [] => none
  | c :: later =>
    ((a.perform c).boundAt? n later).or (if c = .bind n then some a.code.offset else none)

/-- The offset of a forward jump when others come after it: the jump goes to where its label is
    bound, and nowhere if that never happens. -/
def jumpOffset (a : Assembly) (cond : Condition) (later : List Call) : Int16 :=
  match (a.perform (.jump cond)).boundAt? a.labels.length later with
  | none => 0
  | some target => Assembler.distance (a.code.offset + 3) target

/-- The instruction that a call asks for, when others come after it. -/
def instr? (a : Assembly) (later : List Call) : Call → Option Instr
  | .operation op _ => Instr.ofOp? op
  | .emit i => some i
  | .jump cond => some (.jump cond (a.jumpOffset cond later))
  | .bind _ => none
  | .jumpTo cond target =>
    some (.jump cond (Assembler.distance (a.code.offset + 3) target))

/-- The instructions that calls ask for, each with the end of the code before its call. -/
def lines (a : Assembly) : List Call → List (Nat × Instr)
  | [] => []
  | c :: later =>
    (a.instr? later c).toList.map (a.code.offset, ·) ++ (a.perform c).lines later

/-- Labels of forward jumps whose bytes are inside of the code and do not overlap. -/
structure Spaced (a : Assembly) : Prop where
  inside : ∀ l ∈ a.labels, l.operandAt + 1 < a.code.offset
  apart : a.labels.Pairwise fun l l' => l.operandAt + 1 < l'.operandAt

variable {a : Assembly} {c : Call} {calls : List Call} {j n : Nat} {l : Assembler.Label}

/-- The bytes that a call adds to the code. -/
def Call.bytes (a : Assembly) : Call → Bytes
  | .operation op _ => [op.byte]
  | .emit i => Assembler.encode i
  | .jump cond => Assembler.encode (.jump cond 0)
  | .bind _ => []
  | .jumpTo cond target =>
    Assembler.encode (.jump cond (Assembler.distance (a.code.offset + 3) target))

/-- A call that adds an instruction adds its bytes. -/
theorem perform_code (hc : ∀ n, c ≠ .bind n) : (a.perform c).code = a.code.append (c.bytes a) := by
  cases c with
  | bind n => exact absurd rfl (hc n)
  | _ => rfl

theorem offset_perform (a : Assembly) (c : Call) :
    (a.perform c).code.offset = a.code.offset + (c.bytes a).length := by
  by_cases hc : ∃ n, c = .bind n
  · obtain ⟨n, rfl⟩ := hc
    rw [perform]
    split <;> simp [Call.bytes, Assembler.offset_bind]
  · rw [perform_code fun n hn => hc ⟨n, hn⟩, Assembler.offset_append]

/-- The label of a forward jump that is added. -/
def nextLabel (a : Assembly) : Assembler.Label :=
  { operandAt := a.code.offset + 1, base := a.code.offset + 3 }

theorem operandAt_nextLabel (a : Assembly) : a.nextLabel.operandAt = a.code.offset + 1 := rfl

/-- A call may add the label of the jump that it has added. -/
theorem labels_perform (a : Assembly) (c : Call) :
    (a.perform c).labels = a.labels ∨
      ∃ cond, c = .jump cond ∧ (a.perform c).labels = a.labels ++ [a.nextLabel] := by
  cases c with
  | bind n =>
    rw [perform]
    split <;> exact .inl rfl
  | jump cond =>
    refine .inr ⟨cond, rfl, ?_⟩
    have hbase : (a.code.emit (.jump cond 0)).offset = a.code.offset + 3 := by
      rw [Assembler.emit, Assembler.offset_append]
      cases cond <;> rfl
    rw [perform, Assembler.jump, hbase, nextLabel]
  | _ => exact .inl rfl

theorem Spaced.perform (hs : a.Spaced) (c : Call) : (a.perform c).Spaced := by
  have hoffset := offset_perform a c
  rcases labels_perform a c with hlabels | ⟨cond, rfl, hlabels⟩
  · -- The labels are the same, and the code does not get shorter.
    refine ⟨fun l hl => ?_, hlabels ▸ hs.apart⟩
    have := hs.inside l (hlabels ▸ hl)
    omega
  · -- The new label is behind the others, as its jump is behind all the code.
    have hlength : (Call.bytes a (.jump cond)).length = 3 := by cases cond <;> rfl
    have hsingle := List.pairwise_singleton (fun l l' : Assembler.Label =>
      l.operandAt + 1 < l'.operandAt) a.nextLabel
    refine ⟨fun l hl => ?_, hlabels ▸ List.pairwise_append.2 ⟨hs.apart, hsingle, ?_⟩⟩
    · rw [hlabels, List.mem_append, List.mem_singleton] at hl
      rcases hl with hl | rfl
      · have := hs.inside l hl
        omega
      · have := operandAt_nextLabel a
        omega
    · intro l hl l' hl'
      rw [List.mem_singleton.1 hl']
      exact Nat.lt_succ_of_lt (hs.inside l hl)

theorem getElem?_labels_perform (hl : a.labels[n]? = some l) (c : Call) :
    (a.perform c).labels[n]? = some l := by
  rcases labels_perform a c with hlabels | ⟨cond, rfl, hlabels⟩
  · rw [hlabels, hl]
  · rw [hlabels, List.getElem?_append_left (List.getElem?_eq_some_iff.1 hl).1, hl]

/-- A byte that is there before a call is there after it, unless the call binds a label to
    whose jump the byte belongs. -/
theorem getElem?_perform (hj : j < a.code.offset)
    (hout : ∀ n l, c = .bind n → a.labels[n]? = some l → j ≠ l.operandAt ∧ j ≠ l.operandAt + 1) :
    (a.perform c).code.code[j]? = a.code.code[j]? := by
  by_cases hc : ∃ n, c = .bind n
  · obtain ⟨n, rfl⟩ := hc
    rw [perform]
    split
    · rfl
    · next l hl => exact Assembler.getElem?_bind_of_ne (hout n l rfl hl)
  · rw [perform_code fun n hn => hc ⟨n, hn⟩, Assembler.getElem?_append_of_lt hj]

/-- No call changes a byte that belongs to no jump with a label. -/
theorem getElem?_run (hj : j < a.code.offset)
    (hout : ∀ l ∈ a.labels, j ≠ l.operandAt ∧ j ≠ l.operandAt + 1) (calls : List Call) :
    (a.run calls).code.code[j]? = a.code.code[j]? := by
  induction calls generalizing a with
  | nil => rfl
  | cons c calls ih =>
    have hbefore : j < (a.perform c).code.offset :=
      Nat.lt_of_lt_of_le hj (offset_perform a c ▸ Nat.le_add_right ..)
    refine (ih hbefore fun l hl => ?_).trans
      (getElem?_perform hj fun n l _ hl => hout l (List.mem_of_getElem? hl))
    rcases labels_perform a c with hlabels | ⟨cond, rfl, hlabels⟩
    · exact hout l (hlabels ▸ hl)
    · -- The new label is behind all the bytes that were there.
      rw [hlabels, List.mem_append, List.mem_singleton] at hl
      rcases hl with hl | rfl
      · exact hout l hl
      · have := operandAt_nextLabel a
        omega

theorem operand?_perform (hs : a.Spaced) (hl : a.labels[n]? = some l) (c : Call) :
    (a.perform c).code.operand? l =
      if c = .bind n then Assembler.offsetBytes (Assembler.distance l.base a.code.offset)
      else a.code.operand? l := by
  have hinside := hs.inside l (List.mem_of_getElem? hl)
  split
  · next hc =>
    rw [hc, perform, hl]
    exact Assembler.operand?_bind hinside
  · next hc =>
    -- Another label belongs to a jump before this one or after it.
    have hother : ∀ m k, c = .bind m → a.labels[m]? = some k →
        l.operandAt + 1 < k.operandAt ∨ k.operandAt + 1 < l.operandAt := by
      intro m k hm hk
      have hne : m ≠ n := fun h => hc (h ▸ hm)
      obtain ⟨hmlt, rfl⟩ := List.getElem?_eq_some_iff.1 hk
      obtain ⟨hnlt, rfl⟩ := List.getElem?_eq_some_iff.1 hl
      have hpairs := List.pairwise_iff_getElem.1 hs.apart
      rcases Nat.lt_or_gt_of_ne hne with hlt | hlt
      · exact .inr (hpairs m n hmlt hnlt hlt)
      · exact .inl (hpairs n m hnlt hmlt hlt)
    refine Prod.ext (getElem?_perform (by omega) fun m k hm hk => ?_)
      (getElem?_perform hinside fun m k hm hk => ?_) <;>
    · have := hother m k hm hk
      omega

/-- The offset of a forward jump in the end goes to where its label is bound last. -/
theorem operand?_run (hs : a.Spaced) (hl : a.labels[n]? = some l) (calls : List Call) :
    (a.run calls).code.operand? l =
      match a.boundAt? n calls with
      | none => a.code.operand? l
      | some target => Assembler.offsetBytes (Assembler.distance l.base target) := by
  induction calls generalizing a with
  | nil => rfl
  | cons c calls ih =>
    refine (ih (hs.perform c) (getElem?_labels_perform hl c)).trans ?_
    rw [operand?_perform hs hl, boundAt?]
    -- A later call that binds the label undoes what this one does.
    cases (a.perform c).boundAt? n calls with
    | some target => rfl
    | none => by_cases hc : c = .bind n <;> simp [hc]

/-! ## The listing -/

theorem getElem?_labels_jump (a : Assembly) (cond : Condition) :
    (a.perform (.jump cond)).labels[a.labels.length]? = some a.nextLabel := by
  rcases labels_perform a (.jump cond) with hlabels | ⟨_, -, hlabels⟩
  · exact absurd hlabels (by simp [perform, Assembler.jump])
  · rw [hlabels, List.getElem?_concat_length]

/-- The offset of a forward jump, once all calls have been made. -/
theorem operand?_run_jump (hs : a.Spaced) (cond : Condition) (later : List Call) :
    ((a.perform (.jump cond)).run later).code.operand? a.nextLabel =
      Assembler.offsetBytes (a.jumpOffset cond later) := by
  rw [operand?_run (hs.perform _) (getElem?_labels_jump a cond), jumpOffset]
  cases (a.perform (.jump cond)).boundAt? a.labels.length later with
  | some target => rfl
  | none =>
    refine Prod.ext ?_ ?_
    · exact (Assembler.getElem?_append_add 1).trans (by cases cond <;> rfl)
    · exact (Assembler.getElem?_append_add 2).trans (by cases cond <;> rfl)

/-- The bytes that a call adds are those of its instruction, other than the offset of a forward
    jump. -/
theorem encode_of_instr? {later : List Call} {i : Instr} (hi : a.instr? later c = some i)
    (hc : ∀ cond, c ≠ .jump cond) : Assembler.encode i = c.bytes a := by
  cases c with
  | operation op hop =>
    obtain ⟨j, hj, hbytes⟩ := Instr.exists_ofOp? hop
    obtain rfl : j = i := Option.some.inj (hj.symm.trans hi)
    exact hbytes
  | emit j =>
    obtain rfl : j = i := Option.some.inj hi
    rfl
  | jump cond => exact absurd rfl (hc cond)
  | bind n => cases hi
  | jumpTo cond target =>
    obtain rfl := Option.some.inj hi
    rfl

/-- The bytes of an instruction, once all calls have been made. -/
theorem getElem?_run_perform (hs : a.Spaced) {later : List Call} {i : Instr}
    (hi : a.instr? later c = some i) {k : Nat} (hk : k < (Assembler.encode i).length) :
    ((a.perform c).run later).code.code[a.code.offset + k]? = (Assembler.encode i)[k]? := by
  have hemits : ∀ n, c ≠ .bind n := by
    rintro n rfl
    cases hi
  -- A byte that belongs to no forward jump stays as the call has written it.
  have hstays : a.code.offset + k < (a.perform c).code.offset →
      (∀ l ∈ (a.perform c).labels, a.code.offset + k ≠ l.operandAt ∧
        a.code.offset + k ≠ l.operandAt + 1) →
      ((a.perform c).run later).code.code[a.code.offset + k]? = (c.bytes a)[k]? := by
    intro hlt hout
    rw [getElem?_run hlt hout, perform_code hemits, Assembler.getElem?_append_add]
  have hbehind : ∀ l ∈ a.labels, l.operandAt + 1 < a.code.offset := hs.inside
  rcases labels_perform a c with hlabels | ⟨cond, rfl, hlabels⟩
  · have hc : ∀ cond, c ≠ .jump cond := by
      rintro cond rfl
      simp [perform, Assembler.jump] at hlabels
    rw [encode_of_instr? hi hc] at hk ⊢
    refine hstays (by rw [offset_perform]; omega) fun l hl => ?_
    have := hbehind l (hlabels ▸ hl)
    omega
  · obtain rfl := Option.some.inj hi
    have hlength : (Assembler.encode (.jump cond (a.jumpOffset cond later))).length = 3 := by
      cases cond <;> rfl
    have hopen := Prod.ext_iff.1 (operand?_run_jump hs cond later)
    -- The first byte is the operation, and the others are the offset.
    match k, hk with
    | 0, _ =>
      have hone : (Call.bytes a (.jump cond)).length = 3 := by cases cond <;> rfl
      refine (hstays (by rw [offset_perform]; omega) fun l hl => ?_).trans (by cases cond <;> rfl)
      rw [hlabels, List.mem_append, List.mem_singleton] at hl
      rcases hl with hl | rfl
      · have := hbehind l hl
        omega
      · have := operandAt_nextLabel a
        omega
    | 1, _ => exact hopen.1.trans (by cases cond <;> rfl)
    | 2, _ => exact hopen.2.trans (by cases cond <;> rfl)
    | k + 3, hk => omega

/-- Each call that adds an instruction asks for one. -/
theorem isSome_instr? (a : Assembly) (later : List Call) (c : Call) :
    (a.instr? later c).isSome = c.emits := by
  cases c with
  | operation op hop =>
    obtain ⟨i, hi, -⟩ := Instr.exists_ofOp? hop
    rw [instr?, hi]
    rfl
  | _ => rfl

theorem length_lines (a : Assembly) (calls : List Call) :
    (a.lines calls).length = calls.countP Call.emits := by
  induction calls generalizing a with
  | nil => rfl
  | cons c calls ih =>
    have hone : (a.instr? calls c).toList.length = if c.emits then 1 else 0 := by
      rw [← isSome_instr? a calls c]
      cases a.instr? calls c <;> rfl
    rw [lines, List.length_append, List.length_map, ih, List.countP_cons, hone, Nat.add_comm]

theorem offset_perform_of_instr? {later : List Call} {i : Instr}
    (hi : a.instr? later c = some i) :
    (a.perform c).code.offset = a.code.offset + (Assembler.encode i).length := by
  rw [offset_perform]
  by_cases hc : ∃ cond, c = .jump cond
  · obtain ⟨cond, rfl⟩ := hc
    obtain rfl := Option.some.inj hi
    cases cond <;> rfl
  · rw [encode_of_instr? hi fun cond h => hc ⟨cond, h⟩]

/-- A part of a list that is known item by item. -/
theorem drop_eq_append {α : Type} {xs ys : List α} {k : Nat}
    (hys : ∀ i < ys.length, xs[k + i]? = ys[i]?) : xs.drop k = ys ++ xs.drop (k + ys.length) := by
  refine List.ext_getElem? fun i => ?_
  rw [List.getElem?_drop]
  by_cases hi : i < ys.length
  · rw [hys i hi, List.getElem?_append_left hi]
  · rw [List.getElem?_append_right (by omega), List.getElem?_drop]
    congr 1
    omega

theorem offset_perform_of_none {later : List Call} (hi : a.instr? later c = none) :
    (a.perform c).code.offset = a.code.offset := by
  have hemits := (isSome_instr? a later c).symm.trans (by rw [hi])
  cases c with
  | bind n => exact offset_perform a (.bind n)
  | _ => cases hemits

/-- The bytes from the end of the code on, once all calls have been made, start with the
    instruction that the next call asks for. -/
theorem drop_run_perform (hs : a.Spaced) {later : List Call} {i : Instr}
    (hi : a.instr? later c = some i) :
    ((a.perform c).run later).code.code.toList.drop a.code.offset = Assembler.encode i ++
      ((a.perform c).run later).code.code.toList.drop (a.perform c).code.offset := by
  rw [offset_perform_of_instr? hi]
  exact drop_eq_append fun k hk => Array.getElem?_toList.trans (getElem?_run_perform hs hi hk)

theorem drop_run_nil (a : Assembly) : (a.run []).code.code.toList.drop a.code.offset = [] :=
  List.drop_eq_nil_iff.2 (Nat.le_refl _)

/-- The bytes from the end of the code on, once all calls have been made, are the instructions
    that the calls ask for. -/
theorem drop_run (hs : a.Spaced) (calls : List Call) :
    (a.run calls).code.code.toList.drop a.code.offset =
      (a.lines calls).flatMap fun line => Assembler.encode line.2 := by
  induction calls generalizing a with
  | nil => exact drop_run_nil a
  | cons c calls ih =>
    have hrest := ih (hs.perform c)
    change ((a.perform c).run calls).code.code.toList.drop _ = _
    rw [lines, List.flatMap_append, ← hrest]
    cases hi : a.instr? calls c with
    | none =>
      rw [offset_perform_of_none hi]
      rfl
    | some i =>
      rw [drop_run_perform hs hi]
      simp

/-- They are listed with the offsets that the assembler gave. -/
theorem listing_drop (hs : a.Spaced) (calls : List Call) :
    Listing.ofBytesAt a.code.offset ((a.run calls).code.code.toList.drop a.code.offset) =
      ⟨a.lines calls, none⟩ := by
  induction calls generalizing a with
  | nil => rw [drop_run_nil, Listing.ofBytesAt, if_pos rfl, lines]
  | cons c calls ih =>
    have hrest := ih (hs.perform c)
    change Listing.ofBytesAt _ (((a.perform c).run calls).code.code.toList.drop _) = _
    rw [lines]
    cases hi : a.instr? calls c with
    | none =>
      rw [offset_perform_of_none hi] at hrest
      exact hrest
    | some i =>
      rw [drop_run_perform hs hi, Listing.ofBytesAt_encode, ← offset_perform_of_instr? hi, hrest]
      rfl

/-- The code of a method has a header, a bare stream has none. -/
theorem header?_run (a : Assembly) (calls : List Call) :
    (a.run calls).code.header? = a.code.header? := by
  induction calls generalizing a with
  | nil => rfl
  | cons c calls ih =>
    refine (ih (a.perform c)).trans ?_
    cases c with
    | bind n =>
      rw [perform]
      split <;> rfl
    | _ => rfl

theorem toInt_distance (base target : Nat) :
    (Assembler.distance base target).toInt = ((target : Int) - base).bmod (2 ^ 16) :=
  Int16.toInt_ofInt ..

/-- The listing of assembled code has one line for each call that added an instruction, in the
    order of the calls, at the offset that the assembler gave before the call and with the
    operands of the call, and has no error. The offset of a jump is the distance from its end to
    its target, reduced to sixteen bits, so the jump arrives if the distance has sixteen bits. -/
theorem listing_run (calls : List Call) :
    Listing.ofBytes (run {} calls).code.finish = ⟨lines {} calls, none⟩ ∧
      (lines {} calls).length = calls.countP Call.emits ∧
      ∀ base target : Nat,
        (Assembler.distance base target).toInt = ((target : Int) - base).bmod (2 ^ 16) ∧
        (-2 ^ 15 ≤ (target : Int) - base ∧ (target : Int) - base < 2 ^ 15 →
          base + (Assembler.distance base target).toInt = target) := by
  refine ⟨?_, length_lines {} calls, fun base target => ⟨toInt_distance base target, ?_⟩⟩
  · have hfinish : (run {} calls).code.finish = (run {} calls).code.code.toList := by
      rw [Assembler.finish, header?_run]
      rfl
    have hspaced : Spaced {} := ⟨fun l hl => absurd hl List.not_mem_nil, .nil⟩
    rw [hfinish]
    exact listing_drop hspaced calls
  · intro hfits
    rw [toInt_distance, Int.bmod_eq_of_le] <;> omega

/-- A loop with a way out, in which one jump is inside of another and a third goes nowhere. -/
def looping : List Call :=
  [.emit (.pushInt 1000), .jump .ifFalse, .jump .always, .operation .dup rfl, .bind 1,
    .jump .ifTrue, .emit (.pushInt (-5)), .jumpTo .always 5, .bind 0, .operation .ret rfl]

theorem listing_run_looping :
    Listing.ofBytes (run {} looping).code.finish =
      ⟨[(0, .pushInt 1000), (5, .jump .ifFalse 12), (8, .jump .always 1), (11, .dup),
        (12, .jump .ifTrue 0), (15, .pushInt (-5)), (17, .jump .always (-15)), (20, .ret)], none⟩ ∧
      (20 : Int) + (Assembler.distance 20 5).toInt = 5 :=
  ⟨(listing_run looping).1.trans (by decide +kernel),
    ((listing_run looping).2.2 20 5).2 (by decide)⟩

end Assembly

end StoryMachine
