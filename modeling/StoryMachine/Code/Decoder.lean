import StoryMachine.Code.Decode

/-!
# Decoding a stream of instructions

A decoder stands in a byte string and gives one instruction after the other. After an
error it goes to the end, so there is nothing more.

* `Decoder.decodeNext`: the next instruction, if the bytes are one;
* `Decoder.next`: the same for a caller who takes all there is;
* `Decoder.items`: all there is.
-/

namespace StoryMachine

/-- A place in a byte string. -/
structure Decoder where
  /-- The byte string. -/
  bytes : Bytes
  /-- The bytes before the next instruction. -/
  position : Nat := 0
deriving DecidableEq, Repr

namespace Decoder

/-- Whether all bytes have been read. -/
def atEnd (d : Decoder) : Bool := d.bytes.length ≤ d.position

/-- The decoder, `n` bytes further on. -/
def skip (d : Decoder) (n : Nat) : Decoder := { d with position := d.position + n }

/-- The next instruction, or nothing at the end. The operation is read before it is known
    whether its operands are there. -/
def decodeNext (d : Decoder) : Except DecodeError (Option Instr) × Decoder :=
  match d.bytes.drop d.position with
  | [] => (.ok none, d)
  | b :: rest =>
    match Op.ofByte? b with
    | none => (.error (.invalidOpcode b d.position), d.skip 1)
    | some op =>
      if rest.length < op.operandLength then (.error (.truncated d.position), d.skip 1)
      else match Instr.operands op rest with
        | none => (.error (.truncated d.position), d.skip 1)
        | some (i, more) => (.ok (some i), d.skip (1 + (rest.length - more.length)))

/-- The next item, which is an instruction or an error. Nothing comes after an error. -/
def next (d : Decoder) : Option (Except DecodeError Instr) × Decoder :=
  match d.decodeNext with
  | (.ok (some i), d') => (some (.ok i), d')
  | (.ok none, d') => (none, d')
  | (.error e, d') => (some (.error e), { d' with position := d'.bytes.length })

theorem decodeNext_of_le {d : Decoder} (hend : d.bytes.length ≤ d.position) :
    d.decodeNext = (.ok none, d) := by
  rw [decodeNext, List.drop_of_length_le hend]

/-- Where there are bytes left, the decoder moves on. -/
theorem exists_skip_of_lt {d : Decoder} (hmore : d.position < d.bytes.length) :
    ∃ n, d.decodeNext.2 = d.skip (1 + n) := by
  rw [decodeNext, List.drop_eq_getElem_cons hmore]
  dsimp only
  split
  · exact ⟨0, rfl⟩
  · split
    · exact ⟨0, rfl⟩
    · split
      · exact ⟨0, rfl⟩
      · exact ⟨_, rfl⟩

/-- Where there is another item, there are fewer bytes left after it. -/
theorem decreases_of_next {d d' : Decoder} {item : Except DecodeError Instr}
    (hnext : d.next = (some item, d')) :
    d'.bytes.length - d'.position < d.bytes.length - d.position := by
  rw [next] at hnext
  by_cases hmore : d.position < d.bytes.length
  · obtain ⟨n, hskip⟩ := exists_skip_of_lt hmore
    split at hnext
    · next heq =>
      rw [heq] at hskip
      obtain rfl : d' = d.skip (1 + n) := (Prod.mk.inj hnext).2.symm.trans hskip
      simp only [skip]
      omega
    · cases hnext
    · obtain rfl := (Prod.mk.inj hnext).2
      rw [Nat.sub_self]
      omega
  · rw [decodeNext_of_le (Nat.le_of_not_lt hmore)] at hnext
    cases hnext

/-- All items that are left, each with the place where it starts, and the decoder after them. -/
def items (d : Decoder) : List (Nat × Except DecodeError Instr) × Decoder :=
  match _hnext : d.next with
  | (none, d') => ([], d')
  | (some item, d') => ((d.position, item) :: d'.items.1, d'.items.2)
termination_by d.bytes.length - d.position
decreasing_by exact decreases_of_next _hnext

/-- The instruction that a byte string starts with, and its length. -/
def first (bs : Bytes) : Except DecodeError (Instr × Nat) :=
  match decodeNext { bytes := bs } with
  | (.ok (some i), d) => .ok (i, d.position)
  | (.ok none, _) => .error (.truncated 0)
  | (.error e, _) => .error e

end Decoder

end StoryMachine
