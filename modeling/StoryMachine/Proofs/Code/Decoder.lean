import StoryMachine.Code.Decoder
import StoryMachine.Proofs.Code.Listing

/-!
# What a decoder accepts

A byte string starts with an instruction if its first byte is the code of an operation and the
operands of that operation follow. Everything else is an error, which says which of the two is
missing. A decoder that stands in a byte string gives one instruction after the other, each of
which starts where the one before it ends, and at most one error, with which it stops.

* `Decoder.Fault`: what is wrong with bytes that are not an instruction;
* `Instr.decode_eq_ok_iff`, `Instr.decode_eq_error_iff`: when bytes are one;
* `Decoder.decodeNext_of_ok`, `Decoder.decodeNext_of_fault`: one step;
* `Decoder.exists_divides_items`: all steps;
* `Decoder.first_eq_decode`, `Decoder.items_eq_listing`: other ways to the same;
* `Decoder.accepts`: what is read off any bytes.
-/

namespace StoryMachine

/-- What is wrong with bytes, at a place, that are not an instruction. -/
inductive Decoder.Fault : Bytes → Nat → DecodeError → Prop
  | invalidOpcode {b : UInt8} (hb : Op.ofByte? b = none) (rest : Bytes) (place : Nat) :
      Decoder.Fault (b :: rest) place (.invalidOpcode b place)
  | truncated {b : UInt8} {op : Op} {rest : Bytes} (hop : Op.ofByte? b = some op)
      (hrest : rest.length < op.operandLength) (place : Nat) :
      Decoder.Fault (b :: rest) place (.truncated place)

/-! ## One instruction -/

namespace Instr

variable {bs : Bytes} {i : Instr} {n : Nat} {e : DecodeError}

/-- Bytes are an instruction, or something is wrong with them. -/
theorem decode_cases (b : UInt8) (rest : Bytes) :
    (∃ op, Op.ofByte? b = some op ∧ op.operandLength ≤ rest.length) ∨
      ∀ place, ∃ e, Decoder.Fault (b :: rest) place e := by
  cases hop : Op.ofByte? b with
  | none => exact .inr fun place => ⟨_, .invalidOpcode hop rest place⟩
  | some op =>
    by_cases hrest : op.operandLength ≤ rest.length
    · exact .inl ⟨op, rfl, hrest⟩
    · exact .inr fun place => ⟨_, .truncated hop (Nat.lt_of_not_le hrest) place⟩

theorem decode_of_fault (he : Decoder.Fault bs 0 e) : decode bs = .error e := by
  obtain ⟨hb, rest⟩ | ⟨hop, hrest⟩ := he
  · exact decode_of_none hb rest
  · exact decode_of_lt hop hrest

/-- What is read depends on the bytes of the instruction alone. -/
theorem decode_eq_ok_iff : decode bs = .ok (i, n) ↔ ∃ b op operands rest,
    bs = b :: operands ++ rest ∧ Op.ofByte? b = some op ∧
      operands.length = op.operandLength ∧ n = 1 + op.operandLength ∧
        ∀ more, decode (b :: operands ++ more) = .ok (i, n) := by
  constructor
  · intro hok
    rcases bs with _ | ⟨b, rest⟩
    · cases hok
    rcases decode_cases b rest with ⟨op, hop, hrest⟩ | hfault
    · obtain ⟨j, hj, -, hmore⟩ := exists_decode_of_le hop hrest
      obtain ⟨rfl, rfl⟩ := Prod.mk.inj (Except.ok.inj (hj.symm.trans hok))
      refine ⟨b, op, rest.take op.operandLength, rest.drop op.operandLength, ?_, hop,
        List.length_take_of_le hrest, rfl, hmore⟩
      rw [List.cons_append, List.take_append_drop]
    · obtain ⟨e, he⟩ := hfault 0
      rw [decode_of_fault he] at hok
      cases hok
  · rintro ⟨b, op, operands, rest, rfl, -, -, -, hmore⟩
    exact hmore rest

theorem decode_eq_error_iff :
    decode bs = .error e ↔ (bs = [] ∧ e = .truncated 0) ∨ Decoder.Fault bs 0 e := by
  constructor
  · intro herror
    rcases bs with _ | ⟨b, rest⟩
    · exact .inl ⟨rfl, (Except.error.inj herror).symm⟩
    rcases decode_cases b rest with ⟨op, hop, hrest⟩ | hfault
    · obtain ⟨i, hok, -, -⟩ := exists_decode_of_le hop hrest
      rw [hok] at herror
      cases herror
    · obtain ⟨e', hfault⟩ := hfault 0
      obtain rfl := Except.error.inj ((decode_of_fault hfault).symm.trans herror)
      exact .inr hfault
  · rintro (⟨rfl, rfl⟩ | hfault)
    · rfl
    · exact decode_of_fault hfault

end Instr

/-! ## A stream of instructions -/

namespace Decoder

variable {d : Decoder} {i : Instr} {n : Nat} {e : DecodeError} {bs rest : Bytes}

theorem decodeNext_of_ok (hok : Instr.decode (d.bytes.drop d.position) = .ok (i, n)) :
    d.decodeNext = (.ok (some i), d.skip n) := by
  obtain ⟨b, op, operands, rest, hbs, hop, hlength, rfl, hmore⟩ := Instr.decode_eq_ok_iff.1 hok
  have hle : op.operandLength ≤ (operands ++ rest).length := by
    rw [List.length_append, hlength]
    exact Nat.le_add_right _ _
  obtain ⟨j, hj, hread, -⟩ := Instr.exists_decode_of_le hop hle
  obtain rfl := (Prod.mk.inj (Except.ok.inj (hj.symm.trans (hmore rest)))).1
  rw [decodeNext, hbs, List.cons_append]
  dsimp only
  rw [hop]
  dsimp only
  rw [if_neg (Nat.not_lt.2 hle), hread]
  dsimp only
  rw [List.length_drop, Nat.sub_sub_self hle]

theorem decodeNext_of_fault (hfault : Fault (d.bytes.drop d.position) d.position e) :
    d.decodeNext = (.error e, d.skip 1) := by
  rw [decodeNext]
  generalize d.bytes.drop d.position = bs at hfault
  obtain ⟨hb, rest⟩ | ⟨hop, hrest⟩ := hfault
  · dsimp only
    rw [hb]
  · dsimp only
    rw [hop]
    dsimp only
    rw [if_pos hrest]

/-- The first step of a decoder is the one that a machine makes. -/
theorem first_eq_decode (bs : Bytes) : first bs = Instr.decode bs := by
  rw [first]
  cases hdecode : Instr.decode bs with
  | ok read =>
    obtain ⟨i, n⟩ := read
    rw [@decodeNext_of_ok { bytes := bs } i n hdecode]
    exact congrArg (fun n => Except.ok (i, n)) (Nat.zero_add n)
  | error e =>
    rcases Instr.decode_eq_error_iff.1 hdecode with ⟨rfl, rfl⟩ | hfault
    · rfl
    · rw [@decodeNext_of_fault { bytes := bs } e hfault]

theorem next_of_ok (hok : Instr.decode (d.bytes.drop d.position) = .ok (i, n)) :
    d.next = (some (.ok i), d.skip n) := by
  rw [next, decodeNext_of_ok hok]

/-- After an error the decoder is at the end. -/
theorem next_of_fault (hfault : Fault (d.bytes.drop d.position) d.position e) :
    d.next = (some (.error e), { d with position := d.bytes.length }) := by
  rw [next, decodeNext_of_fault hfault]
  rfl

theorem next_of_le (hend : d.bytes.length ≤ d.position) : d.next = (none, d) := by
  rw [next, decodeNext_of_le hend]

/-- Where bytes are left, there is another item. -/
theorem next_cases (hmore : d.position < d.bytes.length) :
    (∃ i bs rest, d.bytes.drop d.position = bs ++ rest ∧ Instr.decode bs = .ok (i, bs.length) ∧
        d.next = (some (.ok i), d.skip bs.length)) ∨
      ∃ e, Fault (d.bytes.drop d.position) d.position e ∧
        d.next = (some (.error e), { d with position := d.bytes.length }) := by
  have hdrop := List.drop_eq_getElem_cons hmore
  rcases Instr.decode_cases d.bytes[d.position] (d.bytes.drop (d.position + 1)) with
    ⟨op, hop, hrest⟩ | hfault
  · obtain ⟨i, hok, -, -⟩ := Instr.exists_decode_of_le hop hrest
    rw [← hdrop] at hok
    obtain ⟨b, op', operands, rest, hbs, -, hlength, hn, hall⟩ := Instr.decode_eq_ok_iff.1 hok
    have hbytes : 1 + op.operandLength = (b :: operands).length := by
      rw [hn, List.length_cons, hlength, Nat.add_comm]
    rw [hbytes] at hok hall
    have halone := hall []
    rw [List.append_nil] at halone
    exact .inl ⟨i, b :: operands, rest, hbs, halone, next_of_ok hok⟩
  · obtain ⟨e, he⟩ := hfault d.position
    rw [← hdrop] at he
    exact .inr ⟨e, he, next_of_fault he⟩

theorem items_of_le (hend : d.bytes.length ≤ d.position) : d.items = ([], d) := by
  rw [items]
  split
  · next hnext =>
    rw [next_of_le hend] at hnext
    rw [(Prod.mk.inj hnext).2]
  · next hnext =>
    rw [next_of_le hend] at hnext
    cases hnext

/-- The items that instructions are whose bytes stand one after the other. -/
def lines : (place : Nat) → List (Instr × Bytes) → List (Nat × Except DecodeError Instr)
  | _, [] => []
  | place, (i, bs) :: code => (place, .ok i) :: lines (place + bs.length) code

/-- Bytes, at a place, are divided into instructions and what is left, and these are the items.
    Nothing is left, or something is wrong with what is left. -/
structure Divides (place : Nat) (bs : Bytes) (code : List (Instr × Bytes)) (rest : Bytes)
    (items : List (Nat × Except DecodeError Instr)) : Prop where
  /-- Nothing is between the instructions. -/
  bytes : bs = code.flatMap Prod.snd ++ rest
  /-- Each of them is one. -/
  decodes : ∀ c ∈ code, Instr.decode c.2 = .ok (c.1, c.2.length)
  /-- An error comes last, and is about the bytes that are left. -/
  items : (rest = [] ∧ items = lines place code) ∨
    ∃ e, Fault rest (place + (code.flatMap Prod.snd).length) e ∧
      items = lines place code ++ [(place + (code.flatMap Prod.snd).length, .error e)]

theorem Divides.cons {place : Nat} {bs' : Bytes} {code : List (Instr × Bytes)}
    {items : List (Nat × Except DecodeError Instr)} (hi : Instr.decode bs = .ok (i, bs.length))
    (hmore : Divides (place + bs.length) bs' code rest items) :
    Divides place (bs ++ bs') ((i, bs) :: code) rest ((place, .ok i) :: items) := by
  obtain ⟨rfl, hdecodes, hitems⟩ := hmore
  refine ⟨?_, List.forall_mem_cons.2 ⟨hi, hdecodes⟩, ?_⟩
  · rw [List.flatMap_cons, List.append_assoc]
  · rw [List.flatMap_cons, List.length_append, ← Nat.add_assoc]
    refine hitems.imp (fun ⟨hnil, hitems⟩ => ⟨hnil, ?_⟩) fun ⟨e, he, hitems⟩ => ⟨e, he, ?_⟩
    · rw [hitems, lines]
    · rw [hitems, lines, List.cons_append]

/-- What a decoder gives for the bytes that it has before it. The induction is on the items. -/
theorem exists_divides_items (d : Decoder) (hd : d.position ≤ d.bytes.length) :
    (∃ code rest, Divides d.position (d.bytes.drop d.position) code rest d.items.1) ∧
      d.items.2 = { d with position := d.bytes.length } := by
  fun_induction items d with
  | case1 d d' hnext =>
    -- There is no next item only at the end of the bytes.
    have hend : d.bytes.length ≤ d.position := by
      by_contra hmore
      rcases next_cases (Nat.lt_of_not_le hmore) with ⟨i, bs, rest, -, -, hsome⟩ | ⟨e, -, hsome⟩
      all_goals
        rw [hsome] at hnext
        cases hnext
    rw [next_of_le hend] at hnext
    obtain rfl := (Prod.mk.inj hnext).2
    rw [List.drop_of_length_le hend]
    refine ⟨⟨[], [], rfl, List.forall_mem_nil _, .inl ⟨rfl, rfl⟩⟩, ?_⟩
    rw [Nat.le_antisymm hend hd]
  | case2 d item d' hnext ih =>
    have hmore : d.position < d.bytes.length := by
      by_contra hend
      rw [next_of_le (Nat.le_of_not_lt hend)] at hnext
      cases hnext
    rcases next_cases hmore with ⟨i, bs, rest, hdrop, hi, hsome⟩ | ⟨e, hfault, hsome⟩
    · rw [hsome] at hnext
      obtain ⟨hitem, rfl⟩ := Prod.mk.inj hnext
      obtain rfl := Option.some.inj hitem
      have hle : (d.skip bs.length).position ≤ d.bytes.length := by
        have hlength := congrArg List.length hdrop
        rw [List.length_drop, List.length_append] at hlength
        simp only [skip]
        omega
      have hrest : d.bytes.drop (d.position + bs.length) = rest := by
        rw [← List.drop_drop, hdrop, List.drop_left]
      -- The rest is divided where the first instruction ends.
      obtain ⟨⟨code, more, hcode⟩, hlast⟩ := ih hle
      simp only [skip, hrest] at hcode
      rw [hdrop]
      exact ⟨⟨_, more, hcode.cons hi⟩, hlast⟩
    · rw [hsome] at hnext
      obtain ⟨hitem, rfl⟩ := Prod.mk.inj hnext
      obtain rfl := Option.some.inj hitem
      -- A fault is the last item, since after it the decoder stands at the end of the bytes.
      rw [items_of_le (Nat.le_refl d.bytes.length)]
      exact ⟨⟨[], _, rfl, List.forall_mem_nil _, .inr ⟨e, hfault, rfl⟩⟩, rfl⟩

/-! ## Listings -/

end Decoder

/-- Where the bytes are that an error is about. -/
def DecodeError.offset : DecodeError → Nat
  | invalidOpcode _ offset => offset
  | truncated offset => offset

/-- What a listing says, in the order in which it was found. -/
def Listing.items (l : Listing) : List (Nat × Except DecodeError Instr) :=
  l.lines.map (fun line => (line.1, .ok line.2)) ++
    l.error?.toList.map fun e => (e.offset, .error e)

theorem Listing.items_ofBytesAt_of_ok {place : Nat} {bs : Bytes} {i : Instr}
    (hi : Instr.decode bs = .ok (i, bs.length)) (rest : Bytes) :
    (ofBytesAt place (bs ++ rest)).items =
      (place, .ok i) :: (ofBytesAt (place + bs.length) rest).items := by
  obtain ⟨b, op, operands, more, rfl, -, hlength, hn, hall⟩ := Instr.decode_eq_ok_iff.1 hi
  have hmore : more = [] := by
    rw [List.length_append, List.length_cons, hlength] at hn
    exact List.eq_nil_of_length_eq_zero (by omega)
  rw [hmore, List.append_nil] at hall ⊢
  have hne : b :: operands ++ rest ≠ [] := List.cons_ne_nil _ _
  have hlength : (b :: operands).length ≠ 0 := Nat.succ_ne_zero _
  rw [ofBytesAt, if_neg hne, hall]
  dsimp only
  rw [if_neg hlength, List.drop_left]
  rfl

theorem Listing.items_ofBytesAt_of_fault {place : Nat} {bs : Bytes} {e : DecodeError}
    (hfault : Decoder.Fault bs place e) : (ofBytesAt place bs).items = [(place, .error e)] := by
  obtain ⟨hb, rest⟩ | ⟨hop, hrest⟩ := hfault
  · rw [ofBytesAt, if_neg (List.cons_ne_nil _ _), Instr.decode_of_none hb]
    rfl
  · rw [ofBytesAt, if_neg (List.cons_ne_nil _ _), Instr.decode_of_lt hop hrest]
    rfl

namespace Decoder

/-- The items are those of the listing. The induction is on the instructions. -/
theorem Divides.items_eq {place : Nat} {bs rest : Bytes} {code : List (Instr × Bytes)}
    {items : List (Nat × Except DecodeError Instr)} (h : Divides place bs code rest items) :
    items = (Listing.ofBytesAt place bs).items := by
  induction code generalizing place bs items with
  | nil =>
    obtain ⟨rfl, -, ⟨rfl, rfl⟩ | ⟨e, he, rfl⟩⟩ := h
    · rw [Listing.ofBytesAt, if_pos rfl]
      rfl
    · exact (Listing.items_ofBytesAt_of_fault he).symm
  | cons c code ih =>
    obtain ⟨hbytes, hdecodes, hitems⟩ := h
    obtain ⟨hc, hdecodes⟩ := List.forall_mem_cons.1 hdecodes
    rw [List.flatMap_cons, List.append_assoc] at hbytes
    rw [List.flatMap_cons, List.length_append, ← Nat.add_assoc] at hitems
    rw [hbytes, Listing.items_ofBytesAt_of_ok hc]
    rcases hitems with ⟨hnil, rfl⟩ | ⟨e, he, rfl⟩
    · rw [← ih ⟨rfl, hdecodes, .inl ⟨hnil, rfl⟩⟩, lines]
    · rw [← ih ⟨rfl, hdecodes, .inr ⟨e, he, rfl⟩⟩, lines, List.cons_append]

/-- What a decoder gives for a byte string is its listing. -/
theorem items_eq_listing (bs : Bytes) :
    (items { bytes := bs }).1 = (Listing.ofBytes bs).items := by
  obtain ⟨⟨code, rest, hdivides⟩, -⟩ := exists_divides_items { bytes := bs } (Nat.zero_le _)
  exact hdivides.items_eq

/-! ## Any byte string -/

/-- **What a decoder accepts.** A byte string is decoded if its first byte is the code of an
    operation that has no more operands than there are bytes left, and then the instruction has as
    many bytes as that and depends on no other. Otherwise there is an error, which says whether
    there is such an operation. All the instructions of a byte string are found one after the
    other, and at most one error, which comes last; then the decoder is at the end, where there is
    nothing more. -/
theorem accepts (bs : Bytes) :
    first bs = Instr.decode bs ∧
      ((∃ i n, first bs = .ok (i, n)) ↔
        ∃ b op rest, bs = b :: rest ∧ Op.ofByte? b = some op ∧ op.operandLength ≤ rest.length) ∧
      (∀ i n, first bs = .ok (i, n) → ∃ b op operands rest, bs = b :: operands ++ rest ∧
        Op.ofByte? b = some op ∧ operands.length = op.operandLength ∧ n = 1 + op.operandLength ∧
          ∀ more, first (b :: operands ++ more) = .ok (i, n)) ∧
      (∀ e, first bs = .error e ↔ (bs = [] ∧ e = .truncated 0) ∨ Fault bs 0 e) ∧
      ∃ code rest, Divides 0 bs code rest (items { bytes := bs }).1 ∧
        (items { bytes := bs }).2 = { bytes := bs, position := bs.length } ∧
          next { bytes := bs, position := bs.length } =
            (none, { bytes := bs, position := bs.length }) := by
  obtain ⟨⟨code, rest, hdivides⟩, hlast⟩ := exists_divides_items { bytes := bs } (Nat.zero_le _)
  simp only [first_eq_decode]
  refine ⟨trivial, ⟨?_, ?_⟩, fun i n hok => Instr.decode_eq_ok_iff.1 hok,
    fun e => Instr.decode_eq_error_iff, code, rest, hdivides, hlast, next_of_le (Nat.le_refl _)⟩
  · rintro ⟨i, n, hok⟩
    obtain ⟨b, op, operands, rest, rfl, hop, hlength, -, -⟩ := Instr.decode_eq_ok_iff.1 hok
    refine ⟨b, op, operands ++ rest, rfl, hop, ?_⟩
    rw [List.length_append, hlength]
    exact Nat.le_add_right _ _
  · rintro ⟨b, op, rest, rfl, hop, hrest⟩
    obtain ⟨i, hok, -, -⟩ := Instr.exists_decode_of_le hop hrest
    exact ⟨i, _, hok⟩

end Decoder

end StoryMachine
