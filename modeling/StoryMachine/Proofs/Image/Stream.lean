import StoryMachine.Proofs.Image.Paging
import StoryMachine.Proofs.Image.Written

/-!
# The stream of an image

An image that is accepted is a signature, a version and blocks, one after the other, of which the
last one ends the image. Each of them has all of its payload but the last one, whose payload is
passed over unread and may be cut short.

* `Segment`: a block as it stands in a stream;
* `Blocks.exists_segments`: what a stream is divided into;
* `Image.Divides`, `Image.IsComplete`: streams that are divided, and those with nothing missing;
* `Image.isComplete_iff`: where something can be missing;
* `Image.divides_of_load`: the stream of an image that is accepted.
-/

namespace StoryMachine

/-- A block as it stands in a stream. -/
structure Segment where
  /-- Its tag. -/
  tag : Bytes
  /-- The size that is declared for its payload. -/
  size : UInt32
  /-- Its flags. -/
  flags : UInt16
  /-- What there is of its payload. -/
  payload : Bytes
deriving DecidableEq, Repr

namespace Segment

/-- What stands before the payload. -/
def header (s : Segment) : Bytes := s.tag ++ (Bytes.u32 s.size ++ Bytes.u16 s.flags)

/-- The bytes of the block. -/
def bytes (s : Segment) : Bytes := s.header ++ s.payload

/-- The payload has the size that is declared for it. -/
def IsWhole (s : Segment) : Prop := s.tag.length = 4 ∧ s.payload.length = s.size.toNat

instance (s : Segment) : Decidable s.IsWhole := inferInstanceAs (Decidable (_ ∧ _))

variable {s t : Segment} {bs more : Bytes}

theorem length_header (hs : s.tag.length = 4) : s.header.length = Block.headerSize := by
  simp only [header, List.length_append, Bytes.u32, Bytes.u16, Bytes.length_ofNat, hs,
    Block.headerSize]

theorem bytes_append_ne_nil (hs : s.tag.length = 4) (more : Bytes) : s.bytes ++ more ≠ [] := by
  intro hnil
  have hlength := length_header hs
  rw [(List.append_eq_nil_iff.1 (List.append_eq_nil_iff.1 hnil).1).1] at hlength
  cases hlength

/-- What stands before the payload says all but the payload. -/
theorem eq_of_header (hs : s.tag.length = 4) (ht : t.tag.length = 4)
    (heq : s.header ++ bs = t.header ++ more) :
    s.tag = t.tag ∧ s.size = t.size ∧ s.flags = t.flags ∧ bs = more := by
  obtain ⟨hheader, hrest⟩ :=
    List.append_inj heq ((length_header hs).trans (length_header ht).symm)
  obtain ⟨htag, hfields⟩ := List.append_inj hheader (hs.trans ht.symm)
  have hsize := Reader.reads_u32 s.size (Bytes.u16 s.flags)
  rw [hfields, Reader.reads_u32] at hsize
  obtain ⟨hsize, hflags⟩ := Prod.mk.inj (Option.some.inj hsize)
  have hflag := Reader.reads_u16 s.flags []
  rw [← hflags, Reader.reads_u16] at hflag
  exact ⟨htag, hsize.symm, (Prod.mk.inj (Option.some.inj hflag)).1.symm, hrest⟩

/-- A stream is divided in one way only: what is missing at its end is missing from whatever blocks
    it is made of. The induction is on the blocks with which it starts. -/
theorem isWhole_of_flatMap_eq {all front : List Segment} {last : Segment}
    (hall : ∀ s ∈ all, s.IsWhole) (hfront : ∀ s ∈ front, s.IsWhole) (htag : last.tag.length = 4)
    (hfits : last.payload.length ≤ last.size.toNat)
    (heq : all.flatMap bytes = front.flatMap bytes ++ last.bytes) : last.IsWhole := by
  induction front generalizing all with
  | nil =>
    cases all with
    | nil => exact absurd heq.symm (List.append_nil last.bytes ▸ bytes_append_ne_nil htag [])
    | cons s all =>
      obtain ⟨⟨hs, hwhole⟩, -⟩ := List.forall_mem_cons.1 hall
      rw [List.flatMap_cons, List.flatMap_nil, List.nil_append, bytes, bytes,
        List.append_assoc] at heq
      obtain ⟨-, hsize, -, hpayload⟩ := eq_of_header hs htag heq
      have hlength := congrArg List.length hpayload
      rw [List.length_append, hwhole, hsize] at hlength
      exact ⟨htag, by omega⟩
  | cons t front ih =>
    obtain ⟨⟨ht, hpart⟩, hfront⟩ := List.forall_mem_cons.1 hfront
    cases all with
    | nil =>
      rw [List.flatMap_cons, List.append_assoc] at heq
      exact absurd heq.symm (bytes_append_ne_nil ht _)
    | cons s all =>
      obtain ⟨⟨hs, hwhole⟩, hall⟩ := List.forall_mem_cons.1 hall
      rw [List.flatMap_cons, List.flatMap_cons, bytes, bytes, List.append_assoc, List.append_assoc,
        List.append_assoc] at heq
      obtain ⟨-, hsize, -, hpayload⟩ := eq_of_header hs ht heq
      have hlength : s.payload.length = t.payload.length := by rw [hwhole, hpart, hsize]
      exact ih hall hfront (List.append_inj hpayload hlength).2

end Segment

/-! ## What a stream is divided into -/

/-- The first block of a stream, with all that follows for its payload. -/
theorem Block.exists_segment_of_first? {place : Nat} {bs : Bytes} {b : Block}
    (hb : first? place bs = some b) :
    ∃ s : Segment, bs = s.bytes ∧ s.tag.length = 4 ∧ s.tag = b.tag ∧ s.size = b.size := by
  rw [first?] at hb
  split at hb
  · cases hb
  · next tag size mandatory rest hheader =>
    obtain rfl := Option.some.inj hb
    obtain ⟨front, mid, hfront, hheader⟩ := Reader.bind_eq_some.1 hheader
    obtain ⟨n, mid', hn, hheader⟩ := Reader.bind_eq_some.1 hheader
    obtain ⟨flags, payload, hflags, hheader⟩ := Reader.bind_eq_some.1 hheader
    obtain ⟨hfields, rfl⟩ := Reader.pure_eq_some.1 hheader
    cases hfields
    obtain ⟨hlength, rfl⟩ := Reader.bytes_eq_some_iff.1 hfront
    obtain rfl := Reader.u32_eq_some_iff.1 hn
    obtain rfl := Reader.u16_eq_some_iff.1 hflags
    refine ⟨⟨_, _, flags, payload⟩, ?_, hlength, rfl, rfl⟩
    simp only [Segment.bytes, Segment.header, List.append_assoc]

/-- A stream that ends with its last block is made of blocks. Each of them is whole but the last
    one: there is another block where it ends. -/
theorem Blocks.exists_segments {place : Nat} {bs : Bytes}
    (hend : (ofBytes place bs).ending = .eof) : ∃ (front : List Segment) (last : Segment),
      bs = front.flatMap Segment.bytes ++ last.bytes ∧
        (∀ s ∈ front, s.IsWhole ∧ s.tag ≠ Block.eof) ∧ last.tag = Block.eof ∧
          last.payload.length ≤ last.size.toNat := by
  fun_induction ofBytes place bs with
  | case1 => cases hend
  | case2 place bs b hfirst length rest heof =>
    obtain ⟨s, rfl, hlength, htag, hsize⟩ := Block.exists_segment_of_first? hfirst
    refine ⟨[], s, rfl, List.forall_mem_nil _, htag.trans heof, ?_⟩
    -- Nothing follows the last block.
    have hrest : rest = [] := by
      by_contra hne
      rw [if_neg hne] at hend
      cases hend
    rw [List.drop_eq_nil_iff, Segment.bytes, List.length_append,
      Segment.length_header hlength] at hrest
    rw [hsize]
    exact Nat.le_of_add_le_add_left hrest
  | case3 => cases hend
  | case4 place bs b hfirst length rest hne hnil more ih =>
    obtain ⟨s, rfl, hlength, htag, hsize⟩ := Block.exists_segment_of_first? hfirst
    obtain ⟨front, last, hrest, hfront, hlast, hfits⟩ := ih hend
    have hdrop : rest = s.payload.drop s.size.toNat := by
      change s.bytes.drop (Block.headerSize + b.size.toNat) = _
      rw [Segment.bytes, ← Segment.length_header hlength, ← List.drop_drop, List.drop_left, hsize]
    have hlong : s.size.toNat ≤ s.payload.length := by
      by_contra hshort
      have hnil : rest = [] := by rw [hdrop]; exact List.drop_of_length_le (by omega)
      have hmore : (ofBytes (place + length) rest).ending = .eof := hend
      rw [hnil, ofBytes_nil] at hmore
      cases hmore
    refine ⟨{ s with payload := s.payload.take s.size.toNat } :: front, last, ?_,
      List.forall_mem_cons.2 ⟨⟨⟨hlength, List.length_take_of_le hlong⟩, htag ▸ hne⟩, hfront⟩,
      hlast, hfits⟩
    rw [List.flatMap_cons, List.append_assoc, ← hrest, hdrop]
    simp only [Segment.bytes, Segment.header, List.append_assoc, List.take_append_drop]

namespace Image

variable {bs rest : Bytes} {front : List Segment} {last : Segment}

/-- The stream is the signature, the version and these blocks, of which the last one ends the
    image and may be cut short. -/
structure Divides (bs : Bytes) (front : List Segment) (last : Segment) : Prop where
  /-- Nothing stands before them, between them or after them. -/
  bytes : bs = signature ++ Bytes.u16 formatVersion ++
    (front.flatMap Segment.bytes ++ last.bytes)
  /-- Each of the others has all of its payload. -/
  whole : ∀ s ∈ front, s.IsWhole
  /-- The last one ends the image. -/
  ends : last.tag = Block.eof
  /-- No more of its payload is there than is declared. -/
  fits : last.payload.length ≤ last.size.toNat

/-- Nothing is missing from the stream, and nothing is left over: it is the signature, the version
    and blocks, each with all of its payload, of which the last one ends the image. -/
def IsComplete (bs : Bytes) : Prop := ∃ front last, Divides bs front last ∧ last.IsWhole

theorem Divides.length_tag (hbs : Divides bs front last) : last.tag.length = 4 := by
  rw [hbs.ends]
  exact DraftBlock.fits_eof.1

/-- Only of the last block something can be missing. -/
theorem isComplete_iff (hbs : Divides bs front last) : IsComplete bs ↔ last.IsWhole := by
  refine ⟨fun ⟨front', last', hbs', hwhole⟩ => ?_, fun hwhole => ⟨front, last, hbs, hwhole⟩⟩
  have hall : ∀ s ∈ front' ++ [last'], s.IsWhole :=
    List.forall_mem_append.2 ⟨hbs'.whole, List.forall_mem_singleton.2 hwhole⟩
  refine Segment.isWhole_of_flatMap_eq hall hbs.whole hbs.length_tag hbs.fits ?_
  rw [List.flatMap_append, List.flatMap_singleton]
  exact List.append_cancel_left (hbs'.bytes.symm.trans hbs.bytes)

theorem eq_append_of_start {version : UInt16} (hok : start bs = .ok (version, rest)) :
    bs = signature ++ Bytes.u16 formatVersion ++ rest := by
  obtain ⟨⟨front, mid⟩, hfront, hok⟩ := Except.bind_eq_ok.1 hok
  obtain ⟨hsignature, hok⟩ := Except.guard_eq_ok.1 hok
  obtain ⟨⟨version', rest'⟩, hversion, hok⟩ := Except.bind_eq_ok.1 hok
  obtain ⟨hformat, hok⟩ := Except.guard_eq_ok.1 hok
  obtain ⟨-, rfl⟩ := Prod.mk.inj (Except.ok.inj hok)
  rw [(Reader.bytes_eq_some_iff.1 (Parser.of_eq_ok.1 hfront)).2,
    Reader.u16_eq_some_iff.1 (Parser.of_eq_ok.1 hversion), not_not.1 hsignature,
    not_not.1 hformat, List.append_assoc]

/-- The stream of an image that is accepted. -/
theorem exists_divides_of_load {mode : PoolMode} {settings : HeapSettings}
    {r : Image × Pools × Heap} (hok : load bs mode settings = .ok r) :
    ∃ front last, Divides bs front last ∧ ∀ s ∈ front, s.tag ≠ Block.eof := by
  obtain ⟨⟨version, rest⟩, hstart, hok⟩ := Except.bind_eq_ok.1 hok
  obtain ⟨l, -, hok⟩ := Except.bind_eq_ok.1 hok
  obtain ⟨_, hcheck, -⟩ := Except.bind_eq_ok.1 hok
  have hend : (Blocks.ofBytes (signature.length + 2) rest).ending = .eof := by
    cases hending : (Blocks.ofBytes (signature.length + 2) rest).ending with
    | eof => rfl
    | trailing =>
      rw [hending] at hcheck
      cases hcheck
    | truncated =>
      rw [hending] at hcheck
      cases hcheck
  obtain ⟨front, last, hrest, hfront, hlast, hfits⟩ := Blocks.exists_segments hend
  refine ⟨front, last, ⟨?_, fun s hs => (hfront s hs).1, hlast, hfits⟩, fun s hs => (hfront s hs).2⟩
  rw [← hrest]
  exact eq_append_of_start hstart

/-- **What is accepted is a stream of blocks.** It is the signature, the version and blocks, each
    with all of its payload but for the one that ends the image. Nothing is missing from the stream
    if nothing is missing from that one. -/
theorem divides_of_load {mode : PoolMode} {settings : HeapSettings} {r : Image × Pools × Heap}
    (hok : load bs mode settings = .ok r) : ∃ front last, Divides bs front last ∧
      (∀ s ∈ front, s.tag ≠ Block.eof) ∧ (IsComplete bs ↔ last.IsWhole) := by
  obtain ⟨front, last, hbs, hfront⟩ := exists_divides_of_load hok
  exact ⟨front, last, hbs, hfront, isComplete_iff hbs⟩

/-- The blocks of an image before the one that ends it. -/
def shortFront : List Segment :=
  let d : ImageDraft := {
    metaclasses := #[("tads-object", [])]
    code := ([Instr.retNil].foldl Assembler.emit (Assembler.method {})).finish.toArray
    objects := #[⟨1, 0, ObjectData.program [] []⟩]
    entry? := some 0 }
  d.blocks.map fun b => ⟨b.tag, .ofNat b.payload.length, if b.mandatory then 1 else 0, b.payload⟩

/-- The block that ends the image declares a byte that is not there. -/
def shortLast : Segment := ⟨Block.eof, 1, 1, []⟩

/-- An image whose last byte is missing. -/
def short : Bytes :=
  signature ++ Bytes.u16 formatVersion ++ (shortFront.flatMap Segment.bytes ++ shortLast.bytes)

theorem isOk_load_short : (load short .inMemory {}).isOk = true := by decide +kernel

theorem divides_of_load_short : ∃ front last, Divides short front last ∧
    (∀ s ∈ front, s.tag ≠ Block.eof) ∧ (IsComplete short ↔ last.IsWhole) := by
  cases hok : load short .inMemory {} with
  | error e =>
    have herror := isOk_load_short
    rw [hok] at herror
    cases herror
  | ok r => exact divides_of_load hok

/-- An image is accepted although its last byte is missing. -/
theorem not_isComplete_short : (load short .inMemory {}).isOk = true ∧ ¬IsComplete short := by
  have hdivides : Divides short shortFront shortLast :=
    ⟨rfl, by decide +kernel, rfl, by decide +kernel⟩
  exact ⟨isOk_load_short, fun hcomplete =>
    absurd ((isComplete_iff hdivides).1 hcomplete).2 (by decide +kernel)⟩

end Image

end StoryMachine
