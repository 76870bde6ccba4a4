import StoryMachine.Proofs.Image.Adds
import StoryMachine.Proofs.Image.Parts
import StoryMachine.Proofs.Image.Stream
import StoryMachine.Proofs.Pool.Moved

/-!
# Blocks elsewhere in a stream

What a block adds to an image does not depend on where in the stream it is. A pool that is read on
demand remembers that place, and finds the same bytes there.

* `Segment.block`, `Blocks.ofBytes_segments`: whole blocks of a stream as they are read;
* `Block.Moved`, `Blocks.moved_ofBytes`: blocks that are elsewhere in another stream;
* `Loader.Moved`, `Loader.Moved.block`: what one such block adds;
* `Loader.Moved.foldlM`: what many of them add;
* `Image.SameContents`: images that hold the same.
-/

namespace StoryMachine

/-! ## Whole blocks -/

namespace Segment

variable {s : Segment} {ss ts : List Segment}

/-- The block when it is read at a place in an image. -/
def block (s : Segment) (place : Nat) : Block where
  tag := s.tag
  offset := place + Block.headerSize
  size := s.size
  mandatory := s.flags &&& 1 != 0
  payload := s.payload

/-- The blocks when they are read from a place in an image on. -/
def blocks : (place : Nat) → List Segment → List Block
  | _, [] => []
  | place, s :: ss => s.block place :: blocks (place + s.bytes.length) ss

theorem blocks_append (place : Nat) (ss ts : List Segment) : blocks place (ss ++ ts) =
    blocks place ss ++ blocks (place + (ss.flatMap bytes).length) ts := by
  induction ss generalizing place with
  | nil => rfl
  | cons s ss ih =>
    rw [List.cons_append, blocks, ih, blocks, List.flatMap_cons, List.length_append, Nat.add_assoc,
      List.cons_append]

theorem IsWhole.length_bytes (hs : s.IsWhole) :
    s.bytes.length = Block.headerSize + s.size.toNat := by
  rw [bytes, List.length_append, length_header hs.1, hs.2]

/-- What stands before the payload is read. -/
theorem reads_header (hs : s.tag.length = 4) :
    Block.header.Reads s.header (s.tag, s.size, s.flags &&& 1 != 0) := by
  have htag : (Reader.bytes 4).Reads s.tag s.tag := hs ▸ Reader.reads_bytes s.tag
  refine htag.bind (.bind (Reader.reads_u32 _) ?_)
  exact (Reader.reads_u16 s.flags).map fun flags => (s.tag, s.size, flags &&& 1 != 0)

/-- A whole block is the first of the blocks. -/
theorem IsWhole.first?_bytes (hs : s.IsWhole) (place : Nat) (rest : Bytes) :
    Block.first? place (s.bytes ++ rest) = some (s.block place) := by
  have hheader := reads_header hs.1 (s.payload ++ rest)
  rw [Block.first?, bytes, List.append_assoc, hheader]
  dsimp only
  rw [List.take_left' hs.2]
  rfl

end Segment

/-- Whole blocks are the first ones, whatever follows them. The induction is on the blocks. -/
theorem Blocks.ofBytes_segments {ss : List Segment}
    (hss : ∀ s ∈ ss, s.IsWhole ∧ s.tag ≠ Block.eof) (place : Nat) (rest : Bytes) :
    ofBytes place (ss.flatMap Segment.bytes ++ rest) =
      let more := ofBytes (place + (ss.flatMap Segment.bytes).length) rest
      ⟨Segment.blocks place ss ++ more.list, more.ending⟩ := by
  induction ss generalizing place with
  | nil => rfl
  | cons s ss ih =>
    obtain ⟨⟨hs, htag⟩, hss⟩ := List.forall_mem_cons.1 hss
    have hnil := Segment.bytes_append_ne_nil hs.1 (ss.flatMap Segment.bytes ++ rest)
    have hlength : Block.headerSize + (s.block place).size.toNat = s.bytes.length :=
      hs.length_bytes.symm
    have hnotEof : (s.block place).tag ≠ Block.eof := htag
    rw [List.flatMap_cons, List.append_assoc, ofBytes, hs.first?_bytes]
    dsimp only
    rw [if_neg hnotEof, if_neg hnil, hlength, List.drop_left, ih hss, List.length_append,
      Nat.add_assoc]
    rfl

/-! ## Blocks that are elsewhere -/

/-- A block is elsewhere in another stream. -/
structure Block.Moved (image image' : Bytes) (b b' : Block) : Prop where
  /-- Only the place is another one. -/
  same : b' = { b with offset := b'.offset }
  /-- The payload is what the stream has in its place. -/
  payload : b.payload = (image.drop b.offset).take b.size.toNat
  /-- It is what the other stream has in the other place. -/
  payload' : b'.payload = (image'.drop b'.offset).take b'.size.toNat

theorem Block.first?_of_first? {place : Nat} {bs : Bytes} {b : Block}
    (hb : first? place bs = some b) (place' : Nat) :
    first? place' bs = some { b with offset := place' + headerSize } := by
  rw [first?] at hb ⊢
  split at hb
  · cases hb
  · obtain rfl := Option.some.inj hb
    rfl

theorem Block.first?_eq_none {place : Nat} {bs : Bytes} (hb : first? place bs = none)
    (place' : Nat) : first? place' bs = none := by
  rw [first?] at hb ⊢
  split at hb
  · rfl
  · cases hb

theorem Block.moved_of_first? {image image' rest : Bytes} {place place' : Nat} {b : Block}
    (hrest : rest = image.drop place) (hrest' : rest = image'.drop place')
    (hb : first? place rest = some b) :
    b.Moved image image' { b with offset := place' + headerSize } := by
  obtain ⟨hoffset, hpayload⟩ := offset_of_first? hb
  refine ⟨rfl, ?_, ?_⟩
  · rw [hoffset, hpayload, hrest, List.drop_drop]
  · dsimp only
    rw [hpayload, hrest', List.drop_drop]

/-- The same bytes are divided into the same blocks, wherever they are. -/
theorem Blocks.moved_ofBytes {image image' rest : Bytes} {place place' : Nat}
    (hrest : rest = image.drop place) (hrest' : rest = image'.drop place') :
    List.Forall₂ (Block.Moved image image') (ofBytes place rest).list (ofBytes place' rest).list ∧
      (ofBytes place rest).ending = (ofBytes place' rest).ending := by
  fun_induction ofBytes place rest generalizing place' with
  | case1 place rest hfirst =>
    rw [ofBytes, Block.first?_eq_none hfirst place']
    exact ⟨.nil, rfl⟩
  | case2 place rest b hfirst length more =>
    rename_i heof
    rw [ofBytes, Block.first?_of_first? hfirst place']
    dsimp only
    rw [if_pos heof]
    exact ⟨.cons (Block.moved_of_first? hrest hrest' hfirst) .nil, rfl⟩
  | case3 =>
    rw [ofBytes_nil]
    exact ⟨.nil, rfl⟩
  | case4 place rest b hfirst length more htag hnil blocks =>
    rename_i ih
    have hmore {image : Bytes} {place : Nat} (hrest : rest = image.drop place) :
        more = image.drop (place + length) := by
      simp only [more, hrest, List.drop_drop]
    obtain ⟨hblocks, hend⟩ := ih (hmore hrest) (hmore hrest')
    rw [ofBytes, Block.first?_of_first? hfirst place']
    dsimp only
    rw [if_neg htag, if_neg hnil]
    exact ⟨.cons (Block.moved_of_first? hrest hrest' hfirst) hblocks, hend⟩

/-- So is a whole block. -/
theorem Segment.IsWhole.moved {s : Segment} (hs : s.IsWhole) {image image' rest rest' : Bytes}
    {place place' : Nat} (himage : image.drop place = s.bytes ++ rest)
    (himage' : image'.drop place' = s.bytes ++ rest') :
    (s.block place).Moved image image' (s.block place') := by
  have hpayload {image rest : Bytes} {place : Nat} (himage : image.drop place = s.bytes ++ rest) :
      s.payload = (image.drop (place + Block.headerSize)).take s.size.toNat := by
    rw [← List.drop_drop, himage, bytes, ← length_header hs.1, List.append_assoc, List.drop_left,
      List.take_left' hs.2]
  exact ⟨rfl, hpayload himage, hpayload himage'⟩

theorem drop_of_drop {bs front rest : Bytes} {place : Nat} (hbs : bs.drop place = front ++ rest) :
    bs.drop (place + front.length) = rest := by
  rw [← List.drop_drop, hbs, List.drop_left]

/-- So are any number of them. -/
theorem Segment.moved_blocks {ss : List Segment} (hss : ∀ s ∈ ss, s.IsWhole)
    {image image' rest rest' : Bytes} {place place' : Nat}
    (himage : image.drop place = ss.flatMap bytes ++ rest)
    (himage' : image'.drop place' = ss.flatMap bytes ++ rest') :
    List.Forall₂ (Block.Moved image image') (blocks place ss) (blocks place' ss) := by
  induction ss generalizing place place' with
  | nil => exact .nil
  | cons s ss ih =>
    obtain ⟨hs, hss⟩ := List.forall_mem_cons.1 hss
    rw [List.flatMap_cons, List.append_assoc] at himage himage'
    exact .cons (hs.moved himage himage') (ih hss (drop_of_drop himage) (drop_of_drop himage'))

/-- The bytes of a page are the same. -/
theorem Block.Moved.data {image image' : Bytes} {b b' : Block} (hb : b.Moved image image' b')
    (hsize : Loader.pageFieldsSize ≤ b.size.toNat) : PageData.Moved image.toArray image'.toArray
      (.deferred (b.offset + Loader.pageFieldsSize) (b.size.toNat - Loader.pageFieldsSize))
      (.deferred (b'.offset + Loader.pageFieldsSize) (b'.size.toNat - Loader.pageFieldsSize)) := by
  have hpage {image : Bytes} {b : Block} (hsize : Loader.pageFieldsSize ≤ b.size.toNat)
      (hpayload : b.payload = (image.drop b.offset).take b.size.toNat) :
      image.toArray.extract (b.offset + Loader.pageFieldsSize) (b.offset + Loader.pageFieldsSize +
        (b.size.toNat - Loader.pageFieldsSize)) =
          (b.payload.drop Loader.pageFieldsSize).toArray := by
    rw [hpayload, List.drop_take, List.drop_drop]
    simp
  have hsame := congrArg Block.size hb.same
  have hpayload := congrArg Block.payload hb.same
  dsimp only at hsame hpayload
  have hpage' := hpage (hsame ▸ hsize) hb.payload'
  rw [hpayload, hsame] at hpage'
  rw [hsame]
  exact .deferred ((hpage hsize hb.payload).trans hpage'.symm)

namespace Loader

variable {image image' : Bytes} {l l' : Loader} {b b' : Block}

/-- Only the pages of pools are elsewhere. -/
abbrev Moved (image image' : Bytes) : Loader → Loader → Prop :=
  Both (Pool.Moved image.toArray image'.toArray)

theorem Moved.poolPage (hl : l.Moved image image' l') (hb : b.Moved image image' b') :
    Alike (Moved image image') (l.poolPage b) (l'.poolPage b') := by
  obtain @⟨pools, hp⟩ := hl
  have hsize := congrArg Block.size hb.same
  have hpayload := congrArg Block.payload hb.same
  have hcomplete : b'.isComplete = b.isComplete := by
    rw [Block.isComplete, Block.isComplete, hsize, hpayload]
  unfold Loader.poolPage
  rw [hsize, hpayload, hcomplete]
  refine .guard fun hshort => ?_
  have hdata := hb.data (not_lt.1 hshort)
  cases pageFields b.payload with
  | none => exact .error rfl
  | some read =>
    obtain ⟨⟨pool, index, mask⟩, page⟩ := read
    refine (hp.get pool).bind fun p q hpool => ?_
    have hadd {data data' : PageData} (hdata : data.Moved image.toArray image'.toArray data') :
        Alike (Moved image image') (l.pools.addPage pool index mask data >>= fun pools =>
            pure { l with pools })
          (pools.addPage pool index mask data' >>= fun pools => pure { l with pools }) :=
      (Pools.Both.addPage (fun _ _ hpool => hpool.addPage index mask hdata) hp pool).bind
        fun _ _ hp => .ok (.withPools hp)
    rw [hpool.isPaged]
    -- The data is left in the image, or is taken as it is, or is not all there.
    split_ifs
    · rw [hsize] at hdata
      exact hadd hdata
    · exact hadd (.bytes page)
    · exact .error rfl

/-- What one block adds. -/
theorem Moved.block (hl : l.Moved image image' l') (hb : b.Moved image image' b') :
    Alike (Moved image image') (l.block b) (l'.block b') :=
  Both.block (fun _ _ _ _ hpool => hpool.define _ _) hl hb.same fun _ => hl.poolPage hb

/-- What blocks add one after the other. -/
theorem Moved.foldlM {bs bs' : List Block} (hl : l.Moved image image' l')
    (hbs : List.Forall₂ (Block.Moved image image') bs bs') :
    Alike (Moved image image') (bs.foldlM Loader.block l) (bs'.foldlM Loader.block l') := by
  induction hbs generalizing l l' with
  | nil => exact .ok hl
  | cons hb _ ih => exact (hl.block hb).bind fun _ _ hl => ih hl

theorem moved_new (image image' : Bytes) (mode : PoolMode) (settings : HeapSettings) :
    Moved image image' { pools := .new mode image.toArray, heap := .new settings }
      { pools := .new mode image'.toArray, heap := .new settings } :=
  .withPools (Pools.moved_new mode image.toArray image'.toArray)

/-- The checks of the whole come out the same. -/
theorem Moved.finish (hl : l.Moved image image' l') : l.finish = l'.finish :=
  Both.finish (fun _ _ hpool => hpool.loadedPages) hl

end Loader

namespace Image

/-- The blocks come after the signature and the version. -/
theorem drop_of_eq {bs body : Bytes} (hbs : bs = signature ++ Bytes.u16 formatVersion ++ body) :
    bs.drop (signature.length + 2) = body := by
  rw [hbs]
  exact List.drop_left' rfl

/-- Two images hold the same: the tables, the exports, the entry point and the object table are
    equal, and the pools answer alike. -/
structure SameContents (r r' : Image × Pools × Heap) : Prop where
  /-- The format version. -/
  version : r.1.version = r'.1.version
  /-- The table of metaclasses. -/
  metaclasses : r.1.metaclasses = r'.1.metaclasses
  /-- The table of function sets. -/
  functionSets : r.1.functionSets = r'.1.functionSets
  /-- The entry point. -/
  entry : r.1.entry = r'.1.entry
  /-- The exported values. -/
  exports : r.1.exports = r'.1.exports
  /-- The object table. -/
  heap : r.2.2 = r'.2.2
  /-- What the pools answer. -/
  pools : ∀ calls, r.2.1.answers calls = r'.2.1.answers calls

end Image

end StoryMachine
