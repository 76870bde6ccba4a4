import StoryMachine.Image.Draft
import StoryMachine.Proofs.Bytes

/-!
# The blocks of a draft

The bytes of a draft are a signature, a version and blocks, each written after the other.
When they are divided into blocks again, these are the blocks that were written.

* `DraftBlock`: a block as it is written;
* `Blocks.ofBytes_append`, `Blocks.ofBytes_encode`: blocks that were written;
* `ImageDraft.blocks`, `ImageDraft.encode_eq`: the blocks of a draft.
-/

namespace StoryMachine

/-- A block as it is written. -/
structure DraftBlock where
  /-- Its tag. -/
  tag : Bytes
  /-- Whether the image cannot be used without it. -/
  mandatory : Bool
  /-- What it holds. -/
  payload : Bytes
deriving DecidableEq, Repr

namespace DraftBlock

/-- The bytes of a block. -/
def encode (b : DraftBlock) : Bytes := Block.encode b.tag b.mandatory b.payload

/-- The block when it is read at a place in an image. -/
def block (b : DraftBlock) (place : Nat) : Block where
  tag := b.tag
  offset := place + Block.headerSize
  size := .ofNat b.payload.length
  mandatory := b.mandatory
  payload := b.payload

/-- The blocks when they are read from a place in an image on. -/
def placed : (place : Nat) → List DraftBlock → List Block
  | _, [] => []
  | place, b :: bs => b.block place :: placed (place + (Block.headerSize + b.payload.length)) bs

/-- The block that ends an image. -/
def eof : DraftBlock := ⟨Block.eof, true, []⟩

/-- The tag has four bytes, and the size of the payload can be written. -/
def Fits (b : DraftBlock) : Prop := b.tag.length = 4 ∧ b.payload.length < 2 ^ 32

variable {b : DraftBlock} {bs : List DraftBlock}

theorem Fits.toNat_size (hb : b.Fits) :
    (UInt32.ofNat b.payload.length).toNat = b.payload.length :=
  UInt32.toNat_ofNat_of_lt' hb.2

theorem Fits.isComplete (hb : b.Fits) (place : Nat) : (b.block place).isComplete = true := by
  rw [Block.isComplete, block, hb.toNat_size]
  exact beq_self_eq_true _

/-- What stands before the payload is read. -/
theorem Fits.reads_header (hb : b.Fits) : Block.header.Reads
    (b.tag ++ (Bytes.u32 (.ofNat b.payload.length) ++ Bytes.u16 (if b.mandatory then 1 else 0)))
    (b.tag, .ofNat b.payload.length, b.mandatory) := by
  have htag : (Reader.bytes 4).Reads b.tag b.tag := hb.1 ▸ Reader.reads_bytes b.tag
  refine htag.bind (.bind (Reader.reads_u32 _) ?_)
  have hread := (Reader.reads_u16 (if b.mandatory then 1 else 0)).map fun flags =>
    (b.tag, UInt32.ofNat b.payload.length, flags &&& 1 != 0)
  have hflag : ((if b.mandatory then 1 else 0 : UInt16) &&& 1 != 0) = b.mandatory := by
    cases b.mandatory <;> rfl
  rw [hflag] at hread
  exact hread

theorem Fits.length_encode (hb : b.Fits) :
    b.encode.length = Block.headerSize + b.payload.length := by
  simp only [encode, Block.encode, Block.headerSize, List.length_append, Bytes.u32, Bytes.u16,
    Bytes.length_ofNat, hb.1]

/-- A block that was written is the first of the blocks. -/
theorem Fits.first?_encode (hb : b.Fits) (place : Nat) (rest : Bytes) :
    Block.first? place (b.encode ++ rest) = some (b.block place) := by
  have hheader := hb.reads_header (b.payload ++ rest)
  rw [Block.first?, encode, Block.encode]
  simp only [List.append_assoc] at hheader ⊢
  rw [hheader]
  change some (Block.mk b.tag (place + Block.headerSize) (.ofNat b.payload.length) b.mandatory
    ((b.payload ++ rest).take (UInt32.ofNat b.payload.length).toNat)) = _
  rw [hb.toNat_size, List.take_left']
  · rfl
  · rfl

/-- Blocks that are read after others are in the place where these end. -/
theorem placed_append (hbs : ∀ b ∈ bs, b.Fits) (place : Nat) (bs' : List DraftBlock) :
    placed place (bs ++ bs') =
      placed place bs ++ placed (place + (bs.flatMap encode).length) bs' := by
  induction bs generalizing place with
  | nil => rfl
  | cons b bs ih =>
    obtain ⟨hb, hbs⟩ := List.forall_mem_cons.1 hbs
    rw [List.cons_append, placed, ih hbs, placed, List.flatMap_cons, List.length_append,
      hb.length_encode, Nat.add_assoc place, List.cons_append]

theorem fits_eof : eof.Fits := ⟨by decide +kernel, by decide⟩

end DraftBlock

namespace Blocks

variable {bs : List DraftBlock}

/-- Blocks that were written are the first ones, whatever follows them. The induction is on the
    blocks, at the place after those that come before. -/
theorem ofBytes_append (hbs : ∀ b ∈ bs, b.Fits ∧ b.tag ≠ Block.eof) (place : Nat) (rest : Bytes) :
    ofBytes place (bs.flatMap DraftBlock.encode ++ rest) =
      let more := ofBytes (place + (bs.flatMap DraftBlock.encode).length) rest
      ⟨DraftBlock.placed place bs ++ more.list, more.ending⟩ := by
  induction bs generalizing place with
  | nil => rfl
  | cons b bs ih =>
    obtain ⟨⟨hb, htag⟩, hbs⟩ := List.forall_mem_cons.1 hbs
    have hlength : Block.headerSize + (b.block place).size.toNat = b.encode.length := by
      rw [hb.length_encode, DraftBlock.block, hb.toNat_size]
    -- There is more to read, as the block is not empty.
    have hne : b.encode ++ (bs.flatMap DraftBlock.encode ++ rest) ≠ [] := by
      intro hnil
      have hzero := congrArg List.length (List.append_eq_nil_iff.1 hnil).1
      rw [hb.length_encode, Block.headerSize, List.length_nil] at hzero
      omega
    have htag : (b.block place).tag ≠ Block.eof := htag
    rw [List.flatMap_cons, List.append_assoc, ofBytes, hb.first?_encode]
    dsimp only
    rw [if_neg htag, if_neg hne, hlength, List.drop_left, ih hbs, List.length_append,
      Nat.add_assoc place, DraftBlock.placed, ← hb.length_encode, List.cons_append]

/-- Nothing comes after the block that ends an image. -/
theorem ofBytes_eof (place : Nat) :
    ofBytes place DraftBlock.eof.encode = ⟨[DraftBlock.eof.block place], .eof⟩ := by
  have hfirst := DraftBlock.fits_eof.first?_encode place []
  rw [List.append_nil] at hfirst
  have hrest : DraftBlock.eof.encode.drop
      (Block.headerSize + (DraftBlock.eof.block place).size.toNat) = [] := by
    apply List.drop_of_length_le
    rw [DraftBlock.fits_eof.length_encode]
    rfl
  have htag : (DraftBlock.eof.block place).tag = Block.eof := rfl
  rw [ofBytes, hfirst]
  dsimp only
  rw [hrest, if_pos htag, if_pos rfl]

theorem ofBytes_encode (hbs : ∀ b ∈ bs, b.Fits ∧ b.tag ≠ Block.eof) (place : Nat) :
    ofBytes place (bs.flatMap DraftBlock.encode ++ DraftBlock.eof.encode) =
      ⟨DraftBlock.placed place (bs ++ [DraftBlock.eof]), .eof⟩ := by
  rw [ofBytes_append hbs, ofBytes_eof, DraftBlock.placed_append fun b hb => (hbs b hb).1]
  rfl

end Blocks

/-! ## The blocks of a draft -/

namespace ImageDraft

variable (d : ImageDraft)

/-- The entry of a metaclass, whose length stands before it. -/
def entryBytes (dep : String) (props : List PropId) : Bytes :=
  Bytes.name dep ++ ObjectData.count props.length ++ Bytes.u16 2 ++ props.flatMap Bytes.u16

/-- The number of metaclasses, and their entries. -/
def metaclassPayload : Bytes :=
  ObjectData.count d.metaclasses.size ++
    d.metaclasses.toList.flatMap fun (dep, props) => metaclassEntry dep props

/-- The number of function sets, and their names. -/
def functionSetPayload : Bytes :=
  ObjectData.count d.functionSets.size ++ d.functionSets.toList.flatMap Bytes.name

/-- The bytes of a pool divided into pages. -/
def pagesOf (bs : Bytes) : List Bytes :=
  pages d.pageSize.toNat ((bs.length + d.pageSize.toNat - 1) / d.pageSize.toNat) bs

/-- The definition of a pool. -/
def poolDefinition (pool : UInt16) (bs : Bytes) : DraftBlock where
  tag := Block.poolDefinition
  mandatory := true
  payload := Bytes.u16 pool ++ Bytes.u32 (.ofNat (d.pagesOf bs).length) ++ Bytes.u32 d.pageSize

/-- A page of a pool. -/
def poolPage (pool : UInt16) (page : Bytes) (i : Nat) : DraftBlock where
  tag := Block.poolPage
  mandatory := true
  payload := Bytes.u16 pool ++ Bytes.u32 (.ofNat i) ++ d.mask :: page.map (· ^^^ d.mask)

/-- The definition and the pages of a pool. -/
def pool (pool : UInt16) (bs : Bytes) : List DraftBlock :=
  d.poolDefinition pool bs :: (d.pagesOf bs).zipIdx.map fun (page, i) => d.poolPage pool page i

/-- Whether an object of a run has so much data that the lengths of all take four bytes. -/
def isLarge (group : List DraftObject) : Bool := group.any fun o => 65535 < o.data.length

/-- An object of a run. -/
def objectBytes (large : Bool) (o : DraftObject) : Bytes :=
  Bytes.u32 o.id ++
    (if large then Bytes.u32 (.ofNat o.data.length) else Bytes.u16 (.ofNat o.data.length)) ++ o.data

/-- A run of objects of one metaclass. -/
def objectRun (metaclass : MetaclassId) (group : List DraftObject) : DraftBlock where
  tag := Block.objects
  mandatory := true
  payload := ObjectData.count group.length ++ Bytes.u16 metaclass ++
    Bytes.u16 (if isLarge group then 1 else 0) ++ group.flatMap (objectBytes (isLarge group))

/-- The runs of neighbours of one metaclass. -/
def groups : List (List DraftObject) := d.objects.toList.splitBy (·.metaclass == ·.metaclass)

/-- The runs that groups of objects make up. -/
def runsOf (groups : List (List DraftObject)) : List DraftBlock :=
  groups.flatMap fun group =>
    match group with
    | [] => []
    | o :: _ => [objectRun o.metaclass group]

/-- The number of symbols, and the value and the name of each. -/
def symbolPayload : Bytes :=
  ObjectData.count d.symbols.size ++
    d.symbols.toList.flatMap fun (name, v) => v.portable ++ Bytes.name name

/-- The entry point and the sizes of headers and of exception table entries. -/
def entryPayload (ofs : UInt32) : Bytes :=
  Bytes.u32 ofs ++ Bytes.u16 (.ofNat MethodHeader.size) ++
    Bytes.u16 (.ofNat ExceptionEntry.size) ++ List.replicate 8 0

/-- The blocks of a draft but for the one that ends the image. -/
def blocks : List DraftBlock :=
  [⟨Block.metaclasses, true, d.metaclassPayload⟩,
    ⟨Block.functionSets, true, d.functionSetPayload⟩] ++
    d.pool codePool d.code.toList ++
    (if d.constants.isEmpty then [] else d.pool constantPool d.constants.toList) ++
    runsOf d.groups ++
    (if d.symbols.isEmpty then [] else [⟨Block.symbols, false, d.symbolPayload⟩]) ++
    d.extra.toList.map (fun (tag, mandatory, payload) => ⟨tag, mandatory, payload⟩) ++
    d.entry?.toList.map fun ofs => ⟨Block.entryPoint, true, entryPayload ofs⟩

theorem flatMap_encode_pool (p : UInt16) (bs : Array UInt8) :
    (d.pool p bs.toList).flatMap DraftBlock.encode = d.poolBlocks p bs := by
  rw [pool, List.flatMap_cons, List.flatMap_map]
  rfl

theorem flatMap_encode_runsOf :
    (runsOf d.groups).flatMap DraftBlock.encode = d.objectBlocks := by
  rw [runsOf, objectBlocks, List.flatMap_assoc]
  refine congrArg List.flatten (List.map_congr_left fun group _ => ?_)
  cases group with
  | nil => rfl
  | cons o os => exact List.flatMap_singleton _ _

/-- The bytes of a draft are those of its blocks. -/
theorem encode_eq : d.encode = Image.signature ++ Bytes.u16 d.version ++
    (d.blocks.flatMap DraftBlock.encode ++ DraftBlock.eof.encode) := by
  have htables : [DraftBlock.mk Block.metaclasses true d.metaclassPayload,
      ⟨Block.functionSets, true, d.functionSetPayload⟩].flatMap DraftBlock.encode =
        d.metaclassBlock ++ d.functionSetBlock := by
    rw [List.flatMap_cons, List.flatMap_singleton]
    rfl
  have hconstants : (if d.constants.isEmpty then [] else
      d.pool constantPool d.constants.toList).flatMap DraftBlock.encode =
        if d.constants.isEmpty then [] else d.poolBlocks constantPool d.constants := by
    split
    · rfl
    · exact d.flatMap_encode_pool constantPool d.constants
  have hsymbols : (if d.symbols.isEmpty then [] else
      [DraftBlock.mk Block.symbols false d.symbolPayload]).flatMap DraftBlock.encode =
        d.symbolBlock := by
    rw [symbolBlock]
    split
    · rfl
    · exact List.flatMap_singleton _ _
  have hentry : List.flatMap DraftBlock.encode
      ( d.entry?.toList.map fun ofs => ⟨Block.entryPoint, true, entryPayload ofs⟩) =
        d.entryBlock := by
    rw [entryBlock]
    cases d.entry? with
    | none => rfl
    | some ofs => exact List.flatMap_singleton _ _
  rw [blocks, encode]
  simp only [List.flatMap_append, htables, flatMap_encode_pool, hconstants,
    flatMap_encode_runsOf, hsymbols, hentry, List.flatMap_map, List.append_assoc]
  rfl

theorem drop_encode : d.encode.drop (Image.signature.length + 2) =
    d.blocks.flatMap DraftBlock.encode ++ DraftBlock.eof.encode := by
  have hlength : (Image.signature ++ Bytes.u16 d.version).length = Image.signature.length + 2 := by
    rw [List.length_append, Bytes.u16, Bytes.length_ofNat]
  rw [encode_eq, ← hlength, List.drop_left]

end ImageDraft

end StoryMachine
