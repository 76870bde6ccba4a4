import StoryMachine.Failure.Message
import StoryMachine.Text.Lossy

/-!
# Image blocks

An image is a signature, a format version and a run of blocks. Each block has a
tag, a size, flags and a payload of that size; a block with a special tag ends the
image. This module divides an image into its blocks, whatever they hold.

* `Block.encode`: the bytes of a block;
* `Blocks.ofBytes`: the blocks of a byte string, and how they end.
-/

namespace StoryMachine

namespace Image

/-- The bytes that every image starts with. -/
def signature : Bytes := [0x54, 0x33, 0x2D, 0x69, 0x6D, 0x61, 0x67, 0x65, 0x0D, 0x0A, 0x1A]

/-- The format version that can be read. -/
def formatVersion : UInt16 := 1

end Image

/-- A block of an image. -/
structure Block where
  /-- The four bytes that say what the block holds. -/
  tag : Bytes
  /-- Where the payload starts in the image. -/
  offset : Nat
  /-- The size of the payload. -/
  size : UInt32
  /-- Whether the image cannot be used without the block. -/
  mandatory : Bool
  /-- The payload, or as much of it as there is where the image breaks off. -/
  payload : Bytes
deriving DecidableEq, Inhabited, Repr

namespace Block

/-- The length of what stands before the payload. -/
def headerSize : Nat := 10

/-- The tag of the metaclass table. -/
def metaclasses : Bytes := Bytes.ofText "MCLD"

/-- The tag of the function set table. -/
def functionSets : Bytes := Bytes.ofText "FNSD"

/-- The tag of a pool definition. -/
def poolDefinition : Bytes := Bytes.ofText "CPDF"

/-- The tag of a pool page. -/
def poolPage : Bytes := Bytes.ofText "CPPG"

/-- The tag of a run of objects. -/
def objects : Bytes := Bytes.ofText "OBJS"

/-- The tag of exported symbols. -/
def symbols : Bytes := Bytes.ofText "SYMD"

/-- The tag of the entry point. -/
def entryPoint : Bytes := Bytes.ofText "ENTP"

/-- The tag of the block that ends an image. -/
def eof : Bytes := Bytes.ofText "EOF "

/-- The tag as text. -/
def name (b : Block) : String := Text.lossy b.tag

/-- Whether the payload is all there. -/
def isComplete (b : Block) : Bool := b.payload.length == b.size.toNat

/-- The bytes of a block. -/
def encode (tag : Bytes) (mandatory : Bool) (payload : Bytes) : Bytes :=
  tag ++ Bytes.u32 (UInt32.ofNat payload.length) ++ Bytes.u16 (if mandatory then 1 else 0) ++
    payload

/-- The tag, the size and whether the block is mandatory. -/
def header : Reader (Bytes × UInt32 × Bool) := do
  let tag ← Reader.bytes 4
  let size ← Reader.u32
  let flags ← Reader.u16
  return (tag, size, flags &&& 1 != 0)

/-- The block that starts at `place` in an image, whose bytes from there on are
    given. -/
def first? (place : Nat) (bs : Bytes) : Option Block :=
  match header bs with
  | none => none
  | some ((tag, size, mandatory), rest) =>
    some { tag, offset := place + headerSize, size, mandatory, payload := rest.take size.toNat }

end Block

/-- How the blocks of an image end. -/
inductive BlocksEnd where
  /-- With the block that ends an image. -/
  | eof
  /-- With that block, and more bytes after it. -/
  | trailing
  /-- Without that block. -/
  | truncated
deriving DecidableEq, Repr

/-- The blocks of an image. -/
structure Blocks where
  /-- The blocks, the one that ends the image among them. -/
  list : List Block
  /-- How they end. -/
  ending : BlocksEnd
deriving DecidableEq, Repr

namespace Blocks

/-- The blocks of the bytes from `place` in an image on. -/
def ofBytes (place : Nat) (bs : Bytes) : Blocks :=
  match Block.first? place bs with
  | none => ⟨[], .truncated⟩
  | some b =>
    let length := Block.headerSize + b.size.toNat
    let rest := bs.drop length
    if b.tag = Block.eof then ⟨[b], if rest = [] then .eof else .trailing⟩
    else if bs = [] then ⟨[], .truncated⟩
    else
      let more := ofBytes (place + length) rest
      ⟨b :: more.list, more.ending⟩
termination_by bs.length
decreasing_by
  have : bs.length ≠ 0 := by simpa using ‹¬ bs = []›
  simp only [List.length_drop, Block.headerSize]
  omega

end Blocks

end StoryMachine
