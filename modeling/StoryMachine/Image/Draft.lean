import StoryMachine.Code.Method
import StoryMachine.Image.Block
import StoryMachine.Metaclass.Data
import StoryMachine.Pool.Basic

/-!
# Images under construction

A draft collects what an image is to hold: dependencies, code, constants, objects,
exported symbols and an entry point. Its bytes are an image.

* `ImageDraft.addCode`, `ImageDraft.addString`, `ImageDraft.addList`: pool data,
  which is kept on one page where it fits;
* `ImageDraft.addObject`: an object;
* `ImageDraft.encode`: the bytes of the image.
-/

namespace StoryMachine

/-- An object of a draft. -/
structure DraftObject where
  /-- Its number. -/
  id : UInt32
  /-- The place of its metaclass. -/
  metaclass : MetaclassId
  /-- Its data. -/
  data : Bytes
deriving DecidableEq, Inhabited, Repr

/-- An image under construction. -/
structure ImageDraft where
  /-- The format version. -/
  version : UInt16 := Image.formatVersion
  /-- The page size of both pools. -/
  pageSize : UInt32 := 4096
  /-- The mask of pool pages. -/
  mask : UInt8 := 0
  /-- The metaclasses with their properties. -/
  metaclasses : Array (String × List PropId) := #[]
  /-- The function sets. -/
  functionSets : Array String := #[]
  /-- The bytes of the code pool. -/
  code : Array UInt8 := #[]
  /-- The bytes of the constant pool. -/
  constants : Array UInt8 := #[]
  /-- The objects, in the order in which they were added. -/
  objects : Array DraftObject := #[]
  /-- The exported symbols. -/
  symbols : Array (String × Value) := #[]
  /-- The code offset at which the program starts. -/
  entry? : Option UInt32 := none
  /-- Further blocks, each with its tag and whether it is mandatory. -/
  extra : Array (Bytes × Bool × Bytes) := #[]
deriving Inhabited

namespace ImageDraft

/-- Sets the page size, which is at least one. -/
def setPageSize (d : ImageDraft) (n : UInt32) : ImageDraft :=
  { d with pageSize := if n = 0 then 1 else n }

/-- Adds a metaclass, and gives its place. -/
def addMetaclass (d : ImageDraft) (dep : String) (props : List PropId) : UInt16 × ImageDraft :=
  (.ofNat d.metaclasses.size, { d with metaclasses := d.metaclasses.push (dep, props) })

/-- Adds a function set, and gives its place. -/
def addFunctionSet (d : ImageDraft) (dep : String) : UInt8 × ImageDraft :=
  (.ofNat d.functionSets.size, { d with functionSets := d.functionSets.push dep })

/-- The bytes of a pool with some more, which do not straddle a page unless they
    are longer than one. -/
def place (pool : Array UInt8) (pageSize : Nat) (bs : Bytes) : UInt32 × Array UInt8 :=
  let used := pool.size % pageSize
  let pool :=
    if used ≠ 0 ∧ bs.length ≤ pageSize ∧ pageSize < used + bs.length then
      pool ++ Array.replicate (pageSize - used) 0
    else pool
  (.ofNat pool.size, pool.appendList bs)

/-- Adds code, and gives its offset. -/
def addCode (d : ImageDraft) (bs : Bytes) : UInt32 × ImageDraft :=
  let (ofs, code) := place d.code d.pageSize.toNat bs
  (ofs, { d with code })

/-- Adds constant data, and gives its offset. -/
def addConstant (d : ImageDraft) (bs : Bytes) : UInt32 × ImageDraft :=
  let (ofs, constants) := place d.constants d.pageSize.toNat bs
  (ofs, { d with constants })

/-- Adds a constant string, and gives its offset. -/
def addString (d : ImageDraft) (s : String) : UInt32 × ImageDraft :=
  let bs := Bytes.ofText s
  d.addConstant (Bytes.u16 (.ofNat bs.length) ++ bs)

/-- Adds a constant list, and gives its offset. -/
def addList (d : ImageDraft) (vs : List Value) : UInt32 × ImageDraft :=
  d.addConstant (ObjectData.items vs)

/-- Adds an object. -/
def addObject (d : ImageDraft) (id : UInt32) (metaclass : MetaclassId) (data : Bytes) :
    ImageDraft :=
  { d with objects := d.objects.push { id, metaclass, data } }

/-- Exports a value under a name. -/
def addSymbol (d : ImageDraft) (name : String) (v : Value) : ImageDraft :=
  { d with symbols := d.symbols.push (name, v) }

/-- Adds a block as it is. -/
def addBlock (d : ImageDraft) (tag : Bytes) (mandatory : Bool) (payload : Bytes) : ImageDraft :=
  { d with extra := d.extra.push (tag, mandatory, payload) }

/-! ## Bytes -/

/-- The entry of a metaclass, after its length. -/
def metaclassEntry (dep : String) (props : List PropId) : Bytes :=
  let entry := Bytes.name dep ++ ObjectData.count props.length ++ Bytes.u16 2 ++
    props.flatMap Bytes.u16
  ObjectData.count entry.length ++ entry

/-- The block of metaclasses. -/
def metaclassBlock (d : ImageDraft) : Bytes :=
  Block.encode Block.metaclasses true <|
    ObjectData.count d.metaclasses.size ++
      d.metaclasses.toList.flatMap fun (dep, props) => metaclassEntry dep props

/-- The block of function sets. -/
def functionSetBlock (d : ImageDraft) : Bytes :=
  Block.encode Block.functionSets true <|
    ObjectData.count d.functionSets.size ++ d.functionSets.toList.flatMap Bytes.name

/-- The bytes of a pool divided into `n` pages. -/
def pages (size : Nat) : (n : Nat) → Bytes → List Bytes
  | 0, _ => []
  | n + 1, bs => bs.take size :: pages size n (bs.drop size)

/-- The blocks of a pool: its definition and its pages. -/
def poolBlocks (d : ImageDraft) (pool : UInt16) (bs : Array UInt8) : Bytes :=
  let size := d.pageSize.toNat
  let all := pages size ((bs.size + size - 1) / size) bs.toList
  let definition := Bytes.u16 pool ++ Bytes.u32 (.ofNat all.length) ++ Bytes.u32 d.pageSize
  Block.encode Block.poolDefinition true definition ++
    all.zipIdx.flatMap fun (page, i) =>
      Block.encode Block.poolPage true <|
        Bytes.u16 pool ++ Bytes.u32 (.ofNat i) ++ d.mask :: page.map (· ^^^ d.mask)

/-- The block of a run of objects of one metaclass. If one of them has much data,
    the lengths of all take four bytes. -/
def objectBlock (metaclass : MetaclassId) (group : List DraftObject) : Bytes :=
  let large := group.any fun o => 65535 < o.data.length
  let length (n : Nat) : Bytes := if large then Bytes.u32 (.ofNat n) else Bytes.u16 (.ofNat n)
  Block.encode Block.objects true <|
    ObjectData.count group.length ++ Bytes.u16 metaclass ++ Bytes.u16 (if large then 1 else 0) ++
      group.flatMap fun o => Bytes.u32 o.id ++ length o.data.length ++ o.data

/-- The blocks of all objects: neighbours of one metaclass share a block. -/
def objectBlocks (d : ImageDraft) : Bytes :=
  (d.objects.toList.splitBy (·.metaclass == ·.metaclass)).flatMap fun group =>
    match group with
    | [] => []
    | o :: _ => objectBlock o.metaclass group

/-- The block of symbols, if there are any. -/
def symbolBlock (d : ImageDraft) : Bytes :=
  if d.symbols.isEmpty then []
  else
    Block.encode Block.symbols false <|
      ObjectData.count d.symbols.size ++
        d.symbols.toList.flatMap fun (name, v) => v.portable ++ Bytes.name name

/-- The block of the entry point, if there is one. -/
def entryBlock (d : ImageDraft) : Bytes :=
  match d.entry? with
  | none => []
  | some ofs =>
    Block.encode Block.entryPoint true <|
      Bytes.u32 ofs ++ Bytes.u16 (.ofNat MethodHeader.size) ++
        Bytes.u16 (.ofNat ExceptionEntry.size) ++ List.replicate 8 0

/-- The bytes of the image. -/
def encode (d : ImageDraft) : Bytes :=
  let constants := if d.constants.isEmpty then [] else d.poolBlocks constantPool d.constants
  let extra := d.extra.toList.flatMap fun (tag, mandatory, payload) =>
    Block.encode tag mandatory payload
  Image.signature ++ Bytes.u16 d.version ++ d.metaclassBlock ++ d.functionSetBlock ++
    d.poolBlocks codePool d.code ++ constants ++ d.objectBlocks ++ d.symbolBlock ++ extra ++
    d.entryBlock ++ Block.encode Block.eof true []

end ImageDraft

end StoryMachine
