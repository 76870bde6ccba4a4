import StoryMachine.Code.Method
import StoryMachine.Digest.Sha256
import StoryMachine.Heap.Basic
import StoryMachine.Image.Block
import StoryMachine.Intrinsic
import StoryMachine.Metaclass.Data
import StoryMachine.Metaclass.Table
import StoryMachine.Pool

/-!
# Loading images

The blocks of an image are taken in one after the other; they fill the pools, the
tables of dependencies and the object table. What needs the whole image is checked
at the end, before any code runs.

* `Loader.block`: what one block adds;
* `Loader.finish`: the checks of the whole;
* `Image.load`: an image from its bytes.
-/

namespace StoryMachine

/-- Where a program starts, and how its methods are laid out. -/
structure EntryPoint where
  /-- The code offset of the method header of the first function. -/
  codeOfs : UInt32
  /-- The size of method headers. -/
  headerSize : UInt16
  /-- The size of exception table entries. -/
  excEntrySize : UInt16
deriving DecidableEq, Inhabited, Repr

/-- Values by exported name. -/
abbrev Exports := List (String × Value)

/-- Exports a value under a name, in place of an earlier one. -/
def Exports.insert (e : Exports) (name : String) (v : Value) : Exports :=
  e.filter (·.1 != name) ++ [(name, v)]

/-- The exported objects and properties that the machine itself uses. -/
structure SpecialObjects where
  /-- The class of exceptions that the machine raises. -/
  runtimeError? : Option ObjectId := none
  /-- The property for the message of such an exception. -/
  exceptionMessage? : Option PropId := none
  /-- The property for the number of such an exception. -/
  errno? : Option PropId := none
deriving DecidableEq, Inhabited, Repr

/-- What a loaded image says that no program changes. -/
structure Image where
  /-- The format version. -/
  version : UInt16
  /-- The digest of all bytes, which tells images apart. -/
  identity : Bytes
  /-- The blocks. -/
  blocks : List Block
  /-- The metaclasses. -/
  metaclasses : MetaclassTable
  /-- The function sets. -/
  functionSets : FunctionSetTable
  /-- Where the program starts. -/
  entry : EntryPoint
  /-- The exported values. -/
  exports : Exports
  /-- The objects by number, in the order of the image. -/
  objects : Array (UInt32 × Object)
deriving Inhabited

/-- An image being loaded. -/
structure Loader where
  /-- The pools. -/
  pools : Pools
  /-- The object table. -/
  heap : Heap
  /-- The metaclasses, once their block has been seen. -/
  metaclasses? : Option MetaclassTable := none
  /-- The function sets, once their block has been seen. -/
  functionSets? : Option FunctionSetTable := none
  /-- Where the program starts, once that block has been seen. -/
  entry? : Option EntryPoint := none
  /-- The exported values. -/
  exports : Exports := []
  /-- The objects by number. -/
  objects : Array (UInt32 × Object) := #[]
deriving Inhabited

namespace Loader

/-- The image breaks off. -/
def truncated : Failure := ⟨.imageTruncated, []⟩

/-- A block is not as it should be. -/
def badBlock (tag why : String) : Failure := ⟨.badBlockData, [tag, why]⟩

/-- Reads a part of a block. -/
def part {α : Type} (tag : String) (r : Reader α) : Parser α := .of (badBlock tag "truncated") r

/-- The payload of a block, which has to be all there. -/
def payload (b : Block) : Except Failure Bytes :=
  if b.isComplete then .ok b.payload else .error truncated

/-! ## Dependencies -/

/-- An entry of the metaclass table: a dependency and properties, each of which
    takes as many bytes as the entry says. -/
def metaclassEntry : Parser (String × List PropId) := do
  let name ← part "MCLD" Reader.name
  let count ← part "MCLD" Reader.u16
  let width ← part "MCLD" Reader.u16
  if width < 2 then throw (badBlock "MCLD" "property entries shorter than 2 bytes")
  let props ← part "MCLD" <| Reader.replicate count.toNat do
    let bs ← Reader.bytes width.toNat
    return UInt16.ofNat (Bytes.toNat (bs.take 2))
  return (name, props)

/-- `n` more entries of the metaclass table, each after its length. -/
def metaclassEntries : (n : Nat) → MetaclassTable → Parser MetaclassTable
  | 0, t => pure t
  | n + 1, t => do
    let length ← part "MCLD" Reader.u16
    let entry ← part "MCLD" (Reader.bytes length.toNat)
    let ((name, props), _) ← metaclassEntry entry
    let (_, t) ← t.add name props
    metaclassEntries n t

/-- Takes in the metaclass table. -/
def metaclassTable (l : Loader) (bs : Bytes) : Except Failure Loader := do
  if l.metaclasses?.isSome then throw ⟨.duplicateBlock, ["MCLD"]⟩
  let (n, bs) ← part "MCLD" Reader.u16 bs
  let (t, _) ← metaclassEntries n.toNat {} bs
  return { l with metaclasses? := some t }

/-- `n` more function sets. -/
def functionSetEntries : (n : Nat) → FunctionSetTable → Parser FunctionSetTable
  | 0, t => pure t
  | n + 1, t => do
    let name ← part "FNSD" Reader.name
    let (_, t) ← t.add name
    functionSetEntries n t

/-- Takes in the function set table. -/
def functionSetTable (l : Loader) (bs : Bytes) : Except Failure Loader := do
  if l.functionSets?.isSome then throw ⟨.duplicateBlock, ["FNSD"]⟩
  let (n, bs) ← part "FNSD" Reader.u16 bs
  let (t, _) ← functionSetEntries n.toNat {} bs
  return { l with functionSets? := some t }

/-! ## Pools -/

/-- Takes in the definition of a pool. -/
def poolDefinition (l : Loader) (bs : Bytes) : Except Failure Loader := do
  let fields : Parser (UInt16 × UInt32 × UInt32) := part "CPDF" do
    return (← Reader.u16, ← Reader.u32, ← Reader.u32)
  let ((pool, pageCount, pageSize), _) ← fields bs
  let pools ← l.pools.define pool pageCount pageSize
  return { l with pools }

/-- What stands before the bytes of a page: the pool, the number of the page and
    the mask. -/
def pageFields : Reader (UInt16 × UInt32 × UInt8) := do
  return (← Reader.u16, ← Reader.u32, ← Reader.u8)

/-- The length of what stands before the bytes of a page. -/
def pageFieldsSize : Nat := 7

/-- Takes in a page, whose bytes are left in the image if the pool is paged. -/
def poolPage (l : Loader) (b : Block) : Except Failure Loader := do
  if b.size.toNat < pageFieldsSize then throw (badBlock "CPPG" "truncated")
  match pageFields b.payload with
  | none => throw truncated
  | some ((pool, index, mask), page) =>
    let p ← l.pools.get pool
    let data ←
      if p.isPaged then
        pure (.deferred (b.offset + pageFieldsSize) (b.size.toNat - pageFieldsSize))
      else if b.isComplete then pure (.bytes page)
      else throw truncated
    let pools ← l.pools.addPage pool index mask data
    return { l with pools }

/-! ## Objects -/

/-- `n` more objects of a metaclass, whose lengths take four bytes if `large`. -/
def objectEntries (metaclass : MetaclassId) (kind : Kind) (large : Bool) :
    (n : Nat) → Loader → Parser Loader
  | 0, l => pure l
  | n + 1, l => do
    let id ← part "OBJS" Reader.u32
    let length ← part "OBJS" (Reader.nat (if large then 4 else 2))
    let data ← part "OBJS" (Reader.bytes length)
    let body ← match ObjectData.load kind data with
      | .ok body => pure body
      | .error e => throw ⟨.badObjectData, toString id.toNat :: e.args⟩
    let object : Object := ⟨metaclass, body⟩
    match l with
    | ⟨pools, heap, metaclasses?, functionSets?, entry?, exports, objects⟩ =>
      match Heap.define id object heap with
      | .error e _ => throw e.failure
      | .ok _ heap =>
        objectEntries metaclass kind large n
          ⟨pools, heap, metaclasses?, functionSets?, entry?, exports, objects.push (id, object)⟩

/-- Takes in a run of objects of one metaclass. -/
def objectRun (l : Loader) (bs : Bytes) : Except Failure Loader := do
  match l.metaclasses? with
  | none => throw ⟨.blockOrder, ["OBJS", "the metaclass table must come first"]⟩
  | some t =>
    let fields : Parser (UInt16 × UInt16 × UInt16) := part "OBJS" do
      return (← Reader.u16, ← Reader.u16, ← Reader.u16)
    let ((n, metaclass, flags), bs) ← fields bs
    match t.get? metaclass with
    | none => throw ⟨.badMetaclassIndex, [toString metaclass.toNat]⟩
    | some entry =>
      let (l, rest) ← objectEntries metaclass entry.kind (flags &&& 1 != 0) n.toNat l bs
      if rest ≠ [] then throw (badBlock "OBJS" "trailing bytes after objects")
      return l

/-! ## Symbols and entry point -/

/-- `n` more exported values. -/
def symbolEntries : (n : Nat) → Exports → Parser Exports
  | 0, e => pure e
  | n + 1, e => do
    let v ← part "SYMD" Reader.value
    let name ← part "SYMD" Reader.name
    symbolEntries n (e.insert name v)

/-- Takes in exported values. -/
def symbols (l : Loader) (bs : Bytes) : Except Failure Loader := do
  let (n, bs) ← part "SYMD" Reader.u16 bs
  let (exports, _) ← symbolEntries n.toNat l.exports bs
  return { l with exports }

/-- Takes in the entry point, after whose fields stand four for debugging. -/
def entryPoint (l : Loader) (bs : Bytes) : Except Failure Loader := do
  if l.entry?.isSome then throw ⟨.duplicateBlock, ["ENTP"]⟩
  let fields : Parser EntryPoint := part "ENTP" do
    let entry := EntryPoint.mk (← Reader.u32) (← Reader.u16) (← Reader.u16)
    let _ ← Reader.bytes 8
    return entry
  let (entry, _) ← fields bs
  if entry.headerSize.toNat < MethodHeader.size then
    throw (badBlock "ENTP" "method header size below 10")
  if entry.excEntrySize.toNat < ExceptionEntry.size then
    throw (badBlock "ENTP" "exception entry size below 10")
  return { l with entry? := some entry }

/-! ## The whole image -/

/-- Takes in a block. One that is not known is passed over unless it is
    mandatory. -/
def block (l : Loader) (b : Block) : Except Failure Loader := do
  if b.tag = Block.eof then return l
  else if b.tag = Block.metaclasses then l.metaclassTable (← payload b)
  else if b.tag = Block.functionSets then l.functionSetTable (← payload b)
  else if b.tag = Block.poolDefinition then l.poolDefinition (← payload b)
  else if b.tag = Block.poolPage then l.poolPage b
  else if b.tag = Block.objects then l.objectRun (← payload b)
  else if b.tag = Block.symbols then l.symbols (← payload b)
  else if b.tag = Block.entryPoint then l.entryPoint (← payload b)
  else if b.mandatory then throw ⟨.unknownMandatoryBlock, [b.name]⟩
  else return l

/-- Checks that a pool that is defined has a page. -/
def checkPool (ps : Pools) (pool : UInt16) : Except Failure Unit :=
  if ps.isDefined pool && (ps.get? pool).any (·.loadedPages == 0) then
    .error ⟨.noPoolPages, [toString pool.toNat]⟩
  else .ok ()

/-- Checks that the superclasses of an object are objects. -/
def checkSupers (h : Heap) (id : UInt32) (o : Object) : Except Failure Unit :=
  match o.body.supers.find? (!h.contains ·) with
  | none => .ok ()
  | some missing => .error ⟨.badSuperclass, [toString id.toNat, toString missing.index.toNat]⟩

/-- What a complete image has to have: both tables, a code pool, pages for each
    pool, an object, an entry point, and no superclass that is not there. -/
def finish (l : Loader) : Except Failure (MetaclassTable × FunctionSetTable × EntryPoint) := do
  let some metaclasses := l.metaclasses? | throw ⟨.noMetaclassTable, []⟩
  let some functionSets := l.functionSets? | throw ⟨.noFunctionSetTable, []⟩
  if !l.pools.isDefined codePool then throw ⟨.noCodePool, []⟩
  checkPool l.pools codePool
  checkPool l.pools constantPool
  if l.objects.isEmpty then throw ⟨.noObjects, []⟩
  let some entry := l.entry? | throw ⟨.noEntrypoint, []⟩
  l.objects.forM fun (id, o) => checkSupers l.heap id o
  return (metaclasses, functionSets, entry)

end Loader

namespace Image

/-- The exports that the machine itself uses, by their names. -/
def special (i : Image) : SpecialObjects where
  runtimeError? := (i.exports.lookup "RuntimeError").bind Value.obj?
  exceptionMessage? := (i.exports.lookup "exceptionMessage").bind Value.prop?
  errno? := (i.exports.lookup "errno_").bind Value.prop?

/-- What the way in which the blocks end says about the image. -/
def checkEnd : BlocksEnd → Except Failure Unit
  | .eof => .ok ()
  | .trailing => .error ⟨.dataAfterEof, []⟩
  | .truncated => .error Loader.truncated

/-- Reads the signature and the format version. -/
def start (bs : Bytes) : Except Failure (UInt16 × Bytes) := do
  let (front, rest) ← Parser.of ⟨.badSignature, []⟩ (Reader.bytes signature.length) bs
  if front ≠ signature then throw ⟨.badSignature, []⟩
  let (version, rest) ← Parser.of Loader.truncated Reader.u16 rest
  if version ≠ formatVersion then throw ⟨.unsupportedVersion, [toString version.toNat]⟩
  return (version, rest)

/-- The image that the bytes hold, with its pools and its object table. -/
def load (bs : Bytes) (mode : PoolMode) (settings : HeapSettings) :
    Except Failure (Image × Pools × Heap) := do
  let (version, rest) ← start bs
  let blocks := Blocks.ofBytes (signature.length + 2) rest
  let l : Loader := { pools := .new mode bs.toArray, heap := .new settings }
  let l ← blocks.list.foldlM Loader.block l
  checkEnd blocks.ending
  let (metaclasses, functionSets, entry) ← l.finish
  let image : Image :=
    { version
      identity := Sha256.digest bs
      blocks := blocks.list
      metaclasses := metaclasses.ensureRequired
      functionSets
      entry
      exports := l.exports
      objects := l.objects }
  return (image, l.pools, l.heap.openHoles)

/-- Checks that the method header at the entry point can be read. -/
def checkEntry (ps : Pools) (entry : EntryPoint) : Except Failure Unit × Pools :=
  let (r, ps) := ps.readCode entry.codeOfs MethodHeader.size
  (r.map fun _ => (), ps)

end Image

end StoryMachine
