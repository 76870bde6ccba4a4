import StoryMachine.Pool.Memory
import StoryMachine.Pool.Paged
import StoryMachine.Value.Portable

/-!
# Pools

A machine has a pool of code and a pool of constants. Both are kept in memory, or
both are read on demand from the image; what is read at an offset is the same.

* `Pool.slice`: the bytes at an offset of a pool;
* `Pools.readCode`, `Pools.readString`, `Pools.readList`: code bytes, constant
  strings and constant lists.
-/

namespace StoryMachine

/-- A pool, kept in memory or read on demand. -/
inductive Pool where
  /-- All pages are in memory. -/
  | memory (p : MemoryPool)
  /-- Pages are read on demand. -/
  | paged (p : PagedPool)
deriving Inhabited

namespace Pool

/-- The room for pages. -/
def geometry : Pool → Geometry
  | memory p => p.geometry
  | paged p => p.geometry

/-- Sets the number of pages and their size. -/
def define (p : Pool) (pageCount pageSize : UInt32) : Except Failure Pool :=
  match p with
  | memory p => (p.define pageCount pageSize).map memory
  | paged p => (p.define pageCount pageSize).map paged

/-- Adds a page. -/
def addPage (p : Pool) (index : UInt32) (mask : UInt8) (data : PageData) : Except Failure Pool :=
  match p with
  | memory p => (p.addPage index mask data).map memory
  | paged p => (p.addPage index mask data).map paged

/-- The bytes from an offset to the end of its page. -/
def slice (p : Pool) (ofs : UInt32) : Except Failure Slice × Pool :=
  match p with
  | memory p => (p.slice ofs, memory p)
  | paged p =>
    let (r, p) := p.slice ofs
    (r, paged p)

/-- The pool with another image to read from on demand. -/
def withSource (p : Pool) (source : Array UInt8) : Pool :=
  match p with
  | memory p => memory p
  | paged p => paged (p.withSource source)

/-- Keeps the page of an offset until it is unpinned as often. -/
def pin (p : Pool) (ofs : UInt32) : Pool :=
  match p with
  | memory p => memory p
  | paged p => paged (p.modifyPins ofs (· + 1))

/-- Takes back one pin of the page of an offset. -/
def unpin (p : Pool) (ofs : UInt32) : Pool :=
  match p with
  | memory p => memory p
  | paged p => paged (p.modifyPins ofs (· - 1))

/-- Whether pages are read on demand. -/
def isPaged : Pool → Bool
  | memory _ => false
  | paged _ => true

/-- The number of pages that the image gave. -/
def loadedPages : Pool → Nat
  | memory p => p.pages.countP Option.isSome
  | paged p => p.pages.countP (·.location?.isSome)

/-- The number of pages that are kept. -/
def residentPages : Pool → Nat
  | memory p => p.pages.countP Option.isSome
  | paged p => p.resident

end Pool

/-- How pools are kept. -/
inductive PoolMode where
  /-- All pages are in memory. -/
  | inMemory
  /-- Pages are read on demand, and so many are kept. -/
  | paged (maxResident : Nat)
deriving DecidableEq, Inhabited, Repr

/-- Why a mode cannot be used, if it cannot. -/
def PoolMode.problem? : PoolMode → Option String
  | paged 0 => some "max_resident_pages must be > 0"
  | _ => none

/-- The pools of a machine. -/
structure Pools where
  /-- The pool of code. -/
  code : Pool
  /-- The pool of constants. -/
  constant : Pool
  /-- Whether the code pool is defined. -/
  codeDefined : Bool := false
  /-- Whether the constant pool is defined. -/
  constantDefined : Bool := false
deriving Inhabited

namespace Pools

/-- Pools without pages, which may be read from `source`. -/
def new (mode : PoolMode) (source : Array UInt8) : Pools :=
  let make (pool : UInt16) : Pool := match mode with
    | .inMemory => .memory (.new pool)
    | .paged n => .paged (.new pool source n)
  { code := make codePool, constant := make constantPool }

/-- The pool with the given number. -/
def get? (ps : Pools) (pool : UInt16) : Option Pool :=
  if pool = codePool then some ps.code
  else if pool = constantPool then some ps.constant
  else none

/-- Puts another pool under a number. -/
def set (ps : Pools) (pool : UInt16) (p : Pool) : Pools :=
  if pool = codePool then { ps with code := p }
  else if pool = constantPool then { ps with constant := p }
  else ps

/-- There is no pool with this number. -/
def unknownPool (pool : UInt16) : Failure :=
  ⟨.badBlockData, ["CPDF", "unknown pool id " ++ toString pool.toNat]⟩

/-- The pool with the given number, which has to be one. -/
def get (ps : Pools) (pool : UInt16) : Except Failure Pool :=
  match ps.get? pool with
  | some p => .ok p
  | none => .error (unknownPool pool)

/-- Whether a pool is defined. -/
def isDefined (ps : Pools) (pool : UInt16) : Bool :=
  (pool == codePool && ps.codeDefined) || (pool == constantPool && ps.constantDefined)

/-- Defines a pool, which can be done once. -/
def define (ps : Pools) (pool : UInt16) (pageCount pageSize : UInt32) : Except Failure Pools := do
  if ps.isDefined pool then throw ⟨.duplicateBlock, ["CPDF " ++ toString pool.toNat]⟩
  let p ← (← ps.get pool).define pageCount pageSize
  let ps := ps.set pool p
  return if pool = codePool then { ps with codeDefined := true }
    else { ps with constantDefined := true }

/-- Adds a page to a pool. -/
def addPage (ps : Pools) (pool : UInt16) (index : UInt32) (mask : UInt8) (data : PageData) :
    Except Failure Pools := do
  let p ← (← ps.get pool).addPage index mask data
  return ps.set pool p

/-- The pools with another image to read from on demand. -/
def withSource (ps : Pools) (source : Array UInt8) : Pools :=
  { ps with code := ps.code.withSource source, constant := ps.constant.withSource source }

/-- The bytes from an offset of the code pool to the end of its page. -/
def codeSlice (ps : Pools) (ofs : UInt32) : Except Failure Slice × Pools :=
  let (r, code) := ps.code.slice ofs
  (r, { ps with code })

/-- The bytes from an offset of the constant pool to the end of its page. -/
def constantSlice (ps : Pools) (ofs : UInt32) : Except Failure Slice × Pools :=
  let (r, constant) := ps.constant.slice ofs
  (r, { ps with constant })

/-- `n` bytes of code. -/
def readCode (ps : Pools) (ofs : UInt32) (n : Nat) : Except Failure Bytes × Pools :=
  let (r, ps) := ps.codeSlice ofs
  (r.bind fun s =>
    match s.take? n with
    | none => .error (.outOfPool codePool ofs)
    | some bs => .ok bs, ps)

/-- The string at the start of a slice: a length in two bytes, and as many bytes
    of text. -/
def stringIn (ofs : UInt32) (s : Slice) : Except Failure String :=
  let text? := do
    let n ← s.take? 2
    let bs ← s.take? (2 + Bytes.toNat n)
    return bs.drop 2
  match text? with
  | none => .error (.outOfPool constantPool ofs)
  | some bs =>
    match Bytes.toText? bs with
    | none => .error ⟨.badBlockData, ["CPPG", "invalid UTF-8 string"]⟩
    | some t => .ok t

/-- The list at the start of a slice: a count in two bytes, and as many portable
    values. -/
def listIn (ofs : UInt32) (s : Slice) : Except Failure (List Value) :=
  let data? := do
    let n ← s.take? 2
    let bs ← s.take? (2 + Bytes.toNat n * Value.portableSize)
    return (Bytes.toNat n, bs.drop 2)
  match data? with
  | none => .error (.outOfPool constantPool ofs)
  | some (n, bs) =>
    match Reader.replicate n Reader.value bs with
    | none => .error ⟨.badBlockData, ["CPPG", "invalid list element"]⟩
    | some (vs, _) => .ok vs

/-- The constant string at an offset. -/
def readString (ps : Pools) (ofs : UInt32) : Except Failure String × Pools :=
  let (r, ps) := ps.constantSlice ofs
  (r.bind (stringIn ofs), ps)

/-- The constant list at an offset. -/
def readList (ps : Pools) (ofs : UInt32) : Except Failure (List Value) × Pools :=
  let (r, ps) := ps.constantSlice ofs
  (r.bind (listIn ofs), ps)

end Pools

end StoryMachine
