import StoryMachine.Pool.Basic

/-!
# Pages kept in memory

A pool whose pages are all read, and unmasked, when the image is loaded.

* `MemoryPool.addPage`: one more page;
* `MemoryPool.slice`: the bytes at an offset.
-/

namespace StoryMachine

/-- A pool that keeps all its pages. -/
structure MemoryPool where
  /-- The room for pages. -/
  geometry : Geometry
  /-- The pages up to the last one that has been added. -/
  pages : Array (Option (Array UInt8)) := #[]
deriving Inhabited

namespace MemoryPool

/-- A pool without pages. -/
def new (pool : UInt16) : MemoryPool := { geometry := { pool } }

/-- Sets the number of pages and their size, and forgets all pages. -/
def define (p : MemoryPool) (pageCount pageSize : UInt32) : Except Failure MemoryPool := do
  let geometry ← p.geometry.define pageCount pageSize
  return { geometry }

/-- Adds a page, whose bytes are combined with the mask. -/
def addPage (p : MemoryPool) (index : UInt32) (mask : UInt8) (data : PageData) :
    Except Failure MemoryPool :=
  match data with
  | .deferred _ _ => .error (.internal "in-memory pool given a deferred page")
  | .bytes bs => do
    let present := (p.pages[index.toNat]?).any Option.isSome
    p.geometry.checkNewPage index bs.length present
    let page := (bs.map (· ^^^ mask)).toArray
    return { p with
      pages := (reaching p.pages index.toNat none).setIfInBounds index.toNat (some page) }

/-- The bytes from an offset to the end of its page. -/
def slice (p : MemoryPool) (ofs : UInt32) : Except Failure Slice := do
  let (i, start) ← p.geometry.split ofs
  match (p.pages[i]?.getD none).bind (Slice.ofPage? · start) with
  | none => .error (.outOfPool p.geometry.pool ofs)
  | some s => .ok s

end MemoryPool

end StoryMachine
