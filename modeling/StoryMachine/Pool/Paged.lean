import StoryMachine.Pool.Basic

/-!
# Pages read on demand

A paged pool leaves its pages in the image and reads one when it is first needed.
It keeps a limited number of pages: to make room, it gives up the page that has
gone unused for longest, though never a pinned one. When all are pinned it keeps
more than the limit.

* `PagedPool.victim?`: the page to give up;
* `PagedPool.load`: a page read in;
* `PagedPool.slice`: the bytes at an offset.
-/

namespace StoryMachine

/-- A page of a paged pool. -/
structure PageSlot where
  /-- Where the page is in the image, as an offset and a length. -/
  location? : Option (Nat × Nat) := none
  /-- The bytes of the page while it is kept. -/
  data? : Option (Array UInt8) := none
  /-- How many times the page is pinned. -/
  pins : Nat := 0
  /-- When the page was last used. -/
  lastUse : Nat := 0
deriving Inhabited

/-- A pool whose pages are read on demand. -/
structure PagedPool where
  /-- The room for pages. -/
  geometry : Geometry
  /-- The image that holds the pages. -/
  source : Array UInt8
  /-- The pages up to the last one that has been added or pinned. -/
  pages : Array PageSlot := #[]
  /-- The number of pages to keep. -/
  maxResident : Nat
  /-- The number of pages that are kept. -/
  resident : Nat := 0
  /-- The number of uses so far. -/
  clock : Nat := 0
deriving Inhabited

namespace PagedPool

/-- A pool without pages. At least one page is kept. -/
def new (pool : UInt16) (source : Array UInt8) (maxResident : Nat) : PagedPool :=
  { geometry := { pool }, source, maxResident := max maxResident 1 }

/-- Sets the number of pages and their size, and forgets all pages. -/
def define (p : PagedPool) (pageCount pageSize : UInt32) : Except Failure PagedPool := do
  let geometry ← p.geometry.define pageCount pageSize
  return { p with geometry, pages := #[] }

/-- Changes page `i`. -/
def modifyPage (p : PagedPool) (i : Nat) (f : PageSlot → PageSlot) : PagedPool :=
  { p with pages := (reaching p.pages i {}).modify i f }

/-- Adds a page, which is not read yet. Masked pages cannot be left in the
    image. -/
def addPage (p : PagedPool) (index : UInt32) (mask : UInt8) (data : PageData) :
    Except Failure PagedPool := do
  if mask ≠ 0 then throw ⟨.maskedImageNotSupported, []⟩
  match data with
  | .bytes _ => throw (.internal "paged pool given resident page bytes")
  | .deferred offset length =>
    let present := (p.pages[index.toNat]?).any (·.location?.isSome)
    p.geometry.checkNewPage index length present
    return p.modifyPage index.toNat fun s => { s with location? := some (offset, length) }

/-- When page `i` was last used. -/
def lastUse (p : PagedPool) (i : Nat) : Nat := (p.pages[i]?.map PageSlot.lastUse).getD 0

/-- Whether page `i` may be given up: it is kept and not pinned. -/
def isEvictable (p : PagedPool) (i : Nat) : Bool :=
  (p.pages[i]?).any fun s => s.data?.isSome && s.pins == 0

/-- The page other than `wanted` that may be given up and has gone unused for
    longest; of two the lower one. -/
def victim? (p : PagedPool) (wanted : Nat) : Option Nat :=
  let candidates := (List.range p.pages.size).filter fun i => i != wanted && p.isEvictable i
  candidates.foldl (fun best i =>
    match best with
    | none => some i
    | some b => if p.lastUse i < p.lastUse b then some i else some b) none

/-- Gives up pages until there is room for `wanted`, or none may be given up.
    Each try gives up one, so as many tries as there are pages suffice. -/
def evictFor (p : PagedPool) (wanted : Nat) : (tries : Nat) → PagedPool
  | 0 => p
  | tries + 1 =>
    if p.maxResident ≤ p.resident then
      match p.victim? wanted with
      | none => p
      | some i =>
        let p := p.modifyPage i fun s => { s with data? := none }
        { p with resident := p.resident - 1 }.evictFor wanted tries
    else p

/-- The pool with another image to read from. The pages that it keeps stay. -/
def withSource (p : PagedPool) (source : Array UInt8) : PagedPool := { p with source }

/-- Reads page `i` from the image. -/
def load (p : PagedPool) (i : Nat) : Except Failure Unit × PagedPool :=
  match p.pages[i]?.bind PageSlot.location? with
  | none =>
    let ofs := UInt32.ofNat i * p.geometry.pageSize
    (.error (.outOfPool p.geometry.pool ofs), p)
  | some (offset, length) =>
    let p := p.evictFor i (p.pages.size + 1)
    let bytes := p.source.extract offset (offset + length)
    if bytes.size < length then (.error ⟨.pageIo, ["failed to fill whole buffer"]⟩, p)
    else
      let p := p.modifyPage i fun s => { s with data? := some bytes }
      (.ok (), { p with resident := p.resident + 1 })

/-- The bytes from an offset to the end of its page, which is read if it is not
    kept. -/
def slice (p : PagedPool) (ofs : UInt32) : Except Failure Slice × PagedPool :=
  match p.geometry.split ofs with
  | .error e => (.error e, p)
  | .ok (i, start) =>
    let held := (p.pages[i]?).any (·.data?.isSome)
    let (loaded, p) := if held then (.ok (), p) else p.load i
    match loaded with
    | .error e => (.error e, p)
    | .ok () =>
      let clock := p.clock + 1
      let p := { p with clock }.modifyPage i fun s => { s with lastUse := clock }
      match (p.pages[i]?.bind PageSlot.data?).bind (Slice.ofPage? · start) with
      | none => (.error (.outOfPool p.geometry.pool ofs), p)
      | some s => (.ok s, p)

/-- Changes the number of pins of the page of an offset. -/
def modifyPins (p : PagedPool) (ofs : UInt32) (f : Nat → Nat) : PagedPool :=
  match p.geometry.split ofs with
  | .error _ => p
  | .ok (i, _) => p.modifyPage i fun s => { s with pins := f s.pins }

end PagedPool

end StoryMachine
