import StoryMachine.Bytes
import StoryMachine.Failure.Message

/-!
# Pool pages

A pool is a run of pages of one size, addressed by a flat offset. This module has
what does not depend on where the pages are kept: how offsets fall on pages, and
which pages may be added.

* `Geometry.split`: the page of an offset and the place in it;
* `Geometry.checkNewPage`: whether a page may be added;
* `Slice`: a page from some place in it to its end.
-/

namespace StoryMachine

/-- The number of the code pool. -/
def codePool : UInt16 := 1

/-- The number of the constant pool. -/
def constantPool : UInt16 := 2

/-- A page as an image gives it. -/
inductive PageData where
  /-- The bytes of the page. -/
  | bytes (bs : Bytes)
  /-- Where the bytes of the page are in the image. -/
  | deferred (offset : Nat) (length : Nat)
deriving Repr

/-- The rest of a page from some place on. -/
structure Slice where
  /-- The whole page. -/
  page : Array UInt8
  /-- Where the slice starts. -/
  start : Nat
deriving Inhabited

namespace Slice

/-- The bytes of the slice. -/
def toBytes (s : Slice) : Bytes := (s.page.extract s.start s.page.size).toList

/-- The first bytes of the slice, at most `n`. -/
def front (s : Slice) (n : Nat) : Bytes := (s.page.extract s.start (s.start + n)).toList

/-- The first `n` bytes of the slice, if it has as many. -/
def take? (s : Slice) (n : Nat) : Option Bytes :=
  if s.start + n ≤ s.page.size then some (s.front n) else none

/-- The part of a page from `start` on, which may not be empty. -/
def ofPage? (page : Array UInt8) (start : Nat) : Option Slice :=
  if start < page.size then some ⟨page, start⟩ else none

end Slice

/-- An array with `filler` after its elements as far as it takes to have
    place `i`. -/
def reaching {α : Type} (xs : Array α) (i : Nat) (filler : α) : Array α :=
  if i < xs.size then xs else xs ++ Array.replicate (i + 1 - xs.size) filler

/-- The offset is outside of the pool. -/
def Failure.outOfPool (pool : UInt16) (ofs : UInt32) : Failure :=
  ⟨.poolOutOfRange, [toString pool.toNat, toString ofs.toNat]⟩

/-- The pages that a pool has room for. -/
structure Geometry where
  /-- The number of the pool. -/
  pool : UInt16
  /-- The number of pages. -/
  pageCount : UInt32 := 0
  /-- The size of a page, which is zero as long as the pool is not defined. -/
  pageSize : UInt32 := 0
deriving DecidableEq, Inhabited, Repr

namespace Geometry

/-- The page cannot be added. -/
def badPage (g : Geometry) (index : UInt32) (why : String) : Failure :=
  ⟨.badPoolPage, [toString g.pool.toNat, toString index.toNat, why]⟩

/-- Sets the number of pages and their size. -/
def define (g : Geometry) (pageCount pageSize : UInt32) : Except Failure Geometry :=
  if pageSize = 0 then .error ⟨.badBlockData, ["CPDF", "page size is zero"]⟩
  else .ok { g with pageCount, pageSize }

/-- The page of an offset and the place of the offset in it. -/
def split (g : Geometry) (ofs : UInt32) : Except Failure (Nat × Nat) :=
  if g.pageSize = 0 then .error (.outOfPool g.pool ofs)
  else if g.pageCount ≤ ofs / g.pageSize then .error (.outOfPool g.pool ofs)
  else .ok ((ofs / g.pageSize).toNat, (ofs % g.pageSize).toNat)

/-- Checks that a page of `length` bytes may be added; `present` says whether the
    page is there already. -/
def checkNewPage (g : Geometry) (index : UInt32) (length : Nat) (present : Bool) :
    Except Failure Unit :=
  if g.pageSize = 0 then
    .error ⟨.blockOrder, ["CPPG", "pool " ++ toString g.pool.toNat ++ " is not defined"]⟩
  else if g.pageCount ≤ index then .error (g.badPage index "index beyond page count")
  else if g.pageSize.toNat < length then .error (g.badPage index "page larger than page size")
  else if present then .error (g.badPage index "page defined twice")
  else .ok ()

end Geometry

end StoryMachine
