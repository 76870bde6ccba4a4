import Mathlib
import StoryMachine.Pool

/-!
# Pages on demand

A pool that reads its pages on demand is compared with one that has all of them in
memory. As long as the image does not change, what is read at an offset is the same,
whatever pages have been read, given up or pinned before.

* `Alike`: results that agree up to the arguments of messages;
* `PagedPool.Mirrors`: the pages of one pool are those of the other;
* `Mirrors.evictFor`, `Mirrors.load`: a page that is given up, and one that is read;
* `Mirrors.slice`, `Mirrors.addPage`: the pools give the same bytes, and go on to
  have the same pages;
* `Mirrors.slice_eq`: what is read depends on the pages alone.
-/

namespace StoryMachine

/-- Two results agree: there is one from both, or the error is the same. -/
inductive Alike {α β : Type} (R : α → β → Prop) : Except Failure α → Except Failure β → Prop
  | ok {a : α} {b : β} (hr : R a b) : Alike R (.ok a) (.ok b)
  | error {e e' : Failure} (he : e.code = e'.code) : Alike R (.error e) (.error e')

namespace Alike

variable {α β γ δ : Type} {R : α → β → Prop} {S : γ → δ → Prop} {x : Except Failure α}
  {y : Except Failure β}

theorem bind {f : α → Except Failure γ} {g : β → Except Failure δ} (hx : Alike R x y)
    (hf : ∀ a b, R a b → Alike S (f a) (g b)) : Alike S (x >>= f) (y >>= g) := by
  cases hx with
  | ok hr => exact hf _ _ hr
  | error he => exact .error he

/-- What comes first is the same. -/
theorem bindSame {x : Except Failure α} {f : α → Except Failure γ} {g : α → Except Failure δ}
    (hf : ∀ a, Alike S (f a) (g a)) : Alike S (x >>= f) (x >>= g) := by
  cases x with
  | ok a => exact hf a
  | error e => exact .error rfl

theorem map {f : α → γ} {g : β → δ} (hx : Alike R x y) (hf : ∀ a b, R a b → S (f a) (g b)) :
    Alike S (x.map f) (y.map g) := by
  cases hx with
  | ok hr => exact .ok (hf _ _ hr)
  | error he => exact .error he

theorem mono {S : α → β → Prop} (hx : Alike R x y) (hf : ∀ a b, R a b → S a b) : Alike S x y := by
  cases hx with
  | ok hr => exact .ok (hf _ _ hr)
  | error he => exact .error he

theorem ite {c : Prop} [Decidable c] {x' : Except Failure α} {y' : Except Failure β}
    (hthen : c → Alike R x y) (helse : ¬c → Alike R x' y') :
    Alike R (if c then x else x') (if c then y else y') := by
  split
  · next hc => exact hthen hc
  · next hc => exact helse hc

/-- A check that is made of both. -/
theorem guard {c : Prop} [Decidable c] {e : Failure} {f : Unit → Except Failure α}
    {g : Unit → Except Failure β} (hx : ¬c → Alike R (f ()) (g ())) :
    Alike R (if c then throw e >>= f else f ()) (if c then throw e >>= g else g ()) :=
  .ite (fun _ => .error rfl) hx

theorem refl (x : Except Failure α) : Alike (· = ·) x x := by
  cases x with
  | ok a => exact .ok rfl
  | error e => exact .error rfl

theorem isOk_eq (hx : Alike R x y) : x.isOk = y.isOk := by
  cases hx <;> rfl

theorem exists_ok (hx : Alike R x y) {a : α} (hok : x = .ok a) : ∃ b, y = .ok b ∧ R a b := by
  obtain ⟨hr⟩ | _ := hx
  · obtain rfl := Except.ok.inj hok
    exact ⟨_, rfl, hr⟩
  · cases hok

theorem eq_ok_iff {y : Except Failure α} (hx : Alike (· = ·) x y) {a : α} :
    x = .ok a ↔ y = .ok a := by
  cases hx with
  | ok hr => rw [hr]
  | error he => exact ⟨fun h => (nomatch h), fun h => (nomatch h)⟩

theorem mapError_eq {y : Except Failure α} (hx : Alike (· = ·) x y) :
    x.mapError (·.code) = y.mapError (·.code) := by
  cases hx with
  | ok hr => rw [hr]
  | error he => exact congrArg Except.error he

end Alike

/-! ## Pages by number -/

section Reaching

variable {α : Type} (xs : Array α) (i j : Nat) (a : α)

theorem lt_size_reaching : i < (reaching xs i a).size := by
  unfold reaching
  split
  · assumption
  · rw [Array.size_append, Array.size_replicate]
    omega

/-- What comes after the elements is what is taken for an element where there is
    none. -/
theorem getD_reaching : (reaching xs i a)[j]?.getD a = xs[j]?.getD a := by
  unfold reaching
  split
  · rfl
  · rw [Array.getElem?_append]
    split
    · rfl
    · next hj =>
      rw [Array.getElem?_eq_none (not_lt.1 hj), Array.getElem?_replicate]
      split <;> rfl

theorem Array.countP_eq_zero_iff_getD {f : α → Bool} {xs : Array α} {a : α} (ha : f a = false) :
    xs.countP f = 0 ↔ ∀ i : Nat, f (xs[i]?.getD a) = false := by
  simp only [Array.countP_eq_zero, Bool.not_eq_true]
  refine ⟨fun hxs i => ?_, fun hxs b hb => ?_⟩
  · cases hget : xs[i]? with
    | none => exact ha
    | some b => exact hxs b (Array.mem_of_getElem? hget)
  · obtain ⟨i, hi, rfl⟩ := Array.getElem_of_mem hb
    have hget := hxs i
    rwa [Array.getElem?_eq_getElem hi] at hget

end Reaching

/-- Page `i` of a pool that keeps all its pages. -/
def MemoryPool.page? (q : MemoryPool) (i : Nat) : Option (Array UInt8) := q.pages[i]?.getD none

/-- There is no page `i`. -/
def MemoryPool.missing (q : MemoryPool) (i : Nat) : Failure :=
  .outOfPool q.geometry.pool (UInt32.ofNat i * q.geometry.pageSize)

/-- What a pool gives at an offset if it reads its pages on demand. Where there is no
    page, it is the start of the page that is not in the pool. -/
def MemoryPool.sliceOnDemand (q : MemoryPool) (ofs : UInt32) : Except Failure Slice := do
  let (i, start) ← q.geometry.split ofs
  match q.page? i with
  | none => .error (q.missing i)
  | some page =>
    match Slice.ofPage? page start with
    | none => .error (.outOfPool q.geometry.pool ofs)
    | some s => .ok s

/-- Page `i` of a pool whose pages are read on demand. -/
def PagedPool.page (p : PagedPool) (i : Nat) : PageSlot := p.pages[i]?.getD {}

/-- No page is added twice. -/
theorem Geometry.checkNewPage_eq_ok {g : Geometry} {index : UInt32} {length : Nat} {present : Bool}
    (hok : g.checkNewPage index length present = .ok ()) : present = false := by
  unfold checkNewPage at hok
  split_ifs at hok with _ _ _ hpresent
  exact Bool.eq_false_iff.2 hpresent

namespace MemoryPool

theorem any_isSome (q : MemoryPool) (i : Nat) :
    q.pages[i]?.any Option.isSome = (q.page? i).isSome := by
  unfold page?
  cases q.pages[i]? <;> rfl

/-- It is the same but for where a failure is said to be. -/
theorem alike_sliceOnDemand (q : MemoryPool) (ofs : UInt32) :
    Alike (· = ·) (q.sliceOnDemand ofs) (q.slice ofs) := by
  refine .bindSame fun (i, start) => ?_
  have hpage : q.pages[i]?.getD none = q.page? i := rfl
  dsimp only
  rw [hpage]
  cases q.page? i with
  | none => exact .error rfl
  | some page => exact .refl _

theorem page?_setIfInBounds (q : MemoryPool) (i j : Nat) (page : Array UInt8) :
    ({ q with pages := (reaching q.pages i none).setIfInBounds i (some page) } : MemoryPool).page?
      j = if i = j then some page else q.page? j := by
  have hlt := lt_size_reaching q.pages i none
  unfold page?
  rw [Array.getElem?_setIfInBounds, if_pos hlt]
  split
  · rfl
  · exact getD_reaching q.pages i j none

end MemoryPool

/-- A page that is read on demand is the given one: the image has it, and what is kept
    of it is the page. -/
structure PageSlot.Keeps (s : PageSlot) (image : Array UInt8) (page? : Option (Array UInt8)) :
    Prop where
  /-- The image has the page in its place. -/
  stored : s.location?.map (fun (offset, length) => image.extract offset (offset + length)) = page?
  /-- The image does not break off there. -/
  whole : ∀ offset length, s.location? = some (offset, length) → offset + length ≤ image.size
  /-- What is kept is the page. -/
  kept : ∀ page, s.data? = some page → page? = some page

/-- The pages of a pool, which are read on demand, are those of one that keeps all of
    them. -/
structure PagedPool.Mirrors (image : Array UInt8) (p : PagedPool) (q : MemoryPool) : Prop where
  /-- The pages are read from the image. -/
  source : p.source = image
  /-- There is room for the same pages. -/
  geometry : p.geometry = q.geometry
  /-- Page by page they are the same. -/
  page : ∀ i, (p.page i).Keeps image (q.page? i)

namespace PagedPool

variable {image : Array UInt8} {p : PagedPool} {q : MemoryPool} {i offset length : Nat}
  {page : Array UInt8} {index ofs : UInt32}

theorem bind_location? : p.pages[i]?.bind PageSlot.location? = (p.page i).location? := by
  unfold PagedPool.page
  cases p.pages[i]? <;> rfl

theorem bind_data? : p.pages[i]?.bind PageSlot.data? = (p.page i).data? := by
  unfold PagedPool.page
  cases p.pages[i]? <;> rfl

theorem any_isSome_data? : p.pages[i]?.any (·.data?.isSome) = (p.page i).data?.isSome := by
  unfold PagedPool.page
  cases p.pages[i]? <;> rfl

theorem any_isSome_location? :
    p.pages[i]?.any (·.location?.isSome) = (p.page i).location?.isSome := by
  unfold PagedPool.page
  cases p.pages[i]? <;> rfl

theorem page_modifyPage (p : PagedPool) (i j : Nat) (f : PageSlot → PageSlot) :
    (p.modifyPage i f).page j = if i = j then f (p.page j) else p.page j := by
  have hlt := lt_size_reaching p.pages i {}
  have hget := getD_reaching p.pages i j {}
  unfold PagedPool.page modifyPage
  rw [Array.getElem?_modify, ← hget]
  split
  · next heq =>
    subst heq
    rw [Array.getElem?_eq_getElem hlt]
    rfl
  · rfl

/-! ## What is kept -/

/-- A page is changed, but not where it is. -/
theorem Mirrors.modifyPage {f : PageSlot → PageSlot} (hp : p.Mirrors image q)
    (hf : (f (p.page i)).Keeps image (q.page? i)) : (p.modifyPage i f).Mirrors image q where
  source := hp.source
  geometry := hp.geometry
  page j := by
    rw [page_modifyPage]
    split
    · next heq => exact heq ▸ hf
    · exact hp.page j

theorem Mirrors.withResident (hp : p.Mirrors image q) (resident : Nat) :
    { p with resident }.Mirrors image q :=
  ⟨hp.source, hp.geometry, hp.page⟩

theorem Mirrors.withClock (hp : p.Mirrors image q) (clock : Nat) :
    { p with clock }.Mirrors image q :=
  ⟨hp.source, hp.geometry, hp.page⟩

/-- A page that is given up is still in the image. -/
theorem Mirrors.evictFor (hp : p.Mirrors image q) (wanted tries : Nat) :
    (p.evictFor wanted tries).Mirrors image q := by
  induction tries generalizing p with
  | zero => exact hp
  | succ tries ih =>
    unfold PagedPool.evictFor
    split
    · split
      · exact hp
      · next i _ =>
        have hkeeps := hp.page i
        exact ih ((hp.modifyPage ⟨hkeeps.stored, hkeeps.whole, by simp⟩).withResident _)
    · exact hp

theorem Mirrors.modifyPins (hp : p.Mirrors image q) (ofs : UInt32) (f : Nat → Nat) :
    (p.modifyPins ofs f).Mirrors image q := by
  unfold PagedPool.modifyPins
  split
  · exact hp
  · next i _ _ =>
    have hkeeps := hp.page i
    exact hp.modifyPage ⟨hkeeps.stored, hkeeps.whole, hkeeps.kept⟩

/-! ## Reading -/

theorem load_of_none (hp : p.Mirrors image q) (hpage : q.page? i = none) :
    p.load i = (.error (q.missing i), p) := by
  have hnone := (hp.page i).stored
  rw [hpage, Option.map_eq_none_iff] at hnone
  unfold load
  rw [bind_location?, hnone, MemoryPool.missing, hp.geometry]

/-- A page that is read is the one that would have been kept in memory. -/
theorem load_of_some (hp : p.Mirrors image q) (hpage : q.page? i = some page) :
    ∃ p' : PagedPool, p.load i = (.ok (), p') ∧ p'.Mirrors image q ∧
      (p'.page i).data? = some page := by
  have hsome := (hp.page i).stored
  rw [hpage] at hsome
  obtain ⟨⟨offset, length⟩, hlocation, hextract⟩ := Option.map_eq_some_iff.1 hsome
  have hwhole := (hp.page i).whole offset length hlocation
  have hsize : page.size = length := by
    rw [← hextract, Array.size_extract, min_eq_left hwhole, Nat.add_sub_cancel_left]
  unfold load
  rw [bind_location?, hlocation]
  have hp' := hp.evictFor i (p.pages.size + 1)
  -- Whichever pages are given up, the page is still where it was.
  revert hp'
  dsimp only
  generalize p.evictFor i (p.pages.size + 1) = p'
  intro hp'
  have hkeeps := hp'.page i
  have hbytes : p'.source.extract offset (offset + length) = page := hp'.source ▸ hextract
  have hp'' : (p'.modifyPage i fun s => { s with data? := some page }).Mirrors image q :=
    hp'.modifyPage ⟨hkeeps.stored, hkeeps.whole, fun page' heq => by rw [hpage]; exact heq⟩
  rw [hbytes, if_neg (by omega)]
  refine ⟨_, rfl, hp''.withResident _, ?_⟩
  have hdata : ((p'.modifyPage i fun s => { s with data? := some page }).page i).data? =
      some page := by
    rw [page_modifyPage, if_pos rfl]
  exact hdata

/-- Before the bytes at an offset are taken, the page is read unless it is kept. -/
theorem Mirrors.held_or_load (hp : p.Mirrors image q) (i : Nat) :
    (∃ (p' : PagedPool) (page : Array UInt8),
      (if p.pages[i]?.any (·.data?.isSome) then (.ok (), p) else p.load i) =
        ((.ok (), p') : Except Failure Unit × PagedPool) ∧ p'.Mirrors image q ∧
        (p'.page i).data? = some page ∧ q.page? i = some page) ∨
    (if p.pages[i]?.any (·.data?.isSome) then (.ok (), p) else p.load i) =
      ((.error (q.missing i), p) : Except Failure Unit × PagedPool) ∧ q.page? i = none := by
  rw [any_isSome_data?]
  cases hdata : (p.page i).data? with
  | some page => exact .inl ⟨p, page, rfl, hp, hdata, (hp.page i).kept page hdata⟩
  | none =>
    cases hpage : q.page? i with
    | none => exact .inr ⟨load_of_none hp hpage, rfl⟩
    | some page =>
      obtain ⟨p', hload, hp', hdata'⟩ := load_of_some hp hpage
      exact .inl ⟨p', page, hload, hp', hdata', rfl⟩

/-- What is read at an offset depends on the pages alone, and afterwards they are the
    same. -/
theorem Mirrors.slice_eq (hp : p.Mirrors image q) (ofs : UInt32) :
    (p.slice ofs).1 = q.sliceOnDemand ofs ∧ (p.slice ofs).2.Mirrors image q := by
  unfold PagedPool.slice MemoryPool.sliceOnDemand
  rw [hp.geometry]
  cases hsplit : q.geometry.split ofs with
  | error e => exact ⟨rfl, hp⟩
  | ok place =>
    obtain ⟨i, start⟩ := place
    dsimp only [bind, Except.bind]
    rcases hp.held_or_load i with ⟨p', page, hheld, hp', hdata, hpage⟩ | ⟨hload, hpage⟩
    · rw [hheld, hpage]
      have hkeeps := hp'.page i
      have hp'' : ({ p' with clock := p'.clock + 1 }.modifyPage i
          fun s => { s with lastUse := p'.clock + 1 }).Mirrors image q :=
        (hp'.withClock _).modifyPage ⟨hkeeps.stored, hkeeps.whole, hkeeps.kept⟩
      have hdata' : (({ p' with clock := p'.clock + 1 }.modifyPage i
          fun s => { s with lastUse := p'.clock + 1 }).page i).data? = some page := by
        rw [page_modifyPage, if_pos rfl]
        exact hdata
      have hgeometry : ({ p' with clock := p'.clock + 1 }.modifyPage i
          fun s => { s with lastUse := p'.clock + 1 }).geometry = q.geometry := hp''.geometry
      dsimp only
      rw [bind_data?, hdata', hgeometry, Option.bind_some]
      cases Slice.ofPage? page start with
      | none => exact ⟨rfl, hp''⟩
      | some s => exact ⟨rfl, hp''⟩
    · rw [hload, hpage]
      exact ⟨rfl, hp⟩

/-- What is read at an offset is the same, and afterwards the pages are too. -/
theorem Mirrors.slice (hp : p.Mirrors image q) (ofs : UInt32) :
    Alike (· = ·) (p.slice ofs).1 (q.slice ofs) ∧ (p.slice ofs).2.Mirrors image q := by
  rw [(hp.slice_eq ofs).1]
  exact ⟨q.alike_sliceOnDemand ofs, (hp.slice_eq ofs).2⟩

/-! ## Adding pages -/

theorem mirrors_new (pool : UInt16) (image : Array UInt8) (maxResident : Nat) :
    (new pool image maxResident).Mirrors image (.new pool) where
  source := rfl
  geometry := rfl
  page _ := ⟨rfl, nofun, nofun⟩

theorem Mirrors.define (hp : p.Mirrors image q) (pageCount pageSize : UInt32) :
    Alike (Mirrors image) (p.define pageCount pageSize) (q.define pageCount pageSize) := by
  unfold PagedPool.define MemoryPool.define
  rw [hp.geometry]
  cases q.geometry.define pageCount pageSize with
  | error e => exact .error rfl
  | ok geometry => exact .ok ⟨hp.source, rfl, fun _ => ⟨rfl, nofun, nofun⟩⟩

/-- A page of the image without a mask may be left there. -/
theorem Mirrors.addPage {bs : Bytes} (hp : p.Mirrors image q) (index : UInt32)
    (hwhole : offset + length ≤ image.size)
    (hbs : image.extract offset (offset + length) = bs.toArray) :
    Alike (Mirrors image) (p.addPage index 0 (.deferred offset length))
      (q.addPage index 0 (.bytes bs)) := by
  have hlength : bs.length = length := by
    have hsize := congrArg Array.size hbs
    rw [Array.size_extract, min_eq_left hwhole, Nat.add_sub_cancel_left] at hsize
    exact hsize.symm
  have hpresent : p.pages[index.toNat]?.any (·.location?.isSome) =
      (q.page? index.toNat).isSome := by
    rw [any_isSome_location?, ← (hp.page index.toNat).stored, Option.isSome_map]
  have hmask : bs.map (· ^^^ 0) = bs := by simp
  unfold PagedPool.addPage MemoryPool.addPage
  simp only [hpresent, q.any_isSome, hp.geometry, hlength, hmask, ne_eq, not_true, if_false]
  cases hcheck : q.geometry.checkNewPage index length (q.page? index.toNat).isSome with
  | error e => exact .error rfl
  | ok _ =>
    have hnew : q.page? index.toNat = none :=
      Option.isNone_iff_eq_none.1 (Option.isSome_eq_false_iff.1 (Geometry.checkNewPage_eq_ok hcheck))
    refine .ok ⟨hp.source, hp.geometry, fun j => ?_⟩
    rw [page_modifyPage, MemoryPool.page?_setIfInBounds]
    split
    · -- The page is new, so nothing of it can have been kept.
      next heq =>
      subst heq
      refine ⟨congrArg some hbs, ?_, fun page hkept => ?_⟩
      · rintro _ _ ⟨⟩
        exact hwhole
      · have hold := (hp.page index.toNat).kept page hkept
        rw [hnew] at hold
        cases hold
    · exact hp.page j

/-- There are pages in both pools or in none. -/
theorem Mirrors.countP_eq_zero_iff (hp : p.Mirrors image q) :
    p.pages.countP (·.location?.isSome) = 0 ↔ q.pages.countP Option.isSome = 0 := by
  have hsome (i : Nat) : (p.page i).location?.isSome = (q.page? i).isSome := by
    rw [← (hp.page i).stored, Option.isSome_map]
  rw [Array.countP_eq_zero_iff_getD (a := {}) rfl, Array.countP_eq_zero_iff_getD (a := none) rfl]
  exact forall_congr' fun i => iff_of_eq (congrArg (· = false) (hsome i))

end PagedPool

end StoryMachine
