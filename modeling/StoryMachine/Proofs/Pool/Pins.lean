import StoryMachine.Proofs.Pool.Calls
import StoryMachine.Proofs.Pool.Eviction

/-!
# Pins

A page that is pinned is kept. Reading pins nothing and takes no pin back, whatever pages
it gives up, and neither does it matter that another image is read from.

* `Pool.pins`: how many times a page is pinned;
* `Pool.Shows`, `Pool.EndsBy`: what is kept at an offset, and where the pages end;
* `Pool.SamePins`, `Pool.SamePages`: what leaves the pins as they are, and what leaves the pages;
* `Pool.pins_pin`, `Pool.pins_unpin`: one pin more, and one less;
* `Pool.Unpinned`: pools from which nothing has been read by a program yet.
-/

namespace StoryMachine

/-- The page on which an offset falls. -/
def Geometry.pageOf? (g : Geometry) (ofs : UInt32) : Option Nat := (g.split ofs).toOption.map Prod.fst

namespace Pool

/-- How many times a page is pinned. In memory all pages are kept anyway. -/
def pins : Pool → Nat → Nat
  | memory _, _ => 0
  | paged p, i => (p.page i).pins

/-- No page is pinned. -/
def Unpinned (p : Pool) : Prop := ∀ i, p.pins i = 0

/-- The bytes of a page, if it is kept. -/
def page? : Pool → Nat → Option (Array UInt8)
  | memory q, i => q.page? i
  | paged p, i => (p.page i).data?

/-- At least `n` bytes are kept from an offset on, all of them on one page. -/
def Shows (p : Pool) (ofs : UInt32) (n : Nat) : Prop := ∃ i start page,
  p.geometry.split ofs = .ok (i, start) ∧ p.page? i = some page ∧ start + n ≤ page.size

end Pool

/-- No page goes on beyond place `n`, neither in the image nor as far as it is kept. -/
structure PagedPool.EndsBy (p : PagedPool) (n : Nat) : Prop where
  /-- What is in the image. -/
  located : ∀ i offset length, (p.page i).location? = some (offset, length) →
    i * p.geometry.pageSize.toNat + length ≤ n
  /-- What is kept. -/
  kept : ∀ i page, (p.page i).data? = some page → i * p.geometry.pageSize.toNat + page.size ≤ n

namespace Pool

/-- No page goes on beyond place `n`. -/
def EndsBy : Pool → Nat → Prop
  | memory q, n => ∀ i page, q.page? i = some page →
    i * q.geometry.pageSize.toNat + page.size ≤ n
  | paged p, n => p.EndsBy n

/-- The second pool is kept as the first one is, with the same pages pinned. -/
structure SamePins (p q : Pool) : Prop where
  /-- Both are kept in memory, or none is. -/
  isPaged : q.isPaged = p.isPaged
  /-- There is room for the same pages. -/
  geometry : q.geometry = p.geometry
  /-- Each page is pinned as often. -/
  pins : ∀ i, q.pins i = p.pins i
  /-- A page that is pinned is still kept. -/
  kept : ∀ i page, (p.isPaged = true → 0 < p.pins i) → p.page? i = some page → q.page? i = some page
  /-- The pages do not go on any further. -/
  ends : ∀ n, p.EndsBy n → q.EndsBy n

/-- The second pool is kept as the first one is, with the same pages, however often they are
    pinned. -/
structure SamePages (p q : Pool) : Prop where
  /-- Both are kept in memory, or none is. -/
  isPaged : q.isPaged = p.isPaged
  /-- There is room for the same pages. -/
  geometry : q.geometry = p.geometry
  /-- The same pages are kept. -/
  page? : ∀ i, q.page? i = p.page? i
  /-- The pages do not go on any further. -/
  ends : ∀ n, p.EndsBy n → q.EndsBy n

end Pool

/-! ## Pools read on demand -/

namespace PagedPool

/-- Pins are those of the page of an offset. -/
theorem page_modifyPins (p : PagedPool) (ofs : UInt32) (f : Nat → Nat) (i : Nat) :
    ((p.modifyPins ofs f).page i).pins =
      if p.geometry.pageOf? ofs = some i then f (p.page i).pins else (p.page i).pins := by
  unfold modifyPins Geometry.pageOf?
  cases hsplit : p.geometry.split ofs with
  | error e => rfl
  | ok place =>
    simp only [Except.toOption, Option.map_some, Option.some.injEq]
    rw [page_modifyPage]
    split <;> rfl

theorem geometry_modifyPins (p : PagedPool) (ofs : UInt32) (f : Nat → Nat) :
    (p.modifyPins ofs f).geometry = p.geometry := by
  unfold modifyPins
  split <;> rfl

theorem location?_modifyPins (p : PagedPool) (ofs : UInt32) (f : Nat → Nat) (i : Nat) :
    ((p.modifyPins ofs f).page i).location? = (p.page i).location? := by
  unfold modifyPins
  split
  · rfl
  · rw [page_modifyPage]
    split <;> rfl

theorem data?_modifyPins (p : PagedPool) (ofs : UInt32) (f : Nat → Nat) (i : Nat) :
    ((p.modifyPins ofs f).page i).data? = (p.page i).data? := by
  unfold modifyPins
  split
  · rfl
  · rw [page_modifyPage]
    split <;> rfl

/-- Pins say nothing about what is on a page. -/
theorem samePages_modifyPins (p : PagedPool) (ofs : UInt32) (f : Nat → Nat) :
    (Pool.paged p).SamePages (.paged (p.modifyPins ofs f)) where
  isPaged := rfl
  geometry := p.geometry_modifyPins ofs f
  page? := p.data?_modifyPins ofs f
  ends n hp := by
    have hp : p.EndsBy n := hp
    refine ⟨fun i offset length hlocation => ?_, fun i page hdata => ?_⟩
    · rw [location?_modifyPins] at hlocation
      rw [geometry_modifyPins]
      exact hp.located i offset length hlocation
    · rw [data?_modifyPins] at hdata
      rw [geometry_modifyPins]
      exact hp.kept i page hdata

theorem Keeps.endsBy {p p' : PagedPool} {n : Nat} (hk : p.Keeps p') (hp : p.EndsBy n) : p'.EndsBy n where
  located i offset length hlocation := by
    rw [hk.geometry]
    exact hp.located i offset length (hk.location i ▸ hlocation)
  kept i page hdata := by
    rw [hk.geometry]
    rcases hk.kept i page hdata with hdata | ⟨offset, length, hlocation, hsize⟩
    · exact hp.kept i page hdata
    · exact (Nat.add_le_add_left hsize _).trans (hp.located i offset length hlocation)

end PagedPool

/-- An offset is where its page starts and the place in the page together. -/
theorem Geometry.mul_add_of_split {g : Geometry} {ofs : UInt32} {i start : Nat}
    (hsplit : g.split ofs = .ok (i, start)) : i * g.pageSize.toNat + start = ofs.toNat := by
  unfold split at hsplit
  split_ifs at hsplit
  obtain ⟨rfl, rfl⟩ := Prod.mk.inj (Except.ok.inj hsplit)
  rw [UInt32.toNat_div, UInt32.toNat_mod]
  exact Nat.div_add_mod' _ _

/-! ## Both kinds of pools -/

namespace Pool

variable {p p' q r : Pool} {ofs : UInt32} {s : Slice} {i n : Nat}

theorem SamePins.refl (p : Pool) : p.SamePins p :=
  ⟨rfl, rfl, fun _ => rfl, fun _ _ _ hpage => hpage, fun _ hp => hp⟩

theorem SamePins.trans (hq : p.SamePins q) (hr : q.SamePins r) : p.SamePins r where
  isPaged := hr.isPaged.trans hq.isPaged
  geometry := hr.geometry.trans hq.geometry
  pins i := (hr.pins i).trans (hq.pins i)
  kept i page hpins hpage :=
    hr.kept i page (fun hpaged => hq.pins i ▸ hpins (hq.isPaged ▸ hpaged)) (hq.kept i page hpins hpage)
  ends n hp := hr.ends n (hq.ends n hp)

theorem samePins_slice (p : Pool) (ofs : UInt32) : p.SamePins (p.slice ofs).2 := by
  cases p with
  | memory q => exact .refl _
  | paged p =>
    have hkeeps := p.keeps_slice ofs
    refine ⟨rfl, hkeeps.geometry, hkeeps.pins, fun i page hpins hpage => ?_, fun _ => hkeeps.endsBy⟩
    have hheld : p.Held i := Option.isSome_iff_exists.2 ⟨page, hpage⟩
    exact (PagedPool.data?_slice_of_pinned (hpins rfl) hheld ofs).trans hpage

theorem Later.samePins (hq : p.Later q) : p.SamePins q := by
  induction hq with
  | refl => exact .refl p
  | @slice q _ ofs ih => exact ih.trans (q.samePins_slice ofs)

theorem samePins_withSource (p : Pool) (source : Array UInt8) : p.SamePins (p.withSource source) := by
  cases p with
  | memory p => exact .refl _
  | paged p =>
    exact ⟨rfl, rfl, fun _ => rfl, fun _ _ _ hpage => hpage, fun _ hp => ⟨hp.located, hp.kept⟩⟩

theorem SamePages.refl (p : Pool) : p.SamePages p := ⟨rfl, rfl, fun _ => rfl, fun _ hp => hp⟩

theorem samePages_pin (p : Pool) (ofs : UInt32) : p.SamePages (p.pin ofs) := by
  cases p with
  | memory p => exact .refl _
  | paged p => exact p.samePages_modifyPins ofs _

theorem samePages_unpin (p : Pool) (ofs : UInt32) : p.SamePages (p.unpin ofs) := by
  cases p with
  | memory p => exact .refl _
  | paged p => exact p.samePages_modifyPins ofs _

theorem pins_pin (hp : p.isPaged = true) (ofs : UInt32) (i : Nat) :
    (p.pin ofs).pins i = if p.geometry.pageOf? ofs = some i then p.pins i + 1 else p.pins i := by
  cases p with
  | memory p => cases hp
  | paged p => exact p.page_modifyPins ofs _ i

theorem pins_unpin (hp : p.isPaged = true) (ofs : UInt32) (i : Nat) :
    (p.unpin ofs).pins i = if p.geometry.pageOf? ofs = some i then p.pins i - 1 else p.pins i := by
  cases p with
  | memory p => cases hp
  | paged p => exact p.page_modifyPins ofs _ i

/-! ## What is kept -/

theorem length_front_le (s : Slice) (k : Nat) : (s.front k).length ≤ s.page.size - s.start := by
  rw [Slice.front, Array.length_toList, Array.size_extract]
  omega

theorem SamePages.shows (hq : p.SamePages q) (hp : p.Shows ofs n) : q.Shows ofs n := by
  obtain ⟨i, start, page, hsplit, hpage, hsize⟩ := hp
  exact ⟨i, start, page, hq.geometry ▸ hsplit, (hq.page? i).trans hpage, hsize⟩

/-- What is on a page that is pinned is still kept. -/
theorem SamePins.shows (hq : p.SamePins q) (hp : p.Shows ofs n)
    (hpins : ∀ i, p.geometry.pageOf? ofs = some i → p.isPaged = true → 0 < p.pins i) :
    q.Shows ofs n := by
  obtain ⟨i, start, page, hsplit, hpage, hsize⟩ := hp
  have hpageOf : p.geometry.pageOf? ofs = some i := by rw [Geometry.pageOf?, hsplit]; rfl
  exact ⟨i, start, page, hq.geometry ▸ hsplit, hq.kept i page (hpins i hpageOf) hpage, hsize⟩

theorem Shows.mono {k : Nat} (hp : p.Shows ofs n) (hk : k ≤ n) : p.Shows ofs k := by
  obtain ⟨i, start, page, hsplit, hpage, hsize⟩ := hp
  exact ⟨i, start, page, hsplit, hpage, by omega⟩

/-- What is kept does not go on any further than its page. -/
theorem Shows.le {limit : Nat} (hp : p.Shows ofs n) (hlimit : p.EndsBy limit) :
    ofs.toNat + n ≤ limit := by
  obtain ⟨i, start, page, hsplit, hpage, hsize⟩ := hp
  have hofs := Geometry.mul_add_of_split hsplit
  have hend : i * p.geometry.pageSize.toNat + page.size ≤ limit := by
    cases p with
    | memory q => exact hlimit i page hpage
    | paged p => exact hlimit.kept i page hpage
  omega

/-- What has been read is kept. -/
theorem shows_of_slice (hok : (p.slice ofs).1 = .ok s) :
    (p.slice ofs).2.Shows ofs (s.page.size - s.start) := by
  have hends {page : Array UInt8} {start : Nat} (hs : Slice.ofPage? page start = some s) :
      start + (s.page.size - s.start) ≤ page.size := by
    unfold Slice.ofPage? at hs
    split at hs
    · next hlt =>
      obtain rfl := Option.some.inj hs
      dsimp only
      omega
    · cases hs
  cases p with
  | memory q =>
    obtain ⟨⟨i, start⟩, hsplit, hpage⟩ := Except.bind_eq_ok.1 hok
    dsimp only at hpage
    split at hpage
    · cases hpage
    · next hs =>
      obtain rfl := Except.ok.inj hpage
      obtain ⟨page, hpage, hs⟩ := Option.bind_eq_some_iff.1 hs
      exact ⟨i, start, page, hsplit, hpage, hends hs⟩
  | paged p =>
    rw [slice_paged] at hok ⊢
    obtain ⟨i, start, page, hsplit, hpage, hs⟩ := PagedPool.kept_of_slice hok
    have hsame := congrArg (·.split ofs) (p.keeps_slice ofs).geometry
    exact ⟨i, start, page, hsame.trans hsplit, hpage, hends hs⟩

/-- Code that has been read is kept. -/
theorem shows_of_readCode {ps : Pools} {bs : Bytes} (hok : (ps.readCode ofs n).1 = .ok bs) :
    (ps.readCode ofs n).2.code.Shows ofs n := by
  obtain ⟨s, hs, hbs⟩ := Pools.readCode_eq_ok_iff.1 hok
  unfold Slice.take? at hbs
  split at hbs
  · next hle => exact (shows_of_slice hs).mono (by omega)
  · cases hbs

theorem InBounds.endsBy (hp : p.InBounds)
    (hn : p.geometry.pageCount.toNat * p.geometry.pageSize.toNat ≤ n) : p.EndsBy n := by
  have hend {i k : Nat} (hi : i < p.geometry.pageCount.toNat)
      (hk : k ≤ p.geometry.pageSize.toNat) : i * p.geometry.pageSize.toNat + k ≤ n := by
    have hle := Nat.mul_le_mul_right p.geometry.pageSize.toNat (Nat.succ_le_of_lt hi)
    rw [Nat.succ_mul] at hle
    omega
  cases p with
  | memory q => exact fun i page hpage => hend (hp i page hpage).1 (hp i page hpage).2
  | paged p =>
    have hp : p.InBounds := hp
    refine ⟨fun i offset length hlocation => ?_, fun i page hdata => ?_⟩
    · obtain ⟨hi, hlength⟩ := hp.located i offset length hlocation
      exact hend hi hlength
    · obtain ⟨hi, hsize⟩ := hp.kept i page hdata
      exact hend hi hsize

/-! ## Pools as they are loaded -/

theorem SamePins.unpinned (hq : p.SamePins q) (hp : p.Unpinned) : q.Unpinned := fun i =>
  (hq.pins i).trans (hp i)

theorem unpinned_define {pageCount pageSize : UInt32} (hok : p.define pageCount pageSize = .ok p') :
    p'.Unpinned := by
  cases p with
  | memory q =>
    obtain ⟨q', -, rfl⟩ := Except.map_eq_ok.1 hok
    exact fun _ => rfl
  | paged q =>
    obtain ⟨q', hq', rfl⟩ := Except.map_eq_ok.1 hok
    obtain ⟨geometry, -, hq'⟩ := Except.bind_eq_ok.1 hq'
    obtain rfl := Except.ok.inj hq'
    exact fun _ => rfl

theorem Unpinned.addPage {index : UInt32} {mask : UInt8} {data : PageData} (hp : p.Unpinned)
    (hok : p.addPage index mask data = .ok p') : p'.Unpinned := by
  cases p with
  | memory q =>
    obtain ⟨q', -, rfl⟩ := Except.map_eq_ok.1 hok
    exact fun _ => rfl
  | paged q =>
    obtain ⟨q', hq', rfl⟩ := Except.map_eq_ok.1 hok
    unfold PagedPool.addPage at hq'
    obtain ⟨-, hq'⟩ := Except.guard_eq_ok.1 hq'
    cases data with
    | bytes bs => cases hq'
    | deferred offset length =>
      obtain ⟨_, -, hq'⟩ := Except.bind_eq_ok.1 hq'
      obtain rfl := Except.ok.inj hq'
      intro i
      refine Eq.trans ?_ (hp i)
      rw [pins, PagedPool.page_modifyPage]
      split <;> rfl

end Pool

end StoryMachine
