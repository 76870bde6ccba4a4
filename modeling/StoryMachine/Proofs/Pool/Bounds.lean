import StoryMachine.Proofs.Heap.Slots
import StoryMachine.Proofs.Pool.Paged

/-!
# Pages within bounds

A pool has no pages but those that it has room for, and none that is too long. Reading
changes neither, and what has been read once is read again.

* `Pool.InBounds`: the pages of a pool;
* `Pool.InBounds.define`, `Pool.InBounds.addPage`: pages as they are added;
* `PagedPool.Keeps`, `PagedPool.keeps_slice`: what reading does not change;
* `Pool.slice_slice`, `Pools.readCode_readCode`: reading again;
* `Pool.lt_of_slice`: where there is something to read.
-/

namespace StoryMachine

theorem Except.map_eq_ok {ε α β : Type} {x : Except ε α} {f : α → β} {b : β} :
    x.map f = .ok b ↔ ∃ a, x = .ok a ∧ f a = b := by
  cases x <;> simp [Except.map]

theorem Geometry.bounds_of_checkNewPage {g : Geometry} {index : UInt32} {length : Nat}
    {present : Bool} (hok : g.checkNewPage index length present = .ok ()) :
    index.toNat < g.pageCount.toNat ∧ length ≤ g.pageSize.toNat := by
  rw [checkNewPage] at hok
  split_ifs at hok with _ hindex hlength _
  exact ⟨UInt32.lt_iff_toNat_lt.1 (UInt32.not_le.1 hindex), not_lt.1 hlength⟩

theorem Geometry.lt_of_split {g : Geometry} {ofs : UInt32} {place : Nat × Nat}
    (hok : g.split ofs = .ok place) : ofs.toNat < g.pageCount.toNat * g.pageSize.toNat := by
  unfold split at hok
  split_ifs at hok with hzero hroom
  rw [UInt32.not_le, UInt32.lt_iff_toNat_lt, UInt32.toNat_div] at hroom
  exact (Nat.div_lt_iff_lt_mul (Nat.pos_of_ne_zero fun h => hzero (UInt32.toNat_inj.1 h))).1 hroom

/-! ## Pools in memory -/

/-- Every page has a number for which there is room, and is not too long. -/
def MemoryPool.InBounds (q : MemoryPool) : Prop :=
  ∀ i page, q.page? i = some page →
    i < q.geometry.pageCount.toNat ∧ page.size ≤ q.geometry.pageSize.toNat

namespace MemoryPool

theorem inBounds_of_empty {q : MemoryPool} (hq : q.pages = #[]) : q.InBounds := by
  intro i page hpage
  rw [page?, hq] at hpage
  cases hpage

theorem InBounds.addPage {q q' : MemoryPool} {index : UInt32} {mask : UInt8} {data : PageData}
    (hq : q.InBounds) (hok : q.addPage index mask data = .ok q') : q'.InBounds := by
  cases data with
  | deferred offset length => cases hok
  | bytes bs =>
    obtain ⟨_, hcheck, hok⟩ := Except.bind_eq_ok.1 hok
    obtain rfl := Except.ok.inj hok
    intro i page hpage
    rw [page?_setIfInBounds] at hpage
    split at hpage
    · next heq =>
      obtain rfl := Option.some.inj hpage
      obtain ⟨hindex, hlength⟩ := Geometry.bounds_of_checkNewPage hcheck
      exact ⟨heq ▸ hindex, by simpa using hlength⟩
    · exact hq i page hpage

end MemoryPool

/-! ## Pools read on demand -/

/-- Every page has a number for which there is room, and is not too long, both as it is in the
    image and as it is kept. -/
structure PagedPool.InBounds (p : PagedPool) : Prop where
  /-- What is in the image. -/
  located : ∀ i offset length, (p.page i).location? = some (offset, length) →
    i < p.geometry.pageCount.toNat ∧ length ≤ p.geometry.pageSize.toNat
  /-- What is kept. -/
  kept : ∀ i page, (p.page i).data? = some page →
    i < p.geometry.pageCount.toNat ∧ page.size ≤ p.geometry.pageSize.toNat

namespace PagedPool

variable {p p' p'' : PagedPool} {index ofs : UInt32}

theorem inBounds_of_empty (hp : p.pages = #[]) : p.InBounds := by
  have hpage (i : Nat) : p.page i = {} := by
    rw [page, hp]
    rfl
  refine ⟨fun i offset length hlocation => ?_, fun i page hdata => ?_⟩
  · rw [hpage] at hlocation
    cases hlocation
  · rw [hpage] at hdata
    cases hdata

theorem InBounds.addPage {mask : UInt8} {data : PageData} (hp : p.InBounds)
    (hok : p.addPage index mask data = .ok p') : p'.InBounds := by
  unfold PagedPool.addPage at hok
  obtain ⟨-, hok⟩ := Except.guard_eq_ok.1 hok
  cases data with
  | bytes bs => cases hok
  | deferred offset length =>
    obtain ⟨_, hcheck, hok⟩ := Except.bind_eq_ok.1 hok
    obtain rfl := Except.ok.inj hok
    obtain ⟨hindex, hlength⟩ := Geometry.bounds_of_checkNewPage hcheck
    refine ⟨fun i offset' length' hlocation => ?_, fun i page hdata => ?_⟩
    · rw [page_modifyPage] at hlocation
      split at hlocation
      · next heq =>
        obtain ⟨rfl, rfl⟩ := Prod.mk.inj (Option.some.inj hlocation)
        exact ⟨heq ▸ hindex, hlength⟩
      · exact hp.located i _ _ hlocation
    · rw [page_modifyPage] at hdata
      split at hdata <;> exact hp.kept i page hdata

/-- What reading does not change: the pages are where they were and as often pinned, and what
    is kept of one is no longer than it is. -/
structure Keeps (p p' : PagedPool) : Prop where
  /-- There is room for the same pages. -/
  geometry : p'.geometry = p.geometry
  /-- The pages are in the same places. -/
  location : ∀ i, (p'.page i).location? = (p.page i).location?
  /-- Each page is pinned as often. -/
  pins : ∀ i, (p'.page i).pins = (p.page i).pins
  /-- What is kept has been kept before, or has been read. -/
  kept : ∀ i page, (p'.page i).data? = some page → (p.page i).data? = some page ∨
    ∃ offset length, (p.page i).location? = some (offset, length) ∧ page.size ≤ length

theorem Keeps.refl (p : PagedPool) : p.Keeps p :=
  ⟨rfl, fun _ => rfl, fun _ => rfl, fun _ _ hp => .inl hp⟩

theorem Keeps.trans (hp : p.Keeps p') (hp' : p'.Keeps p'') : p.Keeps p'' where
  geometry := hp'.geometry.trans hp.geometry
  location i := (hp'.location i).trans (hp.location i)
  pins i := (hp'.pins i).trans (hp.pins i)
  kept i page hdata := by
    rcases hp'.kept i page hdata with hdata | hread
    · exact hp.kept i page hdata
    · exact .inr (hp.location i ▸ hread)

theorem Keeps.inBounds (hk : p.Keeps p') (hp : p.InBounds) : p'.InBounds := by
  refine ⟨fun i offset length hlocation => ?_, fun i page hdata => ?_⟩
  · rw [hk.geometry]
    exact hp.located i offset length (hk.location i ▸ hlocation)
  · rw [hk.geometry]
    rcases hk.kept i page hdata with hdata | ⟨offset, length, hlocation, hsize⟩
    · exact hp.kept i page hdata
    · obtain ⟨hi, hlength⟩ := hp.located i offset length hlocation
      exact ⟨hi, hsize.trans hlength⟩

/-- A page is changed, but neither where it is nor how often it is pinned. -/
theorem keeps_modifyPage (p : PagedPool) (i : Nat) {f : PageSlot → PageSlot}
    (hlocation : ∀ s, (f s).location? = s.location?) (hpins : ∀ s, (f s).pins = s.pins)
    (hkept : ∀ page, (f (p.page i)).data? = some page → (p.page i).data? = some page ∨
      ∃ offset length, (p.page i).location? = some (offset, length) ∧ page.size ≤ length) :
    p.Keeps (p.modifyPage i f) := by
  refine ⟨rfl, fun j => ?_, fun j => ?_, fun j page hdata => ?_⟩
  · rw [page_modifyPage]
    split
    · exact hlocation _
    · rfl
  · rw [page_modifyPage]
    split
    · exact hpins _
    · rfl
  · rw [page_modifyPage] at hdata
    split at hdata
    · next heq => exact heq ▸ hkept page (heq ▸ hdata)
    · exact .inl hdata

theorem keeps_evictFor (p : PagedPool) (wanted tries : Nat) :
    p.Keeps (p.evictFor wanted tries) := by
  induction tries generalizing p with
  | zero => exact .refl p
  | succ tries ih =>
    rw [evictFor]
    split
    · split
      · exact .refl p
      · next i _ =>
        refine Keeps.trans ?_ (ih _)
        have hgone := p.keeps_modifyPage i (f := fun s => { s with data? := none })
          (fun _ => rfl) (fun _ => rfl) fun page hpage => by cases hpage
        exact ⟨hgone.geometry, hgone.location, hgone.pins, hgone.kept⟩
    · exact .refl p

theorem keeps_load (p : PagedPool) (i : Nat) : p.Keeps (p.load i).2 := by
  rw [load]
  split
  · exact .refl p
  · next offset length hlocation =>
    -- Room is made for the page before it is read.
    have hevict := p.keeps_evictFor i (p.pages.size + 1)
    rw [bind_location?] at hlocation
    revert hevict
    dsimp only
    generalize p.evictFor i (p.pages.size + 1) = p'
    intro hevict
    split
    · exact hevict
    · refine hevict.trans ?_
      have hread := p'.keeps_modifyPage i
        (f := fun s => { s with data? := some (p'.source.extract offset (offset + length)) })
        (fun _ => rfl) (fun _ => rfl) fun page hpage => by
          obtain rfl := Option.some.inj hpage
          refine .inr ⟨offset, length, (hevict.location i).trans hlocation, ?_⟩
          rw [Array.size_extract]
          omega
      exact ⟨hread.geometry, hread.location, hread.pins, hread.kept⟩

theorem keeps_slice (p : PagedPool) (ofs : UInt32) : p.Keeps (p.slice ofs).2 := by
  rw [slice]
  split
  · exact .refl p
  · next i start _ =>
    have hloaded : p.Keeps (if (p.pages[i]?).any (·.data?.isSome) then (.ok (), p) else p.load i :
        Except Failure Unit × PagedPool).2 := by
      split
      · exact .refl p
      · exact p.keeps_load i
    dsimp only
    revert hloaded
    generalize (if (p.pages[i]?).any (·.data?.isSome) then (.ok (), p) else p.load i :
        Except Failure Unit × PagedPool) = r
    intro hloaded
    obtain ⟨loaded, p'⟩ := r
    dsimp only
    have hused : p.Keeps ({ p' with clock := p'.clock + 1 }.modifyPage i
        fun s => { s with lastUse := p'.clock + 1 }) := by
      have hused := { p' with clock := p'.clock + 1 }.keeps_modifyPage i
        (f := fun s => { s with lastUse := p'.clock + 1 }) (fun _ => rfl) (fun _ => rfl)
        fun page hpage => .inl hpage
      exact hloaded.trans ⟨hused.geometry, hused.location, hused.pins, hused.kept⟩
    split
    · exact hloaded
    · split <;> exact hused

/-- A page that is kept need not be read. -/
theorem slice_of_kept {i start : Nat} {page : Array UInt8} {s : Slice}
    (hsplit : p.geometry.split ofs = .ok (i, start)) (hdata : (p.page i).data? = some page)
    (hs : Slice.ofPage? page start = some s) : (p.slice ofs).1 = .ok s := by
  have hkept : (({ p with clock := p.clock + 1 }.modifyPage i
      fun s => { s with lastUse := p.clock + 1 }).page i).data? = some page := by
    rw [page_modifyPage, if_pos rfl]
    exact hdata
  rw [slice]
  rw [hsplit]
  dsimp only
  rw [any_isSome_data?, hdata, Option.isSome_some, if_pos rfl]
  dsimp only
  rw [bind_data?, hkept, Option.bind_some, hs]

/-- What is read at an offset is kept. -/
theorem kept_of_slice {s : Slice} (hok : (p.slice ofs).1 = .ok s) :
    ∃ i start page, p.geometry.split ofs = .ok (i, start) ∧
      ((p.slice ofs).2.page i).data? = some page ∧ Slice.ofPage? page start = some s := by
  rw [slice] at hok ⊢
  cases hsplit : p.geometry.split ofs with
  | error e =>
    rw [hsplit] at hok
    cases hok
  | ok place =>
    obtain ⟨i, start⟩ := place
    rw [hsplit] at hok
    dsimp only at hok ⊢
    generalize (if (p.pages[i]?).any (·.data?.isSome) then (.ok (), p) else p.load i :
        Except Failure Unit × PagedPool) = r at hok ⊢
    obtain ⟨loaded, p'⟩ := r
    cases loaded with
    | error e => cases hok
    | ok _ =>
      dsimp only at hok ⊢
      rw [bind_data?] at hok ⊢
      -- The bytes are those of the pool in which the use has been noted.
      generalize { p' with clock := p'.clock + 1 }.modifyPage i
        (fun s => { s with lastUse := p'.clock + 1 }) = p'' at hok ⊢
      cases hdata : (p''.page i).data? with
      | none =>
        rw [hdata] at hok
        cases hok
      | some page =>
        rw [hdata, Option.bind_some] at hok
        cases hs : Slice.ofPage? page start with
        | none =>
          rw [hs] at hok
          cases hok
        | some s' =>
          rw [hs] at hok
          obtain rfl := Except.ok.inj hok
          refine ⟨i, start, page, rfl, ?_, hs⟩
          rw [Option.bind_some, hs, hdata]

/-- What has been read is read again. -/
theorem slice_slice {s : Slice} (hok : (p.slice ofs).1 = .ok s) :
    ((p.slice ofs).2.slice ofs).1 = .ok s := by
  obtain ⟨i, start, page, hsplit, hdata, hs⟩ := kept_of_slice hok
  exact slice_of_kept ((p.keeps_slice ofs).geometry ▸ hsplit) hdata hs

theorem Keeps.countP_eq_zero_iff (hk : p.Keeps p') :
    p'.pages.countP (·.location?.isSome) = 0 ↔ p.pages.countP (·.location?.isSome) = 0 := by
  rw [Array.countP_eq_zero_iff_getD (a := {}) rfl, Array.countP_eq_zero_iff_getD (a := {}) rfl]
  refine forall_congr' fun i => ?_
  have hlocation := congrArg (Option.isSome · = false) (hk.location i)
  exact iff_of_eq hlocation

end PagedPool

/-! ## Both kinds of pools -/

/-- Every page has a number for which there is room, and is not too long. -/
def Pool.InBounds : Pool → Prop
  | .memory q => q.InBounds
  | .paged p => p.InBounds

namespace Pool

variable {p p' : Pool}

theorem inBounds_define {pageCount pageSize : UInt32} (hok : p.define pageCount pageSize = .ok p') :
    p'.InBounds := by
  cases p with
  | memory q =>
    obtain ⟨q', hq', rfl⟩ := Except.map_eq_ok.1 hok
    obtain ⟨geometry, -, hq'⟩ := Except.bind_eq_ok.1 hq'
    obtain rfl := Except.ok.inj hq'
    exact MemoryPool.inBounds_of_empty rfl
  | paged q =>
    obtain ⟨q', hq', rfl⟩ := Except.map_eq_ok.1 hok
    obtain ⟨geometry, -, hq'⟩ := Except.bind_eq_ok.1 hq'
    obtain rfl := Except.ok.inj hq'
    exact PagedPool.inBounds_of_empty rfl

theorem InBounds.addPage {index : UInt32} {mask : UInt8} {data : PageData} (hp : p.InBounds)
    (hok : p.addPage index mask data = .ok p') : p'.InBounds := by
  cases p with
  | memory q =>
    obtain ⟨q', hq', rfl⟩ := Except.map_eq_ok.1 hok
    exact MemoryPool.InBounds.addPage hp hq'
  | paged q =>
    obtain ⟨q', hq', rfl⟩ := Except.map_eq_ok.1 hok
    exact PagedPool.InBounds.addPage hp hq'

theorem InBounds.slice (hp : p.InBounds) (ofs : UInt32) : (p.slice ofs).2.InBounds := by
  cases p with
  | memory q => exact hp
  | paged q => exact (q.keeps_slice ofs).inBounds hp

theorem loadedPages_slice (p : Pool) (ofs : UInt32) :
    (p.slice ofs).2.loadedPages = 0 ↔ p.loadedPages = 0 := by
  cases p with
  | memory q => exact Iff.rfl
  | paged q => exact (q.keeps_slice ofs).countP_eq_zero_iff

theorem slice_paged (q : PagedPool) (ofs : UInt32) :
    (paged q).slice ofs = ((q.slice ofs).1, paged (q.slice ofs).2) := rfl

/-- What has been read is read again. -/
theorem slice_slice {ofs : UInt32} {s : Slice} (hok : (p.slice ofs).1 = .ok s) :
    ((p.slice ofs).2.slice ofs).1 = .ok s := by
  cases p with
  | memory q => exact hok
  | paged q =>
    rw [slice_paged] at hok ⊢
    rw [slice_paged]
    exact q.slice_slice hok

/-- What can be read starts on one of the pages for which there is room. -/
theorem lt_of_slice {ofs : UInt32} {s : Slice} (hok : (p.slice ofs).1 = .ok s) :
    ofs.toNat < p.geometry.pageCount.toNat * p.geometry.pageSize.toNat := by
  cases p with
  | memory q =>
    obtain ⟨place, hplace, -⟩ := Except.bind_eq_ok.1 hok
    exact Geometry.lt_of_split hplace
  | paged q =>
    rw [slice_paged] at hok
    obtain ⟨i, start, page, hplace, -⟩ := PagedPool.kept_of_slice hok
    exact Geometry.lt_of_split hplace

end Pool

/-! ## Code -/

namespace Pools

variable {ps : Pools} {ofs : UInt32} {n : Nat} {bs : Bytes}

/-- Code is read from the page on which it starts. -/
theorem readCode_eq_ok_iff : (ps.readCode ofs n).1 = .ok bs ↔
    ∃ s, (ps.code.slice ofs).1 = .ok s ∧ s.take? n = some bs := by
  rw [readCode, codeSlice]
  dsimp only
  cases hs : (ps.code.slice ofs).1 with
  | error e => simp [Except.bind]
  | ok s => cases hbs : s.take? n <;> simp [Except.bind, hbs]

/-- Code that has been read is read again. -/
theorem readCode_readCode (hok : (ps.readCode ofs n).1 = .ok bs) :
    ((ps.readCode ofs n).2.readCode ofs n).1 = .ok bs := by
  obtain ⟨s, hs, hbs⟩ := readCode_eq_ok_iff.1 hok
  exact readCode_eq_ok_iff.2 ⟨s, ps.code.slice_slice hs, hbs⟩

end Pools

end StoryMachine
