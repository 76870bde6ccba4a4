import StoryMachine.Proofs.Pool.Calls
import StoryMachine.Proofs.Pool.Eviction

/-!
# Pages elsewhere in the image

A pool that is read on demand remembers where its pages are in the image. When the pages are
elsewhere in another image, and are the same there, the pools do the same: they read and give up
the same pages in the same order, and answer every call alike.

* `PagedPool.Moved`, `Pools.Moved`: pools whose pages are elsewhere;
* `PagedPool.Moved.slice`: what is read is the same;
* `Pools.Moved.answers_eq`: so is everything that is asked.
-/

namespace StoryMachine

/-! ## Pages that are elsewhere -/

/-- The bytes of a page as an image has them, and how many there should be. -/
def PageSlot.stored? (s : PageSlot) (image : Array UInt8) : Option (Nat × Array UInt8) :=
  s.location?.map fun (offset, length) => (length, image.extract offset (offset + length))

/-- A page is elsewhere in another image, and is the same there. -/
structure PageSlot.Moved (image image' : Array UInt8) (s s' : PageSlot) : Prop where
  /-- The images have the same page. -/
  stored : s.stored? image = s'.stored? image'
  /-- The same is kept of it. -/
  data : s.data? = s'.data?
  /-- It is pinned as often. -/
  pins : s.pins = s'.pins
  /-- It was used at the same time. -/
  lastUse : s.lastUse = s'.lastUse

/-- The bytes of a page are given, or are elsewhere in another image. -/
inductive PageData.Moved (image image' : Array UInt8) : PageData → PageData → Prop
  | bytes (bs : Bytes) : Moved image image' (.bytes bs) (.bytes bs)
  | deferred {offset offset' length : Nat} (hbytes : image.extract offset (offset + length) =
      image'.extract offset' (offset' + length)) :
      Moved image image' (.deferred offset length) (.deferred offset' length)

theorem PageSlot.Moved.isSome_location? {image image' : Array UInt8} {s s' : PageSlot}
    (hs : s.Moved image image' s') : s.location?.isSome = s'.location?.isSome := by
  have hstored := congrArg Option.isSome hs.stored
  rwa [stored?, stored?, Option.isSome_map, Option.isSome_map] at hstored

namespace PagedPool

/-- The pages of a pool are elsewhere in another image. -/
structure Moved (image image' : Array UInt8) (p q : PagedPool) : Prop where
  /-- The pages are read from the image. -/
  source : p.source = image
  /-- Those of the other pool are read from the other one. -/
  source' : q.source = image'
  /-- There is room for the same pages. -/
  geometry : p.geometry = q.geometry
  /-- As many pages are kept at most. -/
  maxResident : p.maxResident = q.maxResident
  /-- As many are kept. -/
  resident : p.resident = q.resident
  /-- The pools have been used as often. -/
  clock : p.clock = q.clock
  /-- There are as many pages. -/
  size : p.pages.size = q.pages.size
  /-- Page by page they are the same. -/
  page : ∀ i, (p.page i).Moved image image' (q.page i)

variable {image image' : Array UInt8} {p q : PagedPool} {i : Nat}

theorem moved_new (pool : UInt16) (image image' : Array UInt8) (maxResident : Nat) :
    (new pool image maxResident).Moved image image' (new pool image' maxResident) where
  source := rfl
  source' := rfl
  geometry := rfl
  maxResident := rfl
  resident := rfl
  clock := rfl
  size := rfl
  page _ := ⟨rfl, rfl, rfl, rfl⟩

theorem size_modifyPage (p : PagedPool) (i : Nat) (f : PageSlot → PageSlot) :
    (p.modifyPage i f).pages.size = max p.pages.size (i + 1) := by
  rw [modifyPage, Array.size_modify, reaching]
  split
  · omega
  · rw [Array.size_append, Array.size_replicate]
    omega

theorem Moved.modifyPage (hp : p.Moved image image' q) {f g : PageSlot → PageSlot}
    (hf : (f (p.page i)).Moved image image' (g (q.page i))) :
    (p.modifyPage i f).Moved image image' (q.modifyPage i g) where
  source := hp.source
  source' := hp.source'
  geometry := hp.geometry
  maxResident := hp.maxResident
  resident := hp.resident
  clock := hp.clock
  size := by rw [size_modifyPage, size_modifyPage, hp.size]
  page j := by
    rw [page_modifyPage, page_modifyPage]
    split
    · next heq => exact heq ▸ hf
    · exact hp.page j

theorem Moved.withResident (hp : p.Moved image image' q) {n m : Nat} (hn : n = m) :
    { p with resident := n }.Moved image image' { q with resident := m } :=
  ⟨hp.source, hp.source', hp.geometry, hp.maxResident, hn, hp.clock, hp.size, hp.page⟩

theorem Moved.giveUp (hp : p.Moved image image' q) (i : Nat) :
    (p.giveUp i).Moved image image' (q.giveUp i) := by
  have hpage := hp.page i
  exact (hp.modifyPage ⟨hpage.stored, rfl, hpage.pins, hpage.lastUse⟩).withResident
    (congrArg (· - 1) hp.resident)

theorem Moved.fill (hp : p.Moved image image' q) (i : Nat) (bytes : Array UInt8) :
    (p.fill i bytes).Moved image image' (q.fill i bytes) := by
  have hpage := hp.page i
  exact (hp.modifyPage ⟨hpage.stored, rfl, hpage.pins, hpage.lastUse⟩).withResident
    (congrArg (· + 1) hp.resident)

theorem Moved.touch (hp : p.Moved image image' q) (i : Nat) :
    (p.touch i).Moved image image' (q.touch i) := by
  have hclock :
      { p with clock := p.clock + 1 }.Moved image image' { q with clock := q.clock + 1 } :=
    ⟨hp.source, hp.source', hp.geometry, hp.maxResident, hp.resident,
      congrArg (· + 1) hp.clock, hp.size, hp.page⟩
  have hpage := hp.page i
  exact hclock.modifyPage ⟨hpage.stored, hpage.data, hpage.pins, congrArg (· + 1) hp.clock⟩

theorem Moved.modifyPins (hp : p.Moved image image' q) (ofs : UInt32) (f : Nat → Nat) :
    (p.modifyPins ofs f).Moved image image' (q.modifyPins ofs f) := by
  rw [PagedPool.modifyPins, PagedPool.modifyPins, hp.geometry]
  split
  · exact hp
  · next i _ _ =>
    have hpage := hp.page i
    exact hp.modifyPage ⟨hpage.stored, hpage.data, congrArg f hpage.pins, hpage.lastUse⟩

/-! ### Reading -/

theorem Moved.isEvictable (hp : p.Moved image image' q) (i : Nat) :
    p.isEvictable i = q.isEvictable i := by
  rw [Bool.eq_iff_iff, isEvictable_iff, isEvictable_iff, Held, Held, (hp.page i).data,
    (hp.page i).pins]

/-- The same page goes next. -/
theorem Moved.victim? (hp : p.Moved image image' q) (wanted : Nat) :
    p.victim? wanted = q.victim? wanted := by
  have huse (i : Nat) : p.lastUse i = q.lastUse i := by
    rw [lastUse_eq, lastUse_eq, (hp.page i).lastUse]
  simp only [PagedPool.victim?, hp.size, hp.isEvictable, huse]

theorem Moved.evictFor (hp : p.Moved image image' q) (wanted tries : Nat) :
    (p.evictFor wanted tries).Moved image image' (q.evictFor wanted tries) := by
  induction tries generalizing p q with
  | zero => exact hp
  | succ tries ih =>
    rcases lt_or_ge p.resident p.maxResident with hroom | hfull
    · have hroom' : q.resident < q.maxResident := hp.resident ▸ hp.maxResident ▸ hroom
      rwa [evictFor_of_lt hroom, evictFor_of_lt hroom']
    · have hfull' : q.maxResident ≤ q.resident := hp.resident ▸ hp.maxResident ▸ hfull
      cases hvictim : p.victim? wanted with
      | none =>
        rwa [evictFor_of_none hvictim, evictFor_of_none ((hp.victim? wanted).symm.trans hvictim)]
      | some i =>
        rw [evictFor_of_some hfull hvictim,
          evictFor_of_some hfull' ((hp.victim? wanted).symm.trans hvictim)]
        exact ih (hp.giveUp i)

/-- The same page is read, or the same is missing. -/
theorem Moved.load (hp : p.Moved image image' q) (i : Nat) :
    (p.load i).1 = (q.load i).1 ∧ (p.load i).2.Moved image image' (q.load i).2 := by
  have hp' := hp.evictFor i (p.pages.size + 1)
  have hstored := (hp.page i).stored
  rw [PageSlot.stored?, PageSlot.stored?] at hstored
  rw [PagedPool.load, PagedPool.load, bind_location?, bind_location?, hp.geometry, ← hp.size]
  cases hlocation : (p.page i).location? with
  | none =>
    rw [hlocation, Option.map_none, eq_comm, Option.map_eq_none_iff] at hstored
    rw [hstored]
    exact ⟨rfl, hp⟩
  | some place =>
    obtain ⟨offset, length⟩ := place
    rw [hlocation, Option.map_some, eq_comm, Option.map_eq_some_iff] at hstored
    obtain ⟨⟨offset', length'⟩, hlocation', hplace⟩ := hstored
    obtain ⟨rfl, hbytes⟩ := Prod.mk.inj hplace
    rw [hlocation']
    dsimp only
    rw [hp'.source, hp'.source', hbytes]
    split
    · exact ⟨rfl, hp'⟩
    · exact ⟨rfl, hp'.fill i _⟩

/-- The same bytes are read at an offset. -/
theorem Moved.slice (hp : p.Moved image image' q) (ofs : UInt32) :
    (p.slice ofs).1 = (q.slice ofs).1 ∧ (p.slice ofs).2.Moved image image' (q.slice ofs).2 := by
  rw [PagedPool.slice, PagedPool.slice, hp.geometry]
  cases q.geometry.split ofs with
  | error e => exact ⟨rfl, hp⟩
  | ok place =>
    obtain ⟨i, start⟩ := place
    dsimp only
    rw [any_isSome_data?, any_isSome_data?, (hp.page i).data]
    have hloaded : (if (q.page i).data?.isSome = true then (.ok (), p) else p.load i).1 =
          (if (q.page i).data?.isSome = true then (.ok (), q) else q.load i).1 ∧
        (if (q.page i).data?.isSome = true then (.ok (), p) else p.load i).2.Moved image image'
          (if (q.page i).data?.isSome = true then (.ok (), q) else q.load i).2 := by
      split
      · exact ⟨rfl, hp⟩
      · exact hp.load i
    generalize (if (q.page i).data?.isSome = true then (.ok (), p) else p.load i) = r at hloaded
    generalize (if (q.page i).data?.isSome = true then (.ok (), q) else q.load i) = r' at hloaded
    obtain ⟨x, p'⟩ := r
    obtain ⟨y, q'⟩ := r'
    obtain ⟨rfl, hp'⟩ := hloaded
    cases x with
    | error e => exact ⟨rfl, hp'⟩
    | ok _ =>
      have htouch := hp'.touch i
      have htail (p : PagedPool) : { p with clock := p.clock + 1 }.modifyPage i
        (fun s => { s with lastUse := p.clock + 1 }) = p.touch i := rfl
      dsimp only
      rw [htail, htail, bind_data?, bind_data?, (htouch.page i).data, htouch.geometry]
      cases ((q'.touch i).page i).data?.bind (Slice.ofPage? · start) with
      | none => exact ⟨rfl, htouch⟩
      | some s => exact ⟨rfl, htouch⟩

/-! ### Adding pages -/

theorem Moved.define (hp : p.Moved image image' q) (pageCount pageSize : UInt32) :
    Alike (Moved image image') (p.define pageCount pageSize) (q.define pageCount pageSize) := by
  rw [PagedPool.define, PagedPool.define, hp.geometry]
  refine .bindSame fun g => ?_
  exact .ok ⟨hp.source, hp.source', rfl, hp.maxResident, hp.resident, hp.clock, rfl,
    fun _ => ⟨rfl, rfl, rfl, rfl⟩⟩

theorem Moved.addPage {data data' : PageData} (hp : p.Moved image image' q) (index : UInt32)
    (mask : UInt8) (hdata : data.Moved image image' data') :
    Alike (Moved image image') (p.addPage index mask data) (q.addPage index mask data') := by
  unfold PagedPool.addPage
  refine .guard fun _ => ?_
  cases hdata with
  | bytes bs => exact .error rfl
  | @deferred offset offset' length hbytes =>
    dsimp only
    rw [any_isSome_location?, any_isSome_location?, (hp.page index.toNat).isSome_location?,
      hp.geometry]
    refine .bindSame fun _ => ?_
    have hpage := hp.page index.toNat
    have hstored : some (length, image.extract offset (offset + length)) =
        some (length, image'.extract offset' (offset' + length)) := by rw [hbytes]
    exact .ok (hp.modifyPage ⟨hstored, hpage.data, hpage.pins, hpage.lastUse⟩)

theorem Moved.countP_eq_zero_iff (hp : p.Moved image image' q) :
    p.pages.countP (·.location?.isSome) = 0 ↔ q.pages.countP (·.location?.isSome) = 0 := by
  rw [Array.countP_eq_zero_iff_getD (a := {}) rfl, Array.countP_eq_zero_iff_getD (a := {}) rfl]
  exact forall_congr' fun i => iff_of_eq (congrArg (· = false) (hp.page i).isSome_location?)

end PagedPool

/-! ## Pools whose pages are elsewhere -/

/-- A pool is in memory, or its pages are elsewhere in another image. -/
inductive Pool.Moved (image image' : Array UInt8) : Pool → Pool → Prop
  | memory (p : MemoryPool) : Moved image image' (.memory p) (.memory p)
  | paged {p q : PagedPool} (hp : p.Moved image image' q) : Moved image image' (.paged p) (.paged q)

namespace Pool

variable {image image' : Array UInt8} {p q : Pool}

theorem isSimulation_moved : IsSimulation (Moved image image') where
  slice hp ofs := by
    cases hp with
    | memory p => exact ⟨.refl _, .memory p⟩
    | @paged p q hp =>
      have hslice : (Pool.slice (.paged p) ofs).1 = (Pool.slice (.paged q) ofs).1 :=
        (hp.slice ofs).1
      exact ⟨hslice ▸ .refl _, .paged (hp.slice ofs).2⟩
  pin hp ofs := by
    cases hp with
    | memory p => exact .memory p
    | paged hp => exact .paged (hp.modifyPins ofs _)
  unpin hp ofs := by
    cases hp with
    | memory p => exact .memory p
    | paged hp => exact .paged (hp.modifyPins ofs _)

theorem Moved.define (hp : p.Moved image image' q) (pageCount pageSize : UInt32) :
    Alike (Moved image image') (p.define pageCount pageSize) (q.define pageCount pageSize) := by
  cases hp with
  | memory p => exact (Alike.refl _).map fun _ _ heq => heq ▸ .memory _
  | paged hp => exact (hp.define pageCount pageSize).map fun _ _ hp => .paged hp

theorem Moved.addPage {data data' : PageData} (hp : p.Moved image image' q) (index : UInt32)
    (mask : UInt8) (hdata : data.Moved image image' data') :
    Alike (Moved image image') (p.addPage index mask data) (q.addPage index mask data') := by
  cases hp with
  | memory p =>
    cases hdata with
    | bytes bs => exact (Alike.refl _).map fun _ _ heq => heq ▸ .memory _
    | deferred _ => exact .error rfl
  | paged hp => exact (hp.addPage index mask hdata).map fun _ _ hp => .paged hp

theorem Moved.loadedPages (hp : p.Moved image image' q) :
    (p.loadedPages == 0) = (q.loadedPages == 0) := by
  cases hp with
  | memory p => rfl
  | paged hp =>
    rw [Bool.eq_iff_iff, beq_iff_eq, beq_iff_eq]
    exact hp.countP_eq_zero_iff

theorem Moved.isPaged (hp : p.Moved image image' q) : p.isPaged = q.isPaged := by
  cases hp <;> rfl

end Pool

/-- Pools are in memory, or their pages are elsewhere in another image. -/
abbrev Pools.Moved (image image' : Array UInt8) (ps qs : Pools) : Prop :=
  ps.Both (Pool.Moved image image') qs

theorem Pools.moved_new (mode : PoolMode) (image image' : Array UInt8) :
    (new mode image).Moved image image' (new mode image') := by
  cases mode with
  | inMemory => exact ⟨.memory _, .memory _, rfl, rfl⟩
  | paged n => exact ⟨.paged (PagedPool.moved_new ..), .paged (PagedPool.moved_new ..), rfl, rfl⟩

/-- Such pools answer alike, whatever is asked. -/
theorem Pools.Moved.answers_eq {image image' : Array UInt8} {ps qs : Pools}
    (hps : ps.Moved image image' qs) (cs : List PoolCall) : ps.answers cs = qs.answers cs :=
  Both.answers_eq Pool.isSimulation_moved hps cs

end StoryMachine
