import StoryMachine.Proofs.Image.Paging
import StoryMachine.Proofs.Image.RoundTrip

/-!
# Images of which only the front is known

An image that has been loaded starts with blocks that were written. Whatever follows them, they
have been taken in first, one after the other. An image that has been loaded with pages on demand
is also loaded with all pages in memory, as none of its pages has a mask.

* `ImageDraft.forall_blocks_lt`: blocks whose sizes can be written;
* `Image.exists_foldlM_of_load`: blocks at the front of an image;
* `Image.exists_mem_blocks_of_load`: the blocks of a draft;
* `Loader.pools_of_block`: blocks that leave the pools as they are;
* `Pools.Offers`, `Loader.offers_block`: constants that stay, whatever blocks follow;
* `Image.exists_load_inMemory`: the same image in memory;
* `Machine.steady_of_load`: constants that are read again.
-/

namespace StoryMachine

/-! ## Sizes of blocks -/

namespace ImageDraft

variable {d : ImageDraft}

theorem length_payload_of_mem_pool {pool : UInt16} {bs : Bytes} {b : DraftBlock}
    (hb : b ∈ d.pool pool bs) : b.payload.length ≤ d.pageSize.toNat + 10 := by
  rcases List.mem_cons.1 hb with rfl | hb
  · rw [poolDefinition]
    simp only [List.length_append, Bytes.u16, Bytes.u32, Bytes.length_ofNat]
    omega
  · obtain ⟨⟨page, i⟩, hpage, rfl⟩ := List.mem_map.1 hb
    have hlength : page.length ≤ d.pageSize.toNat :=
      length_of_mem_pages (List.fst_mem_of_mem_zipIdx hpage)
    rw [Loader.length_poolPage]
    omega

/-- No page is too long for its block, so that only the other blocks may be. -/
theorem forall_blocks_lt {ofs : UInt32} (hextra : d.extra = #[])
    (hsize : d.pageSize.toNat + 10 < 2 ^ 32) (hofs : d.entry? = some ofs)
    (hothers : ∀ b ∈ [⟨Block.metaclasses, true, d.metaclassPayload⟩,
      ⟨Block.functionSets, true, d.functionSetPayload⟩] ++ runsOf d.groups ++
        (if d.symbols.isEmpty then [] else [⟨Block.symbols, false, d.symbolPayload⟩]) ++
          [⟨Block.entryPoint, true, entryPayload ofs⟩], b.payload.length < 2 ^ 32) :
    ∀ b ∈ d.blocks, b.payload.length < 2 ^ 32 := by
  intro b hb
  by_cases hpool : ∃ pool bs, b ∈ d.pool pool bs
  · obtain ⟨pool, bs, hb⟩ := hpool
    exact (length_payload_of_mem_pool hb).trans_lt hsize
  · have hnot (pool : UInt16) (bs : Bytes) : b ∉ d.pool pool bs := fun hb => hpool ⟨pool, bs, hb⟩
    refine hothers b ?_
    rw [blocks_eq hextra hofs] at hb
    split at hb
    · simpa [hnot] using hb
    · simpa [hnot] using hb

end ImageDraft

/-! ## Blocks that have been taken in -/

/-- What stands at the front of an image is taken in first. -/
theorem Image.exists_foldlM_of_load {d : ImageDraft} {front more : List DraftBlock}
    {mode : PoolMode} {settings : HeapSettings} {r : Image × Pools × Heap}
    (hblocks : d.blocks = front ++ more) (hfront : ∀ b ∈ front, b.Fits ∧ b.tag ≠ Block.eof)
    (hload : load d.encode mode settings = .ok r) : ∃ (l l' : Loader) (rest : List Block),
      (DraftBlock.placed (signature.length + 2) front).foldlM Loader.block
        { pools := .new mode d.encode.toArray, heap := .new settings } = .ok l ∧
      rest.foldlM Loader.block l = .ok l' ∧ r.2.1 = l'.pools := by
  obtain ⟨l', hl'⟩ := exists_loadedFrom hload
  have hbytes : d.encode.drop (signature.length + 2) = front.flatMap DraftBlock.encode ++
      (more.flatMap DraftBlock.encode ++ DraftBlock.eof.encode) := by
    rw [d.drop_encode, hblocks, List.flatMap_append, List.append_assoc]
  have hparts : (Blocks.ofBytes (signature.length + 2)
      (d.encode.drop (signature.length + 2))).list = r.1.blocks := congrArg Blocks.list hl'.blocks
  rw [hbytes, Blocks.ofBytes_append hfront] at hparts
  have htaken := hl'.taken
  rw [← hparts, List.foldlM_append] at htaken
  obtain ⟨l, hl, hmore⟩ := Except.bind_eq_ok.1 htaken
  exact ⟨l, l', _, hl, hmore, hl'.pools⟩

/-- Every block of a draft is among those of the image that has been loaded. -/
theorem Image.exists_mem_blocks_of_load {d : ImageDraft} {b : DraftBlock} {mode : PoolMode}
    {settings : HeapSettings} {r : Image × Pools × Heap} (hb : b ∈ d.blocks)
    (hblocks : ∀ b ∈ d.blocks, b.Fits ∧ b.tag ≠ Block.eof)
    (hload : load d.encode mode settings = .ok r) : ∃ place, b.block place ∈ r.1.blocks := by
  obtain ⟨hbytes, -⟩ := exists_of_load hload
  rw [d.drop_encode, Blocks.ofBytes_encode hblocks] at hbytes
  obtain ⟨front, back, hsplit⟩ := List.append_of_mem hb
  obtain ⟨place, hplaced⟩ := DraftBlock.exists_placed_append front
    (b :: (back ++ [DraftBlock.eof])) (signature.length + 2)
  have himage : r.1.blocks = DraftBlock.placed (signature.length + 2)
      (d.blocks ++ [DraftBlock.eof]) := (congrArg Blocks.list hbytes).symm
  refine ⟨place, ?_⟩
  rw [himage, hsplit, List.append_assoc, List.cons_append, hplaced]
  exact List.mem_append_right _ List.mem_cons_self

namespace Loader

variable {l l' : Loader} {b : Block}

/-- A block that neither defines a pool nor adds a page leaves the pools as they are. -/
theorem pools_of_block (htag : b.tag ≠ Block.poolDefinition) (htag' : b.tag ≠ Block.poolPage)
    (hok : block l b = .ok l') : l'.pools = l.pools := by
  cases step_of_block hok with
  | pool hpool => exact absurd hpool htag
  | page hpage => exact absurd hpage htag'
  | objects _ _ _ _ _ hdefines => exact hdefines.frame.2.2.2
  | _ => rfl

end Loader

/-! ## Constants while blocks are taken in -/

/-- A page is not replaced. -/
theorem MemoryPool.slice_addPage {q q' : MemoryPool} {index : UInt32} {mask : UInt8}
    {data : PageData} {ofs : UInt32} {s : Slice} (hok : q.addPage index mask data = .ok q')
    (hs : q.slice ofs = .ok s) : q'.slice ofs = .ok s := by
  cases data with
  | deferred offset length => cases hok
  | bytes bs =>
    obtain ⟨_, hcheck, hok⟩ := Except.bind_eq_ok.1 hok
    obtain rfl := Except.ok.inj hok
    obtain ⟨⟨i, start⟩, hsplit, hs⟩ := Except.bind_eq_ok.1 hs
    have hpage : (q.pages[i]?.getD none) = q.page? i := rfl
    dsimp only at hs
    rw [hpage] at hs
    have hne : index.toNat ≠ i := by
      rintro rfl
      have hnew := Geometry.checkNewPage_eq_ok hcheck
      rw [any_isSome] at hnew
      rw [Option.not_isSome_iff_eq_none.1 (Bool.eq_false_iff.1 hnew)] at hs
      cases hs
    have hsame := page?_setIfInBounds q index.toNat i (bs.map (· ^^^ mask)).toArray
    rw [if_neg hne, page?] at hsame
    refine Except.bind_eq_ok.2 ⟨_, hsplit, ?_⟩
    dsimp only
    rw [hsame]
    exact hs

namespace Pools

variable {ps ps' : Pools} {pool : UInt16} {ofs : UInt32} {s : Slice}

/-- The constants are all in memory, and have been defined, and there are some at the offset. -/
def Offers (ps : Pools) (ofs : UInt32) (s : Slice) : Prop :=
  ps.isDefined constantPool = true ∧ ∃ q, ps.constant = .memory q ∧ q.slice ofs = .ok s

theorem Offers.define {pageCount pageSize : UInt32} (hps : ps.Offers ofs s)
    (hok : ps.define pool pageCount pageSize = .ok ps') : ps'.Offers ofs s := by
  obtain ⟨hdefined, q, hq, hs⟩ := hps
  obtain ⟨hnew, ⟨p, rfl, -, rfl⟩ | ⟨p, rfl, -, rfl⟩⟩ := define_eq_ok hok
  · exact ⟨hdefined, q, hq, hs⟩
  · -- It cannot be defined again.
    rw [hdefined] at hnew
    cases hnew

theorem Offers.addPage {index : UInt32} {mask : UInt8} {data : PageData} (hps : ps.Offers ofs s)
    (hok : ps.addPage pool index mask data = .ok ps') : ps'.Offers ofs s := by
  obtain ⟨hdefined, q, hq, hs⟩ := hps
  refine ⟨(isDefined_of_addPage hok _).trans hdefined, ?_⟩
  rcases addPage_eq_ok hok with ⟨p, -, -, rfl⟩ | ⟨p, -, hadd, rfl⟩
  · exact ⟨q, hq, hs⟩
  · rw [hq] at hadd
    obtain ⟨q', hadd, hq'⟩ := Except.map_eq_ok.1 hadd
    exact ⟨q', hq'.symm, MemoryPool.slice_addPage hadd hs⟩

end Pools

namespace Loader

variable {l l' : Loader} {b : Block} {ofs : UInt32} {s : Slice}

/-- What there is at an offset stays there, whatever blocks follow. -/
theorem offers_block (hl : l.pools.Offers ofs s) (hok : block l b = .ok l') :
    l'.pools.Offers ofs s := by
  cases step_of_block hok with
  | pool _ _ hdefine => exact hl.define hdefine
  | page _ hadd => exact hl.addPage hadd
  | objects _ _ _ _ _ hdefines => exact hdefines.frame.2.2.2 ▸ hl
  | _ => exact hl

end Loader

namespace Loader

variable {l l' : Loader} {b : Block}

/-! ## Masks -/

/-- A page that is left in the image has no mask. -/
theorem mask_eq_zero_of_addPage {ps ps' : Pools} {pool : UInt16} {p : PagedPool} {index : UInt32}
    {mask : UInt8} {data : PageData} (hp : ps.get pool = .ok (.paged p))
    (hok : ps.addPage pool index mask data = .ok ps') : mask = 0 := by
  obtain ⟨p', hp', hok⟩ := Except.bind_eq_ok.1 hok
  obtain rfl := Except.ok.inj (hp.symm.trans hp')
  obtain ⟨_, hadd, -⟩ := Except.bind_eq_ok.1 hok
  obtain ⟨_, hadd, -⟩ := Except.map_eq_ok.1 hadd
  rw [PagedPool.addPage.eq_def] at hadd
  exact not_not.1 (Except.guard_eq_ok.1 hadd).1

variable {image : Array UInt8} {l₁ : Loader}

theorem Mirrors.mask_eq_zero (hl : l.Mirrors image l₁) (hok : Loader.block l b = .ok l') :
    ∀ mask ∈ b.mask?, mask = 0 := by
  intro mask hmask
  rw [Block.mask?] at hmask
  split at hmask
  · next htag =>
    obtain ⟨⟨⟨pool, index, _⟩, page⟩, hfields, rfl⟩ := Option.map_eq_some_iff.1 hmask
    rw [block_of_poolPage htag, Loader.poolPage] at hok
    obtain ⟨-, hpage⟩ := Except.guard_eq_ok.1 hok
    rw [hfields] at hpage
    obtain ⟨p, hp, hpage⟩ := Except.bind_eq_ok.1 hpage
    obtain @⟨pools, hpools⟩ := hl
    obtain ⟨q, -, ⟨_⟩⟩ := ((Pools.mirrors_iff_both.1 hpools).get pool).exists_ok hp
    obtain ⟨_, -, hpage⟩ := Except.bind_eq_ok.1 hpage
    obtain ⟨_, hadd, -⟩ := Except.bind_eq_ok.1 hpage
    exact mask_eq_zero_of_addPage hp hadd
  · cases hmask

/-- The induction is on the blocks, which are taken in both ways side by side. -/
theorem Mirrors.masks_eq_zero {image : Bytes} {blocks : List Block}
    (hl : l.Mirrors image.toArray l₁) (hblocks : ∀ b ∈ blocks, b.tag ≠ Block.eof → b.Within image)
    (hok : blocks.foldlM Loader.block l = .ok l') : ∀ b ∈ blocks, ∀ mask ∈ b.mask?, mask = 0 := by
  induction blocks generalizing l l₁ with
  | nil => exact List.forall_mem_nil _
  | cons b blocks ih =>
    obtain ⟨hb, hblocks⟩ := List.forall_mem_cons.1 hblocks
    rw [List.foldlM_cons] at hok
    obtain ⟨l₂, hblock, hok⟩ := Except.bind_eq_ok.1 hok
    have hmask := hl.mask_eq_zero hblock
    have hsame := hl.block hb hmask
    rw [hblock] at hsame
    generalize Loader.block l₁ b = r at hsame
    cases hsame with
    | ok hl => exact List.forall_mem_cons.2 ⟨hmask, ih hl hblocks hok⟩

end Loader

namespace Image

variable {bs : Bytes} {settings : HeapSettings} {maxResident : Nat} {r : Image × Pools × Heap}

/-- No page of an image that has been loaded with pages on demand has a mask. -/
theorem unmasked_of_load (hload : load bs (.paged maxResident) settings = .ok r) : Unmasked bs := by
  obtain ⟨l, hl⟩ := exists_loadedFrom hload
  have hend : (Blocks.ofBytes (signature.length + 2)
      (bs.drop (signature.length + 2))).ending ≠ .truncated := by
    rw [hl.blocks]
    exact nofun
  have hnew : Loader.Mirrors bs.toArray
      { pools := .new (.paged maxResident) bs.toArray, heap := .new settings }
      { pools := .new .inMemory bs.toArray, heap := .new settings } :=
    .withPools (Pools.mirrors_new bs.toArray maxResident)
  rw [Unmasked, hl.blocks]
  refine hnew.masks_eq_zero (fun b hb htag => Blocks.within_of_mem rfl hend ?_ htag) hl.taken
  rw [hl.blocks]
  exact hb

/-- The image is also loaded with all its pages in memory. -/
theorem exists_load_inMemory (hload : load bs (.paged maxResident) settings = .ok r) :
    ∃ r', load bs .inMemory settings = .ok r' ∧ Mirrors bs r r' := by
  rcases load_paged (unmasked_of_load hload) maxResident settings with ⟨_, _, he, -⟩ | hsame
  · rw [hload] at he
    cases he
  · rw [hload] at hsame
    generalize load bs .inMemory settings = x at hsame
    cases hsame with
    | ok hr => exact ⟨_, rfl, hr⟩

/-- What is read from the constants of the image stays what it is. -/
theorem steady_constant_of_load {mode : PoolMode} (hload : load bs mode settings = .ok r) :
    r.2.1.constant.Steady := by
  cases mode with
  | inMemory =>
    obtain ⟨l, hl⟩ := exists_loadedFrom hload
    rw [hl.pools]
    have hmemory := Loader.all_foldlM (Pool.survives_isPaged false) ⟨rfl, rfl⟩ hl.taken
    exact Pool.steady_of_isPaged hmemory.constant
  | paged maxResident =>
    -- Its pages are those that it would have in memory, whichever of them are kept.
    obtain ⟨_, -, -, hpools, -⟩ := exists_load_inMemory hload
    exact hpools.constant.steady

end Image

/-- A machine that has been loaded reads the same constants again and again, in memory or on
    demand. -/
theorem Machine.steady_of_load {bs : Bytes} {settings : MachineSettings} {host : Host} {m : Machine}
    (hload : load bs settings host = .ok m) : m.pools.constant.Steady := by
  obtain ⟨pools, _, himage, -, hpools⟩ := parts_of_load hload
  rw [hpools]
  exact Image.steady_constant_of_load himage

end StoryMachine
