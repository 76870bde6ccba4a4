import StoryMachine.Image.Draft
import StoryMachine.Proofs.Pool.Bounds

/-!
# The pages of a byte string

A byte string is divided into pages, which are added to a pool one after the other. From
each offset of the byte string the pool then gives what is left of it on the page.

* `ImageDraft.getElem?_pages`: the pages of a byte string;
* `MemoryPool.HasPages`, `MemoryPool.HasPages.addPage`: pages that are added in their order;
* `Pool.Gives`, `MemoryPool.HasPages.gives`: what a pool gives once all pages are there;
* `Pool.Gives.slice`, `Pools.readCode_of_gives`: data and code that stand on one page.
-/

namespace StoryMachine

namespace ImageDraft

theorem length_pages (size n : Nat) (bs : Bytes) : (pages size n bs).length = n := by
  induction n generalizing bs with
  | zero => rfl
  | succ n ih => rw [pages, List.length_cons, ih]

theorem getElem?_pages {n i : Nat} (size : Nat) (bs : Bytes) (hi : i < n) :
    (pages size n bs)[i]? = some ((bs.drop (i * size)).take size) := by
  induction n generalizing bs i with
  | zero => exact absurd hi (Nat.not_lt_zero i)
  | succ n ih =>
    cases i with
    | zero => rw [pages, List.getElem?_cons_zero, Nat.zero_mul, List.drop_zero]
    | succ i =>
      rw [pages, List.getElem?_cons_succ, ih _ (Nat.lt_of_succ_lt_succ hi), List.drop_drop,
        Nat.succ_mul, Nat.add_comm]

theorem length_of_mem_pages {size n : Nat} {bs page : Bytes} (hpage : page ∈ pages size n bs) :
    page.length ≤ size := by
  obtain ⟨i, hi, rfl⟩ := List.mem_iff_getElem.1 hpage
  have hget := getElem?_pages size bs (length_pages size n bs ▸ hi)
  rw [List.getElem?_eq_getElem hi] at hget
  rw [Option.some.inj hget]
  exact List.length_take_le _ _

end ImageDraft

namespace MemoryPool

variable {p : MemoryPool} {all : List Bytes} {page : Bytes}

/-- The pool has the pages in their order, and no others. -/
def HasPages (p : MemoryPool) (all : List Bytes) : Prop :=
  p.pages = (all.map fun page => some page.toArray).toArray

theorem hasPages_nil (g : Geometry) : HasPages { geometry := g } [] := rfl

theorem HasPages.loadedPages (hp : p.HasPages all) :
    (Pool.memory p).loadedPages = all.length := by
  rw [Pool.loadedPages, hp, List.countP_toArray, List.countP_map, List.countP_eq_length.2]
  exact fun _ _ => rfl

/-- A page that is put after the last one. -/
theorem setIfInBounds_reaching (pages : Array (Option (Array UInt8))) (page : Array UInt8) :
    (reaching pages pages.size none).setIfInBounds pages.size (some page) =
      pages.push (some page) := by
  have hreaching : reaching pages pages.size none = pages.push none := by
    rw [reaching, if_neg (Nat.lt_irrefl _), Nat.add_sub_cancel_left]
    rfl
  rw [hreaching]
  apply Array.ext_getElem?
  intro i
  simp only [Array.getElem?_setIfInBounds, Array.getElem?_push, Array.size_push]
  split_ifs <;> first | rfl | omega

/-- A masked page is added after the last one, without its mask. -/
theorem HasPages.addPage (hp : p.HasPages all) (hcount : all.length < p.geometry.pageCount.toNat)
    (hsize : page.length ≤ p.geometry.pageSize.toNat) (hzero : p.geometry.pageSize ≠ 0)
    (mask : UInt8) : ∃ p', p'.geometry = p.geometry ∧ p'.HasPages (all ++ [page]) ∧
      p.addPage (.ofNat all.length) mask (.bytes (page.map (· ^^^ mask))) = .ok p' := by
  have hpages : p.pages.size = all.length := by
    rw [hp, List.size_toArray, List.length_map]
  have hindex : (UInt32.ofNat all.length).toNat = all.length :=
    UInt32.toNat_ofNat_of_lt' (hcount.trans (UInt32.toNat_lt _))
  have hroom : ¬p.geometry.pageCount ≤ UInt32.ofNat all.length := by
    rw [UInt32.not_le, UInt32.lt_iff_toNat_lt, hindex]
    exact hcount
  have hlength : ¬p.geometry.pageSize.toNat < (page.map (· ^^^ mask)).length := by
    rw [List.length_map]
    exact not_lt.2 hsize
  have hnew : p.pages[(UInt32.ofNat all.length).toNat]?.any Option.isSome = false := by
    rw [hindex, Array.getElem?_eq_none hpages.le]
    rfl
  have hplain : (page.map (· ^^^ mask)).map (· ^^^ mask) = page := by
    rw [List.map_map]
    refine (List.map_congr_left fun b _ => ?_).trans (List.map_id page)
    rw [Function.comp_apply, UInt8.xor_assoc, UInt8.xor_self, UInt8.xor_zero, id]
  refine ⟨{ p with pages := p.pages.push (some page.toArray) }, rfl, ?_, ?_⟩
  · rw [HasPages, hp, List.map_append, List.push_toArray]
    rfl
  · rw [MemoryPool.addPage, Geometry.checkNewPage, if_neg hzero, if_neg hroom, if_neg hlength,
      hnew, hplain, hindex, ← hpages]
    exact congrArg (fun pages => Except.ok (MemoryPool.mk p.geometry pages))
      (setIfInBounds_reaching p.pages page.toArray)

end MemoryPool

/-- From each offset of the bytes on, the pool gives what is left of them on the page. -/
def Pool.Gives (p : Pool) (bs : Bytes) : Prop :=
  ∀ ofs : UInt32, ofs.toNat < bs.length → ∃ s, p.slice ofs = (.ok s, p) ∧
    s.toBytes = (bs.drop ofs.toNat).take
      (p.geometry.pageSize.toNat - ofs.toNat % p.geometry.pageSize.toNat)

/-- The number of pages that bytes take up. -/
theorem ImageDraft.div_lt_pageCount {size n i : Nat} (hsize : 0 < size) (hi : i < n) :
    i / size < (n + size - 1) / size := by
  have hle : (i + size) / size ≤ (n + size - 1) / size := Nat.div_le_div_right (by omega)
  rw [Nat.add_div_right i hsize] at hle
  exact hle

/-- An offset on a page for which there is room. -/
theorem Geometry.split_eq_ok {g : Geometry} {ofs : UInt32} (hsize : 0 < g.pageSize.toNat)
    (hlt : ofs.toNat / g.pageSize.toNat < g.pageCount.toNat) :
    g.split ofs = .ok (ofs.toNat / g.pageSize.toNat, ofs.toNat % g.pageSize.toNat) := by
  have hpage : (ofs / g.pageSize).toNat = ofs.toNat / g.pageSize.toNat := UInt32.toNat_div ..
  have hstart : (ofs % g.pageSize).toNat = ofs.toNat % g.pageSize.toNat := UInt32.toNat_mod ..
  have hzero : g.pageSize ≠ 0 := by
    intro hzero
    rw [hzero] at hsize
    exact absurd hsize (Nat.lt_irrefl 0)
  have hroom : ¬g.pageCount ≤ ofs / g.pageSize := by
    rw [UInt32.not_le, UInt32.lt_iff_toNat_lt, hpage]
    exact hlt
  rw [Geometry.split, if_neg hzero, if_neg hroom, hpage, hstart]

/-- What is left of the bytes on the page of an offset. -/
theorem Slice.toBytes_page {bs : Bytes} {size ofs : Nat} (hsize : 0 < size)
    (hofs : ofs < bs.length) :
    ofs % size < ((bs.drop (ofs / size * size)).take size).toArray.size ∧
      Slice.toBytes ⟨((bs.drop (ofs / size * size)).take size).toArray, ofs % size⟩ =
        (bs.drop ofs).take (size - ofs % size) := by
  have hdiv := Nat.div_add_mod' ofs size
  have hmod := Nat.mod_lt ofs hsize
  constructor
  · rw [List.size_toArray, List.length_take, List.length_drop]
    omega
  · rw [Slice.toBytes, List.extract_toArray, List.size_toArray, List.extract_eq_take_drop,
      List.drop_take, List.drop_drop, hdiv]
    apply List.take_of_length_le
    rw [List.length_take, List.length_take, List.length_drop, List.length_drop]
    dsimp only
    omega

theorem MemoryPool.HasPages.gives {p : MemoryPool} {bs : Bytes} {size n : Nat} (hsize : 0 < size)
    (hn : n = (bs.length + size - 1) / size) (hp : p.HasPages (ImageDraft.pages size n bs))
    (hpageSize : p.geometry.pageSize.toNat = size) (hpageCount : p.geometry.pageCount.toNat = n) :
    (Pool.memory p).Gives bs := by
  intro ofs hofs
  have hlt : ofs.toNat / size < n := hn ▸ ImageDraft.div_lt_pageCount hsize hofs
  have hsplit : p.geometry.split ofs = .ok (ofs.toNat / size, ofs.toNat % size) := by
    subst hpageSize hpageCount
    exact Geometry.split_eq_ok hsize hlt
  have hget : p.pages[ofs.toNat / size]? =
      some (some ((bs.drop (ofs.toNat / size * size)).take size).toArray) := by
    rw [hp, List.getElem?_toArray, List.getElem?_map, ImageDraft.getElem?_pages size bs hlt]
    rfl
  -- The place in the page is one of the page, as the offset is one of the bytes.
  obtain ⟨hplace, hbytes⟩ := Slice.toBytes_page hsize hofs
  refine ⟨⟨((bs.drop (ofs.toNat / size * size)).take size).toArray, ofs.toNat % size⟩, ?_, ?_⟩
  · rw [Pool.slice, MemoryPool.slice, hsplit]
    dsimp only [bind, Except.bind]
    rw [hget, Option.getD_some, Option.bind_some, Slice.ofPage?, if_pos hplace]
  · rw [hbytes, ← hpageSize]
    rfl

/-! ## What is at an offset -/

namespace Pool

variable {p : Pool} {before chunk after : Bytes} {ofs : UInt32}

/-- What was put on one page is found at its offset. -/
theorem Gives.slice (hp : p.Gives (before ++ chunk ++ after)) (hofs : ofs.toNat = before.length)
    (hchunk : chunk ≠ [])
    (hpage : before.length % p.geometry.pageSize.toNat + chunk.length ≤
      p.geometry.pageSize.toNat) : ∃ s, p.slice ofs = (.ok s, p) ∧ chunk <+: s.toBytes := by
  have hpos := List.length_pos_iff.2 hchunk
  obtain ⟨s, hs, hbytes⟩ := hp ofs (by rw [List.length_append, List.length_append]; omega)
  refine ⟨s, hs, ?_⟩
  rw [hbytes, hofs, List.append_assoc, List.drop_left, List.prefix_take_iff]
  exact ⟨List.prefix_append _ _, by omega⟩

end Pool

theorem Slice.take?_eq_some {s : Slice} {n : Nat} (hn : 0 < n) (hs : n ≤ s.toBytes.length) :
    s.take? n = some (s.toBytes.take n) := by
  have hle : s.start + n ≤ s.page.size := by
    rw [toBytes, Array.length_toList, Array.size_extract] at hs
    omega
  rw [take?, if_pos hle, front, toBytes, Array.toList_extract, Array.toList_extract,
    List.extract_eq_take_drop, List.extract_eq_take_drop, List.take_take]
  congr 2
  omega

/-- Code that is on one page is read. -/
theorem Pools.readCode_of_gives {ps : Pools} {bs : Bytes} {ofs : UInt32} {n : Nat}
    (hps : ps.code.Gives bs) (hn : 0 < n) (hbs : ofs.toNat + n ≤ bs.length)
    (hpage : ofs.toNat % ps.code.geometry.pageSize.toNat + n ≤
      ps.code.geometry.pageSize.toNat) : ∃ front, ps.readCode ofs n = (.ok front, ps) := by
  obtain ⟨s, hs, hbytes⟩ := hps ofs (by omega)
  have hlength : n ≤ s.toBytes.length := by
    rw [hbytes, List.length_take, List.length_drop]
    omega
  have hfront := Slice.take?_eq_some hn hlength
  refine ⟨_, Prod.ext (readCode_eq_ok_iff.2 ⟨s, congrArg Prod.fst hs, hfront⟩) ?_⟩
  change { ps with code := (ps.code.slice ofs).2 } = ps
  rw [hs]

end StoryMachine
