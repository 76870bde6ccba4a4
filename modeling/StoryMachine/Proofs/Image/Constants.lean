import StoryMachine.Proofs.Image.Front
import StoryMachine.Proofs.Metaclass.Data

/-!
# Constants that are read back

A constant that was put into a draft is found at the offset that the call gave back, whatever was
put there before and after it, and however the pages are kept. Its first two bytes say how many
bytes of text or how many values follow. Where that is too few for their number, only the remainder
is said, and something else is read.

* `Constant`, `Constant.IsReadAt`: constants, and what it means to read one;
* `Pools.stringIn_eq_ok_iff`, `Pools.listIn_eq_ok`: what is read off the bytes at an offset;
* `Constant.isReadAt_iff`: the constants that are read off their own bytes;
* `Loader.serves_of_frontBlocks`: the constants once the blocks up to them have been taken in;
* `Image.exists_slice_of_load_run`: the bytes of a constant in an image that has been loaded;
* `Image.isReadAt_iff_of_load`, `Image.readString_longText`: the constants that are read back, and
  one that is not.
-/

namespace StoryMachine

/-- A constant. -/
inductive Constant where
  /-- A string, with its text. -/
  | string (s : String)
  /-- A list, with its elements. -/
  | list (vs : List Value)
deriving DecidableEq, Repr

namespace Constant

/-- The call that puts the constant into a draft. -/
def call : Constant → ImageDraft.Call
  | string s => .string s
  | list vs => .list vs

/-- The bytes of the constant. -/
def bytes : Constant → Bytes
  | string s => Bytes.u16 (.ofNat (Bytes.ofText s).length) ++ Bytes.ofText s
  | list vs => ObjectData.items vs

/-- The number that the first two bytes are to say, which is that of the bytes of the text or of
    the elements. -/
def count : Constant → Nat
  | string s => (Bytes.ofText s).length
  | list vs => vs.length

/-- All elements have a portable form. -/
def IsPortable : Constant → Prop
  | string _ => True
  | list vs => ∀ v ∈ vs, v.portable?.isSome = true

/-- The constant is what is read at an offset. -/
def IsReadAt (c : Constant) (ps : Pools) (ofs : UInt32) : Prop :=
  match c with
  | string s => (ps.readString ofs).1 = .ok s
  | list vs => (ps.readList ofs).1 = .ok vs

instance : (c : Constant) → Decidable c.IsPortable
  | string _ => inferInstanceAs (Decidable True)
  | list vs => inferInstanceAs (Decidable (∀ v ∈ vs, v.portable?.isSome = true))

theorem chunk?_call (c : Constant) : c.call.chunk? = some (constantPool, c.bytes) := by
  cases c <;> rfl

theorem bytes_ne_nil (c : Constant) : c.bytes ≠ [] := by
  cases c <;> exact List.cons_ne_nil _ _

end Constant

/-! ## Reading off bytes -/

namespace Slice

variable {s : Slice} {front : Bytes}

theorem take?_of_prefix (hfront : front <+: s.toBytes) (hne : front ≠ []) :
    s.take? front.length = some front := by
  rw [take?_eq_some (List.length_pos_iff.2 hne) hfront.length_le,
    List.prefix_iff_eq_take.1 hfront |>.symm]

end Slice

namespace Pools

variable {ps ps' : Pools} {ofs : UInt32} {s : Slice} {n : UInt16} {bs : Bytes}

theorem take?_count (hs : Bytes.u16 n ++ bs <+: s.toBytes) :
    s.take? 2 = some (Bytes.u16 n) ∧ Bytes.toNat (Bytes.u16 n) = n.toNat :=
  ⟨Slice.take?_of_prefix ((List.prefix_append _ _).trans hs) (List.cons_ne_nil _ _),
    Bytes.toNat_ofNat n.toNat_lt⟩

/-- A text is read off as many bytes as the count says. -/
theorem stringIn_eq_ok_iff {t : String} (hs : Bytes.u16 n ++ bs <+: s.toBytes)
    (hn : bs.length = n.toNat) : stringIn ofs s = .ok t ↔ Bytes.ofText t = bs := by
  obtain ⟨hcount, hback⟩ := take?_count hs
  have hlength : (Bytes.u16 n ++ bs).length = 2 + n.toNat := by
    rw [List.length_append, Bytes.u16, Bytes.length_ofNat, hn]
  have hall := Slice.take?_of_prefix hs (List.cons_ne_nil _ _)
  rw [hlength] at hall
  have hdrop : (Bytes.u16 n ++ bs).drop 2 = bs := List.drop_left' (Bytes.length_ofNat 2 n.toNat)
  rw [stringIn, hcount]
  dsimp only [bind, Option.bind, pure]
  rw [hback, hall]
  dsimp only
  rw [hdrop, ← Bytes.toText?_eq_some_iff]
  cases Bytes.toText? bs <;> simp

/-- As many elements are read as the count says. -/
theorem listIn_eq_ok {vs : List Value} (hvs : ∀ v ∈ vs, v.portable?.isSome = true)
    (hs : Bytes.u16 n ++ vs.flatMap Value.portable <+: s.toBytes) (hn : vs.length = n.toNat) :
    listIn ofs s = .ok vs := by
  obtain ⟨hcount, hback⟩ := take?_count hs
  have hlength : (Bytes.u16 n ++ vs.flatMap Value.portable).length =
      2 + n.toNat * Value.portableSize := by
    rw [List.length_append, Bytes.u16, Bytes.length_ofNat,
      ObjectData.length_flatMap_of_forall Value.length_portable, hn, Nat.mul_comm]
  have hall := Slice.take?_of_prefix hs (List.cons_ne_nil _ _)
  rw [hlength] at hall
  have hdrop : (Bytes.u16 n ++ vs.flatMap Value.portable).drop 2 = vs.flatMap Value.portable :=
    List.drop_left' (Bytes.length_ofNat 2 n.toNat)
  have hread := Reader.reads_replicate (fun v hv => Reader.reads_portable (hvs v hv)) []
  rw [List.append_nil, hn] at hread
  rw [listIn, hcount]
  dsimp only [bind, Option.bind, pure]
  rw [hback, hall]
  dsimp only
  rw [hdrop, hread]

end Pools

namespace Constant

variable {c : Constant} {ps : Pools} {ofs : UInt32} {s : Slice}

/-- Where the bytes of a constant are, it is read unless its number is too large for the count,
    which then says the remainder. -/
theorem isReadAt_iff (hs : (ps.constant.slice ofs).1 = .ok s) (hbytes : c.bytes <+: s.toBytes)
    (hc : c.IsPortable) : c.IsReadAt ps ofs ↔ c.count ≤ 65535 := by
  have hcount (n : Nat) : (UInt16.ofNat n).toNat = n % 65536 := UInt16.toNat_ofNat' ..
  cases c with
  | string t =>
    have hread : (ps.readString ofs).1 = Pools.stringIn ofs s := by
      change (ps.constant.slice ofs).1.bind _ = _
      rw [hs]
      rfl
    have hpart : Bytes.u16 (.ofNat (Bytes.ofText t).length) ++
        (Bytes.ofText t).take (UInt16.ofNat (Bytes.ofText t).length).toNat <+: s.toBytes :=
      ((List.prefix_append_right_inj _).2 (List.take_prefix _ _)).trans hbytes
    change (ps.readString ofs).1 = .ok t ↔ (Bytes.ofText t).length ≤ 65535
    rw [hread, Pools.stringIn_eq_ok_iff hpart ?_, eq_comm, List.take_eq_self_iff, hcount]
    · omega
    · rw [List.length_take, hcount]
      omega
  | list vs =>
    have hread : (ps.readList ofs).1 = Pools.listIn ofs s := by
      change (ps.constant.slice ofs).1.bind _ = _
      rw [hs]
      rfl
    have hpart : Bytes.u16 (.ofNat vs.length) ++
        (vs.take (UInt16.ofNat vs.length).toNat).flatMap Value.portable <+: s.toBytes := by
      refine List.IsPrefix.trans ((List.prefix_append_right_inj _).2 ?_) hbytes
      refine ⟨(vs.drop (UInt16.ofNat vs.length).toNat).flatMap Value.portable, ?_⟩
      rw [← List.flatMap_append, List.take_append_drop]
    have hportable (v : Value) (hv : v ∈ vs.take (UInt16.ofNat vs.length).toNat) :
        v.portable?.isSome = true := hc v (List.mem_of_mem_take hv)
    change (ps.readList ofs).1 = .ok vs ↔ vs.length ≤ 65535
    rw [hread, Pools.listIn_eq_ok hportable hpart ?_, Except.ok.injEq, List.take_eq_self_iff,
      hcount]
    · omega
    · rw [List.length_take, hcount]
      omega

end Constant

/-! ## Drafts with constants -/

namespace ImageDraft

variable {d : ImageDraft}

/-- Offsets of both pools and the sizes of blocks can be written in four bytes. -/
structure Sized (d : ImageDraft) : Prop where
  /-- The pools are not too long. -/
  pools : d.code.size < 2 ^ 32 ∧ d.constants.size < 2 ^ 32
  /-- Neither are the payloads of blocks. -/
  blocks : ∀ b ∈ d.blocks, b.payload.length < 2 ^ 32

/-- The draft with blocks that are added as they are. -/
def withBlocks (d : ImageDraft) (extra : Array (Bytes × Bool × Bytes)) : ImageDraft :=
  { d with extra }

theorem withBlocks_run (n : UInt32) (calls : List Call) :
    (run n calls).withBlocks #[] = run n calls := by
  rw [withBlocks, ← extra_run n calls]

@[simp]
theorem poolBytes_withBlocks (d : ImageDraft) (extra : Array (Bytes × Bool × Bytes))
    (pool : UInt16) : (d.withBlocks extra).poolBytes pool = d.poolBytes pool := rfl

@[simp]
theorem pageSize_withBlocks (d : ImageDraft) (extra : Array (Bytes × Bool × Bytes)) :
    (d.withBlocks extra).pageSize = d.pageSize := rfl

/-- The blocks up to the constants. -/
def frontBlocks (d : ImageDraft) : List DraftBlock :=
  [⟨Block.metaclasses, true, d.metaclassPayload⟩,
    ⟨Block.functionSets, true, d.functionSetPayload⟩] ++
      (d.pool codePool d.code.toList ++ d.pool constantPool d.constants.toList)

theorem exists_blocks_eq (hconstants : d.constants.isEmpty = false) :
    ∃ more, d.blocks = d.frontBlocks ++ more := by
  rw [blocks, hconstants, if_neg Bool.false_ne_true]
  simp only [List.append_assoc, frontBlocks]
  exact ⟨_, rfl⟩

theorem wellFormed_of_mem_frontBlocks (hd : d.Sized) (hconstants : d.constants.isEmpty = false) :
    ∀ b ∈ d.frontBlocks, b.Fits ∧ b.tag ≠ Block.eof := by
  intro b hb
  -- The front is the same whatever blocks are added as they are.
  obtain ⟨more, hmore⟩ := exists_blocks_eq (d := d.withBlocks #[]) hconstants
  have htag := tag_mem_contents (d := d.withBlocks #[]) rfl
    (hmore ▸ List.mem_append_left more hb : b ∈ (d.withBlocks #[]).blocks)
  obtain ⟨more', hmore'⟩ := exists_blocks_eq hconstants
  exact ⟨DraftBlock.fits_of_mem_contents htag
    (hd.blocks b (hmore' ▸ List.mem_append_left more' hb)),
      (Block.wellFormed_of_mem_contents _ htag).2⟩

end ImageDraft

namespace Loader

variable {d : ImageDraft} {settings : HeapSettings}

/-- The code is taken in, if there is any, and the constants are left to be defined. -/
theorem exists_adds_code {l : Loader} {source : Array UInt8} (hl : l.pools = .new .inMemory source)
    (hd : d.Sized) (hsize : 0 < d.pageSize.toNat) :
    ∃ ps p, Adds (d.pool codePool d.code.toList) l { l with pools := ps } ∧
      l.pools.Replaced ps codePool p := by
  have hnew : l.pools.isDefined codePool = false := by
    rw [hl]
    rfl
  have hpool : l.pools.get? codePool = some (.memory (.new codePool)) := by
    rw [hl]
    rfl
  by_cases hcode : d.code.toList = []
  · -- The pool has no pages.
    have hpages : d.pagesOf [] = [] := by
      rw [ImageDraft.pagesOf, List.length_nil, Nat.zero_add, Nat.div_eq_of_lt (by omega)]
      rfl
    have hzero : d.pageSize ≠ 0 := fun hzero => by
      rw [hzero] at hsize
      exact absurd hsize (Nat.lt_irrefl 0)
    obtain ⟨ps, hadds, hps⟩ := adds_poolDefinition hpool hnew hzero []
    rw [hcode, ImageDraft.pool, hpages]
    exact ⟨ps, _, hadds, hps⟩
  · obtain ⟨ps, p, hadds, hps, -⟩ := adds_pool hpool hnew hsize hcode hd.pools.1
      fun b hb => hd.blocks b (by simp [ImageDraft.blocks, hb])
    exact ⟨ps, p, hadds, hps⟩

/-- Once the blocks up to the constants have been taken in, these are there. -/
theorem serves_of_frontBlocks {l : Loader} {source : Array UInt8} {place : Nat} (hd : d.Sized)
    (hsize : 0 < d.pageSize.toNat) (hconstants : d.constants.isEmpty = false)
    (hok : (DraftBlock.placed place d.frontBlocks).foldlM block
      { pools := .new .inMemory source, heap := .new settings } = .ok l) :
    Serves l.pools d constantPool ∧ l.pools.isDefined constantPool = true := by
  obtain ⟨place', hplaced⟩ := DraftBlock.exists_placed_append
    [⟨Block.metaclasses, true, d.metaclassPayload⟩,
      ⟨Block.functionSets, true, d.functionSetPayload⟩]
    (d.pool codePool d.code.toList ++ d.pool constantPool d.constants.toList) place
  rw [ImageDraft.frontBlocks, hplaced, List.foldlM_append] at hok
  obtain ⟨l₁, hl₁, hok⟩ := Except.bind_eq_ok.1 hok
  -- The tables leave the pools as they are.
  have hpools : l₁.pools = .new .inMemory source := by
    have htags : ∀ tag ∈ [Block.metaclasses, Block.functionSets],
        tag ≠ Block.poolDefinition ∧ tag ≠ Block.poolPage := by decide +kernel
    obtain ⟨hm, hm'⟩ := htags Block.metaclasses (by simp)
    obtain ⟨hf, hf'⟩ := htags Block.functionSets (by simp)
    rw [DraftBlock.placed, List.foldlM_cons] at hl₁
    obtain ⟨l₀, hl₀, hl₁⟩ := Except.bind_eq_ok.1 hl₁
    rw [DraftBlock.placed, List.foldlM_cons] at hl₁
    obtain ⟨l₀', hl₀', hl₁⟩ := Except.bind_eq_ok.1 hl₁
    obtain rfl := Except.ok.inj hl₁
    rw [pools_of_block hf hf' hl₀', pools_of_block hm hm' hl₀]
  obtain ⟨ps, p, hcode, hps⟩ := exists_adds_code hpools hd hsize
  have hconstantPool : ps.get? constantPool = some (.memory (.new constantPool)) := by
    rw [hps.others constantPool Pools.codePool_ne, hpools]
    rfl
  have hnew : ps.isDefined constantPool = false := by
    rw [Bool.eq_false_iff]
    intro hdefined
    have hold := ((hps.defined constantPool).1 hdefined).resolve_left Pools.codePool_ne
    rw [hpools] at hold
    cases hold
  have hnil : d.constants.toList ≠ [] := by simpa using hconstants
  obtain ⟨ps', p', hadds, hps', hp'⟩ := adds_pool (l := { l₁ with pools := ps }) hconstantPool
    hnew hsize hnil hd.pools.2 fun b hb => hd.blocks b (by simp [ImageDraft.blocks, hconstants, hb])
  obtain rfl := Except.ok.inj ((hcode.append hadds place').symm.trans hok)
  exact ⟨⟨p', hps'.same, hp'⟩, hps'.isDefined⟩

end Loader

namespace Constant

variable {c : Constant} {ps qs : Pools} {image : Array UInt8} {ofs : UInt32}

/-- Pools with the same pages have the same constants. -/
theorem isReadAt_iff_of_mirrors (hps : ps.Mirrors image qs) :
    c.IsReadAt ps ofs ↔ c.IsReadAt qs ofs := by
  have hboth := Pools.mirrors_iff_both.1 hps
  have hmirrors := Pool.isSimulation_mirrors image
  cases c with
  | string s => exact (hboth.readString hmirrors ofs).1.eq_ok_iff
  | list vs => exact (hboth.readList hmirrors ofs).1.eq_ok_iff

end Constant

namespace Image

variable {settings : HeapSettings} {image : Image} {pools : Pools} {heap : Heap}

/-- What stands on one page among the constants of a draft is found at its offset. -/
theorem exists_slice_of_load {d : ImageDraft} {front chunk back : Bytes} (hd : d.Sized)
    (hsize : 0 < d.pageSize.toNat) (hbytes : d.poolBytes constantPool = front ++ chunk ++ back)
    (hchunk : chunk ≠ [])
    (hpage : front.length % d.pageSize.toNat + chunk.length ≤ d.pageSize.toNat)
    (hload : load d.encode .inMemory settings = .ok (image, pools, heap)) :
    ∃ s, (pools.constant.slice (.ofNat front.length)).1 = .ok s ∧ chunk <+: s.toBytes := by
  have hconstants : d.constants.isEmpty = false := by
    refine Bool.eq_false_iff.2 fun hempty => hchunk ?_
    rw [ImageDraft.poolBytes, if_neg Pools.codePool_ne, Array.isEmpty_iff.1 hempty] at hbytes
    exact (List.append_eq_nil_iff.1 (List.append_eq_nil_iff.1 hbytes.symm).1).2
  have hfront : (UInt32.ofNat front.length).toNat = front.length := by
    have hlength : (d.poolBytes constantPool).length < 2 ^ 32 := hd.pools.2
    rw [hbytes, List.length_append, List.length_append] at hlength
    exact UInt32.toNat_ofNat_of_lt' (by change _ < 2 ^ 32; omega)
  obtain ⟨more, hmore⟩ := ImageDraft.exists_blocks_eq hconstants
  obtain ⟨l, l', rest, hl, hl', rfl⟩ := exists_foldlM_of_load hmore
    (ImageDraft.wellFormed_of_mem_frontBlocks hd hconstants) hload
  obtain ⟨⟨p, hp, hgives, hpageSize, -⟩, hdefined⟩ :=
    Loader.serves_of_frontBlocks hd hsize hconstants hl
  obtain rfl : l.pools.constant = p := Option.some.inj hp
  rw [hbytes] at hgives
  obtain ⟨s, hs, hprefix⟩ := hgives.slice hfront hchunk (hpageSize ▸ hpage)
  refine ⟨s, ?_, hprefix⟩
  -- Whatever blocks follow, the slice stays.
  have hmemory : l.pools.constant.isPaged = false :=
    (Loader.all_foldlM (Pool.survives_isPaged false) ⟨rfl, rfl⟩ hl).constant
  have hoffers : l.pools.Offers (.ofNat front.length) s := by
    refine ⟨hdefined, ?_⟩
    cases hpool : l.pools.constant with
    | memory q =>
      rw [hpool] at hs
      exact ⟨q, rfl, congrArg Prod.fst hs⟩
    | paged q =>
      rw [hpool] at hmemory
      cases hmemory
  obtain ⟨-, q, hq, hs'⟩ := Loader.foldlM_keeps Loader.offers_block hoffers hl'
  rw [hq]
  exact hs'

variable {n : UInt32} {before after : List ImageDraft.Call} {extra : Array (Bytes × Bool × Bytes)}
  {c : Constant}

/-- The bytes of a constant are where the call has put them. -/
theorem exists_slice_of_load_run
    (hd : ((ImageDraft.run n (before ++ c.call :: after)).withBlocks extra).Sized)
    (hpage : c.bytes.length ≤ (ImageDraft.run n before).pageSize.toNat)
    (hload : load ((ImageDraft.run n (before ++ c.call :: after)).withBlocks extra).encode .inMemory
      settings = .ok (image, pools, heap)) :
    ∃ ofs s, ((ImageDraft.run n before).perform c.call).1 = some ofs ∧
      (pools.constant.slice ofs).1 = .ok s ∧ c.bytes <+: s.toBytes := by
  have hsize := ImageDraft.pageSize_run_pos n (before ++ c.call :: after)
  obtain ⟨front, back, hbytes, hofs, hplace⟩ :=
    @ImageDraft.exists_poolBytes_run _ _ _ n before after c.chunk?_call
  replace hplace := hplace hpage
  rw [ImageDraft.pageSize_run n before (before ++ c.call :: after)] at hplace
  obtain ⟨s, hs, hprefix⟩ := exists_slice_of_load hd (by simpa using hsize) (by simpa using hbytes)
    c.bytes_ne_nil (by simpa using hplace) hload
  exact ⟨_, s, hofs, hs, hprefix⟩

/-- **Constants are read back.** Whatever is put into a draft before and after a constant that is
    not longer than a page, the constant is read at the offset that the call gave back, once the
    image has been loaded, as long as its number of bytes or elements can be written in two bytes.
    If it cannot, something else is read. -/
theorem isReadAt_iff_of_load {mode : PoolMode} (hc : c.IsPortable)
    (hd : ((ImageDraft.run n (before ++ c.call :: after)).withBlocks extra).Sized)
    (hpage : c.bytes.length ≤ (ImageDraft.run n before).pageSize.toNat)
    (hload : load ((ImageDraft.run n (before ++ c.call :: after)).withBlocks extra).encode mode
      settings = .ok (image, pools, heap)) :
    ∃ ofs, ((ImageDraft.run n before).perform c.call).1 = some ofs ∧
      (c.IsReadAt pools ofs ↔ c.count ≤ 65535) := by
  cases mode with
  | inMemory =>
    obtain ⟨ofs, s, hofs, hs, hbytes⟩ := exists_slice_of_load_run hd hpage hload
    exact ⟨ofs, hofs, Constant.isReadAt_iff hs hbytes hc⟩
  | paged maxResident =>
    -- With all pages in memory the same is read.
    obtain ⟨⟨image', pools', heap'⟩, hload', -, hpools, -⟩ := exists_load_inMemory hload
    obtain ⟨ofs, s, hofs, hs, hbytes⟩ := exists_slice_of_load_run hd hpage hload'
    exact ⟨ofs, hofs, (Constant.isReadAt_iff_of_mirrors hpools).trans
      (Constant.isReadAt_iff hs hbytes hc)⟩

/-- The calls for the metaclass and the code of a small image. -/
def leadingCalls : List ImageDraft.Call :=
  [.metaclass "tads-object/030000" [], .code [0, 0, 0, 0, 0, 0, 0, 0, 0, 0, 0x30]]

/-- The calls for its object and its entry point. -/
def closingCalls : List ImageDraft.Call := [.object 1 0 (ObjectData.program [] []), .entryPoint 0]

theorem isReadAt_iff_of_load_leaf : ∃ image pools heap ofs,
    load ((ImageDraft.run 16 (leadingCalls ++ .string "tea" :: .string "leaf" ::
      .list [.int 7] :: closingCalls)).withBlocks #[]).encode .inMemory {} =
        .ok (image, pools, heap) ∧
      ((ImageDraft.run 16 (leadingCalls ++ [.string "tea"])).perform (.string "leaf")).1 =
        some ofs ∧
      (pools.readString ofs).1 = .ok "leaf" := by
  have hd : ((ImageDraft.run 16 ((leadingCalls ++ [.string "tea"]) ++
      (Constant.string "leaf").call :: .list [.int 7] :: closingCalls)).withBlocks #[]).Sized := by
    constructor <;> decide +kernel
  have hok : (load ((ImageDraft.run 16 ((leadingCalls ++ [.string "tea"]) ++
      (Constant.string "leaf").call :: .list [.int 7] :: closingCalls)).withBlocks #[]).encode
        .inMemory {}).isOk = true := by decide +kernel
  cases hload : load ((ImageDraft.run 16 ((leadingCalls ++ [.string "tea"]) ++
      (Constant.string "leaf").call :: .list [.int 7] :: closingCalls)).withBlocks #[]).encode
        .inMemory {} with
  | error e =>
    rw [hload] at hok
    cases hok
  | ok r =>
    obtain ⟨image, pools, heap⟩ := r
    obtain ⟨ofs, hofs, hread⟩ := @isReadAt_iff_of_load _ _ _ _ _ _ _ _ (.string "leaf") _ trivial
      hd (by decide +kernel) hload
    exact ⟨image, pools, heap, ofs, hload, hofs, hread.2 (by decide +kernel)⟩

/-- A text whose number of bytes cannot be written in two. -/
def longText : String := .ofList (List.replicate 65536 'a')

theorem length_ofText_replicate (n : Nat) :
    (Bytes.ofText (.ofList (List.replicate n 'a'))).length = n := by
  have hchar : String.utf8EncodeChar 'a' = [97] := by decide
  rw [Bytes.ofText_ofList]
  induction n with
  | zero => rfl
  | succ n ih =>
    rw [List.replicate_succ, List.flatMap_cons, List.length_append, ih, hchar, Nat.add_comm]
    rfl

theorem length_longText : (Bytes.ofText longText).length = 65536 := length_ofText_replicate 65536

/-- The calls for an image with the long text. -/
def longCalls : List ImageDraft.Call :=
  leadingCalls ++ (Constant.string longText).call :: closingCalls

theorem constants_longCalls : (ImageDraft.run 131072 longCalls).constants.toList =
    (Constant.string longText).bytes := by
  have hconstants (s : String) : (ImageDraft.run 131072 (leadingCalls ++
      (Constant.string s).call :: closingCalls)).constants.toList = (Constant.string s).bytes := by
    change (ImageDraft.place #[] 131072 _).2.toList = _
    rw [ImageDraft.place]
    simp [Constant.bytes]
  exact hconstants longText

theorem fits_longCalls : (ImageDraft.run 131072 longCalls).Fits where
  version := rfl
  names := by decide +kernel
  values := by decide +kernel
  counts := by decide +kernel
  functionSets := by decide +kernel
  entries := by decide +kernel
  pools := by
    refine ⟨by decide +kernel, ?_⟩
    rw [← Array.length_toList, constants_longCalls, Constant.bytes, List.length_append,
      length_longText]
    decide
  blocks := ImageDraft.forall_blocks_lt (ImageDraft.extra_run _ _) (by decide +kernel) rfl
    (by decide +kernel)

theorem complete_longCalls : (ImageDraft.run 131072 longCalls).Complete
    [(1, ⟨0, .program [] .empty⟩)] {} where
  nodup := by decide +kernel
  numbers := by decide +kernel
  supers := by decide +kernel
  code := by decide +kernel
  entry := ⟨0, by decide +kernel⟩

theorem means_longCalls : ImageDraft.Means longCalls ⟨#[⟨.program, 30000, []⟩]⟩ ⟨#[]⟩
    [(1, ⟨0, .program [] .empty⟩)] where
  metaclasses := .cons ⟨⟨"tads-object", by decide +kernel, by decide +kernel⟩, by decide, rfl⟩ .nil
  functionSets := .nil
  objects := .cons ⟨rfl, rfl, ⟨_, rfl, rfl⟩⟩ .nil

/-- A text of 65536 bytes that fits on its page is put into an image and is read back as the empty
    text. -/
theorem readString_longText : ∃ image pools heap ofs,
    (Constant.string longText).bytes.length ≤ (ImageDraft.run 131072 leadingCalls).pageSize.toNat ∧
    load (ImageDraft.run 131072 longCalls).encode .inMemory {} = .ok (image, pools, heap) ∧
    ((ImageDraft.run 131072 leadingCalls).perform (.string longText)).1 = some ofs ∧
    (pools.readString ofs).1 = .ok "" ∧ longText ≠ "" := by
  obtain ⟨l, hl, -, hload⟩ := means_longCalls.exists_load_encode fits_longCalls complete_longCalls
  obtain ⟨ofs, -, hfinish⟩ := hl.finish_eq_ok complete_longCalls (List.cons_ne_nil _ _)
  rw [hfinish] at hload
  have hd : (ImageDraft.run 131072 longCalls).Sized := ⟨fits_longCalls.pools, fits_longCalls.blocks⟩
  rw [← ImageDraft.withBlocks_run] at hd
  have hload' := hload
  rw [← ImageDraft.withBlocks_run] at hload'
  have hsize : (Constant.string longText).bytes.length ≤
      (ImageDraft.run 131072 leadingCalls).pageSize.toNat := by
    rw [Constant.bytes, List.length_append, length_longText]
    decide
  obtain ⟨ofs, s, hofs, hs, hprefix⟩ := @exists_slice_of_load_run _ _ _ _ 131072 leadingCalls
    closingCalls #[] (.string longText) hd hsize hload'
  -- The first two bytes say the remainder, which is zero.
  have hempty : (Constant.string "").bytes <+: (Constant.string longText).bytes := by
    have hcount : (Constant.string "").bytes = Bytes.u16 (.ofNat 65536) := by decide +kernel
    rw [hcount, Constant.bytes, length_longText]
    exact List.prefix_append _ _
  refine ⟨_, _, _, ofs, hsize, hload, hofs, ?_, fun htext => ?_⟩
  · exact (Constant.isReadAt_iff (c := .string "") hs (hempty.trans hprefix) trivial).2 (by decide)
  · have hlength := length_longText
    rw [htext] at hlength
    exact absurd hlength (by decide)

end Image

end StoryMachine
