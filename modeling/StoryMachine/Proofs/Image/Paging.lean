import StoryMachine.Code.Assembler
import StoryMachine.Image.Draft
import StoryMachine.Machine.Basic
import StoryMachine.Proofs.Bytes
import StoryMachine.Proofs.Heap.Slots
import StoryMachine.Proofs.Image.Parts

/-!
# Images whose pages are read on demand

An image is accepted with pools that are read on demand if it is accepted with pools
in memory, as long as none of its pages has a mask. What it holds besides is the same,
and so are the answers of the pools.

* `Block.Within`, `Blocks.within_of_mem`: where the payload of a block is;
* `Loader.Mirrors`: images as far as they have been loaded;
* `Loader.Mirrors.block`: what one block adds;
* `Machine.load_paged_agrees`: whole images.
-/

namespace StoryMachine

/-! ## Blocks -/

/-- All of the payload of a block is in the image. -/
structure Block.Within (b : Block) (image : Bytes) : Prop where
  /-- The image does not break off in it. -/
  whole : b.offset + b.size.toNat ≤ image.length
  /-- The payload is what the image has in that place. -/
  payload : b.payload = (image.drop b.offset).take b.size.toNat

theorem Block.Within.isComplete {b : Block} {image : Bytes} (hb : b.Within image) :
    b.isComplete = true := by
  have hwhole := hb.whole
  rw [Block.isComplete, beq_iff_eq, hb.payload, List.length_take, List.length_drop]
  omega

theorem Block.takes_header : Block.header.Takes Block.headerSize :=
  (Reader.takes_bytes 4).bind fun _ => Reader.takes_u32.bind fun _ =>
    Reader.takes_u16.bind fun _ => .pure _

theorem Block.offset_of_first? {place : Nat} {bs : Bytes} {b : Block}
    (hb : first? place bs = some b) : b.offset = place + headerSize ∧
      b.payload = (bs.drop headerSize).take b.size.toNat := by
  unfold first? at hb
  split at hb
  · cases hb
  · next hheader =>
    obtain rfl := Option.some.inj hb
    rw [(takes_header _ _ _ hheader).2]
    exact ⟨rfl, rfl⟩

theorem Blocks.ofBytes_nil (place : Nat) : ofBytes place [] = ⟨[], .truncated⟩ := by
  unfold ofBytes
  rfl

/-- Unless the image breaks off, all of each block is there, apart from the one that
    ends it. -/
theorem Blocks.within_of_mem {image bs : Bytes} {place : Nat} {b : Block}
    (hbs : bs = image.drop place) (hend : (ofBytes place bs).ending ≠ .truncated)
    (hb : b ∈ (ofBytes place bs).list) (htag : b.tag ≠ Block.eof) : b.Within image := by
  fun_induction ofBytes place bs with
  | case1 => cases hb
  | case2 place bs b' hfirst length rest heof =>
    rw [List.mem_singleton.1 hb] at htag
    exact absurd heof htag
  | case3 => cases hb
  | case4 place bs b' hfirst length rest hne hnil more ih =>
    obtain ⟨hoffset, hpayload⟩ := Block.offset_of_first? hfirst
    have hrest : rest = image.drop (place + length) := by
      simp only [rest, hbs, List.drop_drop]
    rcases List.mem_cons.1 hb with rfl | hb
    · refine ⟨?_, ?_⟩
      · -- There are blocks after this one, so the image goes on where it ends.
        have hlong : rest ≠ [] := fun hnil => hend (by simp only [more, hnil, ofBytes_nil])
        rw [hrest, Ne, List.drop_eq_nil_iff, not_le] at hlong
        rw [hoffset]
        omega
      · rw [hpayload, hbs, List.drop_drop, hoffset]
    · exact ih hrest hend hb

/-! ## What a block adds -/

/-- The mask of a page. -/
def Block.mask? (b : Block) : Option UInt8 :=
  if b.tag = Block.poolPage then (Loader.pageFields b.payload).map (·.1.2.2) else none

namespace Loader

variable {image : Array UInt8} {bs : Bytes} {l l' : Loader} {b : Block}

/-- All is the same but the pools, and these have the same pages. -/
inductive Mirrors (image : Array UInt8) : Loader → Loader → Prop
  | withPools {l : Loader} {pools : Pools} (hp : l.pools.Mirrors image pools) :
      Mirrors image l (l.withPools pools)

theorem mirrors_iff_both : l.Mirrors image l' ↔ l.Both (Pool.Mirrors image) l' :=
  ⟨fun ⟨hp⟩ => .withPools (Pools.mirrors_iff_both.1 hp),
    fun ⟨hp⟩ => .withPools (Pools.mirrors_iff_both.2 hp)⟩

theorem takes_pageFields : pageFields.Takes pageFieldsSize :=
  Reader.takes_u16.bind fun _ => Reader.takes_u32.bind fun _ => Reader.takes_u8.bind fun _ =>
    .pure _

/-- A page without a mask is left in the image, where it is the page that has been
    read. -/
theorem Both.poolPage {image : Bytes} (hl : l.Both (Pool.Mirrors image.toArray) l')
    (hb : b.Within image)
    (hmask : ∀ fields page, pageFields b.payload = some (fields, page) → fields.2.2 = 0) :
    Alike (Both (Pool.Mirrors image.toArray)) (l.poolPage b) (l'.poolPage b) := by
  obtain @⟨pools, hp⟩ := hl
  unfold Loader.poolPage
  refine .guard (c := b.size.toNat < pageFieldsSize) fun hsize => ?_
  cases hfields : pageFields b.payload with
  | none => exact .error rfl
  | some read =>
    obtain ⟨⟨pool, index, mask⟩, page⟩ := read
    obtain rfl : mask = 0 := hmask _ _ hfields
    have hwhole := hb.whole
    -- The bytes that are left in the image are those that are read.
    have hpage : image.toArray.extract (b.offset + pageFieldsSize)
        (b.offset + pageFieldsSize + (b.size.toNat - pageFieldsSize)) = page.toArray := by
      rw [(takes_pageFields _ _ _ hfields).2, hb.payload, List.drop_take, List.drop_drop]
      simp
    refine (hp.get pool).bind fun p q hpool => ?_
    rw [hpool.isPaged.1, hpool.isPaged.2, hb.isComplete]
    refine (Pools.Both.addPage (fun _ _ hpool => hpool.addPage index ?_ hpage) hp pool).bind
      fun _ _ hp => .ok (.withPools hp)
    rw [List.size_toArray]
    omega

/-! ## Whole images -/

/-- What one block adds. -/
theorem Mirrors.block {image : Bytes} (hl : l.Mirrors image.toArray l')
    (hb : b.tag ≠ Block.eof → b.Within image) (hmask : ∀ mask ∈ b.mask?, mask = 0) :
    Alike (Mirrors image.toArray) (l.block b) (l'.block b) := by
  have hboth := mirrors_iff_both.1 hl
  refine (hboth.block (fun p q _ _ hpool => hpool.define _ _) rfl fun htag => ?_).mono
    fun _ _ => mirrors_iff_both.2
  have heof : b.tag ≠ Block.eof := htag ▸ by decide +kernel
  refine hboth.poolPage (hb heof) fun fields page hfields => hmask _ ?_
  rw [Block.mask?, if_pos htag, hfields]
  rfl

/-- The induction is on the blocks. -/
theorem Mirrors.foldlM {image : Bytes} {blocks : List Block} (hl : l.Mirrors image.toArray l')
    (hblocks : ∀ b ∈ blocks, b.tag ≠ Block.eof → b.Within image)
    (hmask : ∀ b ∈ blocks, ∀ mask ∈ b.mask?, mask = 0) :
    Alike (Mirrors image.toArray) (blocks.foldlM Loader.block l)
      (blocks.foldlM Loader.block l') := by
  induction blocks generalizing l l' with
  | nil => exact .ok hl
  | cons b blocks ih =>
    obtain ⟨hb, hblocks⟩ := List.forall_mem_cons.1 hblocks
    obtain ⟨hmask₁, hmask⟩ := List.forall_mem_cons.1 hmask
    exact (hl.block hb hmask₁).bind fun _ _ hl => ih hl hblocks hmask

/-- The checks of the whole come out the same. -/
theorem Mirrors.finish (hl : l.Mirrors image l') : Alike (· = ·) l.finish l'.finish := by
  rw [(mirrors_iff_both.1 hl).finish fun _ _ hpool => hpool.loadedPages]
  exact .refl _

end Loader

namespace Image

variable {bs rest : Bytes} {version : UInt16}

/-- No page of the image has a mask. -/
def Unmasked (bs : Bytes) : Prop :=
  ∀ b ∈ (Blocks.ofBytes (signature.length + 2) (bs.drop (signature.length + 2))).list,
    ∀ mask ∈ b.mask?, mask = 0

instance (bs : Bytes) : Decidable (Unmasked bs) := inferInstanceAs (Decidable (∀ _ ∈ _, ∀ _ ∈ _, _))

/-- What has been loaded is the same but the pools, and these have the same pages. -/
def Mirrors (bs : Bytes) (r r' : Image × Pools × Heap) : Prop :=
  r.1 = r'.1 ∧ r.2.1.Mirrors bs.toArray r'.2.1 ∧ r.2.2 = r'.2.2

/-- An image that breaks off is not accepted. -/
theorem load_of_truncated (hend : (Blocks.ofBytes (signature.length + 2)
      (bs.drop (signature.length + 2))).ending = .truncated) (mode : PoolMode)
    (settings : HeapSettings) : ∃ e, load bs mode settings = .error e := by
  cases hload : load bs mode settings with
  | error e => exact ⟨e, rfl⟩
  | ok r =>
    obtain ⟨l, hl⟩ := exists_loadedFrom hload
    rw [hl.blocks] at hend
    cases hend

/-- An image that breaks off is not accepted in either way. What any other image holds
    is the same in both. -/
theorem load_paged (hmask : Unmasked bs) (maxResident : Nat) (settings : HeapSettings) :
    (∃ e e', load bs (.paged maxResident) settings = .error e ∧
      load bs .inMemory settings = .error e') ∨
      Alike (Mirrors bs) (load bs (.paged maxResident) settings) (load bs .inMemory settings) := by
  cases hstart : start bs with
  | error e =>
    have herror (mode : PoolMode) : load bs mode settings = .error e := by
      rw [load, hstart]
      rfl
    exact .inl ⟨e, e, herror _, herror _⟩
  | ok r =>
    obtain ⟨version, rest⟩ := r
    obtain rfl := eq_drop_of_start hstart
    by_cases hend : (Blocks.ofBytes (signature.length + 2)
        (bs.drop (signature.length + 2))).ending = .truncated
    · obtain ⟨e, he⟩ := load_of_truncated hend (.paged maxResident) settings
      obtain ⟨e', he'⟩ := load_of_truncated hend .inMemory settings
      exact .inl ⟨e, e', he, he'⟩
    · right
      unfold load
      rw [hstart]
      have hl : Loader.Mirrors bs.toArray
          { pools := .new (.paged maxResident) bs.toArray, heap := .new settings }
          { pools := .new .inMemory bs.toArray, heap := .new settings } :=
        .withPools (Pools.mirrors_new bs.toArray maxResident)
      refine (hl.foldlM (fun b hb htag => Blocks.within_of_mem rfl hend hb htag) hmask).bind
        fun l l' hl => ?_
      refine .bindSame fun _ => hl.finish.bind ?_
      rintro tables _ rfl
      obtain ⟨hp⟩ := hl
      exact .ok ⟨rfl, hp, rfl⟩

/-- The method header at the entry point is read from the same bytes. -/
theorem checkEntry_agree {image : Array UInt8} {ps qs : Pools} (hp : ps.Mirrors image qs)
    (entry : EntryPoint) : Pools.Agree image (checkEntry ps entry) (checkEntry qs entry) :=
  have hcode := hp.readCode entry.codeOfs MethodHeader.size
  ⟨hcode.1.map fun _ _ _ => rfl, hcode.2⟩

end Image

namespace Machine

theorem problem?_paged {settings : MachineSettings} {maxResident : Nat} (hkept : 1 ≤ maxResident) :
    { settings with mode := .paged maxResident }.problem? =
      { settings with mode := .inMemory }.problem? := by
  obtain ⟨n, rfl⟩ := Nat.exists_eq_add_of_le' hkept
  rfl

/-- All is the same but the pools, and these have the same pages. -/
def Mirrors (image : Array UInt8) (m m' : Machine) : Prop :=
  m' = { m with pools := m'.pools } ∧ m.pools.Mirrors image m'.pools

theorem load_mirrors {bs : Bytes} {settings : MachineSettings} {host : Host} {maxResident : Nat}
    (hkept : 1 ≤ maxResident) (hmask : Image.Unmasked bs) :
    (∃ e e', load bs { settings with mode := .paged maxResident } host = .error e ∧
      load bs { settings with mode := .inMemory } host = .error e') ∨
      Alike (Mirrors bs.toArray) (load bs { settings with mode := .paged maxResident } host)
        (load bs { settings with mode := .inMemory } host) := by
  unfold load
  rw [problem?_paged hkept]
  cases { settings with mode := .inMemory }.problem? with
  | some why => exact .inr (.error rfl)
  | none =>
    dsimp only
    rcases Image.load_paged hmask maxResident settings.heap with ⟨e, e', he, he'⟩ | hload
    · rw [he, he']
      exact .inl ⟨e, e', rfl, rfl⟩
    · refine .inr (hload.bind ?_)
      rintro ⟨image, pools, heap⟩ ⟨_, pools', _⟩ ⟨rfl, hp, rfl⟩
      have hentry := Image.checkEntry_agree hp image.entry
      dsimp only
      generalize Image.checkEntry pools image.entry = r at hentry
      generalize Image.checkEntry pools' image.entry = r' at hentry
      exact hentry.1.bind fun _ _ _ => .ok ⟨rfl, hentry.2⟩

/-- An image without masks is accepted if it is accepted with pools in memory, and only
    then. The machines are the same but for the pools, and these answer every sequence of
    calls alike, however few pages are kept. -/
theorem load_paged_agrees {bs : Bytes} {settings : MachineSettings} {host : Host} {maxResident : Nat}
    (hkept : 1 ≤ maxResident) (hmask : Image.Unmasked bs) :
    (load bs { settings with mode := .paged maxResident } host).isOk =
        (load bs { settings with mode := .inMemory } host).isOk ∧
      ∀ m m', load bs { settings with mode := .paged maxResident } host = .ok m →
        load bs { settings with mode := .inMemory } host = .ok m' →
          m' = { m with pools := m'.pools } ∧
            ∀ calls, m.pools.answers calls = m'.pools.answers calls := by
  rcases load_mirrors hkept hmask with ⟨e, e', he, he'⟩ | hload
  · rw [he, he']
    refine ⟨rfl, fun m m' hm _ => ?_⟩
    cases hm
  · refine ⟨hload.isOk_eq, fun m m' hm hm' => ?_⟩
    rw [hm, hm'] at hload
    cases hload with
    | ok hr => exact ⟨hr.1, hr.2.answers_eq⟩

/-- An image with three pages, of which two are for constants. -/
def threePages : Bytes :=
  ImageDraft.encode {
    pageSize := 16
    metaclasses := #[("tads-object", [])]
    code := ([Instr.retNil].foldl Assembler.emit (Assembler.method {})).finish.toArray
    constants := (3 :: 0 :: Bytes.ofText "hey" ++ List.replicate 13 0).toArray
    objects := #[⟨1, 0, ObjectData.program [] []⟩]
    entry? := some 0 }

theorem load_paged_agrees_threePages : ∃ m m', load threePages { mode := .paged 1 } {} = .ok m ∧
    load threePages { mode := .inMemory } {} = .ok m' ∧
      ∀ calls, m.pools.answers calls = m'.pools.answers calls := by
  have hmask : Image.Unmasked threePages := by decide +kernel
  have hok : (load threePages { mode := .inMemory } {}).isOk = true := by decide +kernel
  obtain ⟨hsame, hcalls⟩ := @load_paged_agrees threePages {} {} 1 (by decide) hmask
  have hok' := hsame.trans hok
  cases hm : load threePages { mode := .paged 1 } {} with
  | error e =>
    rw [hm] at hok'
    cases hok'
  | ok m =>
    cases hm' : load threePages { mode := .inMemory } {} with
    | error e =>
      rw [hm'] at hok
      cases hok
    | ok m' => exact ⟨m, m', rfl, rfl, (hcalls m m' hm hm').2⟩

end Machine

end StoryMachine
