import StoryMachine.Proofs.Image.Adds
import StoryMachine.Proofs.Image.Calls

/-!
# Drafts that are loaded

What has been put into a draft by calls is what a machine that is loaded from the bytes of the
draft has, for every page size and every mask.

* `ImageDraft.Fits`, `ImageDraft.Complete`: a draft that can be written and loaded;
* `Loader.Received`, `Loader.exists_adds_blocks`: what the blocks of a draft add;
* `Image.exists_load_encode`: the checks that are left when the blocks have been taken in;
* `ImageDraft.Means`: what calls mean to a machine;
* `Image.Written`, `Image.load_run`: an image that has what calls have given;
* `Image.load_run_of_no_objects`: an image needs an object.
-/

namespace StoryMachine

/-! ## Drafts that can be loaded -/

namespace ImageDraft

/-- What a draft holds can be written in its format. -/
structure Fits (d : ImageDraft) : Prop where
  /-- The format version is the one that can be read. -/
  version : d.version = Image.formatVersion
  /-- The lengths of names can be written in one byte. -/
  names : (∀ p ∈ d.metaclasses, (Bytes.ofText p.1).length ≤ 255) ∧
    (∀ dep ∈ d.functionSets, (Bytes.ofText dep).length ≤ 255) ∧
    ∀ p ∈ d.symbols, (Bytes.ofText p.1).length ≤ 255
  /-- Exported values have a portable form. -/
  values : ∀ p ∈ d.symbols, p.2.portable?.isSome = true
  /-- The numbers of entries can be written in two bytes. -/
  counts : d.metaclasses.size ≤ 65535 ∧ d.symbols.size ≤ 65535 ∧
    ∀ group ∈ d.groups, group.length ≤ 65535
  /-- There is room for the function sets. -/
  functionSets : d.functionSets.size ≤ 256
  /-- The lengths of entries of the table of metaclasses can be written in two bytes. -/
  entries : ∀ p ∈ d.metaclasses, (entryBytes p.1 p.2).length ≤ 65535
  /-- Offsets of both pools can be written in four bytes. -/
  pools : d.code.size < 2 ^ 32 ∧ d.constants.size < 2 ^ 32
  /-- The sizes of blocks can be written in four bytes. -/
  blocks : ∀ b ∈ d.blocks, b.payload.length < 2 ^ 32

/-- The objects of a draft can be put into a table within the limits, and the draft has a program
    to start with. -/
structure Complete (d : ImageDraft) (objects : List (UInt32 × Object)) (settings : HeapSettings) :
    Prop where
  /-- No two objects have one number. -/
  nodup : (d.objects.toList.map DraftObject.id).Nodup
  /-- The numbers are within the limits. -/
  numbers : ∀ o ∈ d.objects, 1 ≤ o.id.toNat ∧ o.id.toNat < settings.maxObjects.toNat
  /-- Every superclass is one of the objects. -/
  supers : ∀ o ∈ objects, ∀ s ∈ o.2.body.supers, ∃ o' ∈ objects, s = .ofImage o'.1
  /-- There is code. -/
  code : d.code.isEmpty = false
  /-- The method header at the entry point is in the code, on one page. -/
  entry : ∃ ofs, d.entry? = some ofs ∧ ofs.toNat + MethodHeader.size ≤ d.code.size ∧
    ofs.toNat % d.pageSize.toNat + MethodHeader.size ≤ d.pageSize.toNat

theorem ne_nil_of_mem_groups {d : ImageDraft} {group : List DraftObject}
    (hgroup : group ∈ d.groups) : group ≠ [] := List.ne_nil_of_mem_splitBy hgroup

theorem flatten_groups (d : ImageDraft) : d.groups.flatten = d.objects.toList :=
  List.flatten_splitBy _ _

/-- The objects of a group have one metaclass. -/
theorem metaclass_of_mem_groups {d : ImageDraft} {group : List DraftObject}
    (hgroup : group ∈ d.groups) : ∀ r ∈ group, ∀ r' ∈ group, r.metaclass = r'.metaclass := by
  have hchain : group.IsChain fun r r' => r.metaclass = r'.metaclass :=
    (List.isChain_of_mem_splitBy hgroup).imp fun _ _ h => eq_of_beq h
  have htrans : IsTrans DraftObject fun r r' => r.metaclass = r'.metaclass :=
    ⟨fun _ _ _ h h' => h.trans h'⟩
  have hsymm : Std.Symm fun r r' : DraftObject => r.metaclass = r'.metaclass :=
    ⟨fun _ _ h => h.symm⟩
  exact (List.isChain_iff_pairwise.1 hchain).forall_of_forall fun _ _ => rfl

/-- The blocks of a draft to which no block has been added as it is. -/
theorem blocks_eq {d : ImageDraft} {ofs : UInt32} (hextra : d.extra = #[])
    (hofs : d.entry? = some ofs) : d.blocks =
      [⟨Block.metaclasses, true, d.metaclassPayload⟩] ++
      [⟨Block.functionSets, true, d.functionSetPayload⟩] ++
      (d.pool codePool d.code.toList ++
        if d.constants.isEmpty then [] else d.pool constantPool d.constants.toList) ++
      runsOf d.groups ++
      (if d.symbols.isEmpty then [] else [⟨Block.symbols, false, d.symbolPayload⟩]) ++
      [⟨Block.entryPoint, true, entryPayload ofs⟩] := by
  rw [blocks, hextra, hofs]
  simp

end ImageDraft

/-! ## What the blocks of a draft add -/

namespace Loader

variable {l : Loader} {d : ImageDraft} {settings : HeapSettings}

/-- A pool gives the bytes that the draft has for it. -/
def Serves (ps : Pools) (d : ImageDraft) (pool : UInt16) : Prop :=
  ∃ p, ps.get? pool = some p ∧ p.Gives (d.poolBytes pool) ∧
    p.geometry.pageSize = d.pageSize ∧ p.loadedPages ≠ 0

/-- A pool that gives its bytes is put beside others that do. -/
theorem serves_of_replaced {ps ps' : Pools} {pool : UInt16} {p : Pool}
    (hps : ps.Replaced ps' pool p)
    (hserves : ∀ other, ps.isDefined other = true → Serves ps d other)
    (hp : p.Gives (d.poolBytes pool) ∧ p.geometry.pageSize = d.pageSize ∧ p.loadedPages ≠ 0) :
    ∀ other, ps'.isDefined other = true → Serves ps' d other := by
  intro other hother
  by_cases hne : other = pool
  · subst hne
    exact ⟨p, hps.same, hp⟩
  · obtain ⟨q, hq, hrest⟩ := hserves other (((hps.defined other).1 hother).resolve_left hne)
    exact ⟨q, (hps.others other hne).trans hq, hrest⟩

/-- Both pools are taken in, the pool of constants only if there are any. -/
theorem adds_pools (source : Array UInt8) (hl : l.pools = .new .inMemory source) (hfits : d.Fits)
    (hsize : 0 < d.pageSize.toNat) (hcode : d.code.isEmpty = false) :
    ∃ ps', Adds (d.pool codePool d.code.toList ++
        if d.constants.isEmpty then [] else d.pool constantPool d.constants.toList) l
        { l with pools := ps' } ∧
      (∀ pool, ps'.isDefined pool = true → Serves ps' d pool) ∧
      ps'.isDefined codePool = true ∧
      (d.constants.isEmpty = false → ps'.isDefined constantPool = true) := by
  have hnew (pool : UInt16) : l.pools.isDefined pool = false := by
    rw [hl]
    simp [Pools.isDefined, Pools.new]
  have hcodePool : l.pools.get? codePool = some (.memory (.new codePool)) := by
    rw [hl]
    rfl
  have hcodeNil : d.code.toList ≠ [] := by simpa using hcode
  obtain ⟨ps₁, p₁, hadds₁, hps₁, hp₁⟩ := adds_pool hcodePool (hnew codePool) hsize hcodeNil
    hfits.pools.1 fun b hb => hfits.blocks b (by simp [ImageDraft.blocks, hb])
  have hserves₁ := serves_of_replaced hps₁
    (fun other hother => absurd ((hnew other).symm.trans hother) Bool.false_ne_true) hp₁
  cases hconstants : d.constants.isEmpty with
  | true =>
    rw [if_pos rfl, List.append_nil]
    exact ⟨ps₁, hadds₁, hserves₁, hps₁.isDefined, fun hsome => absurd hsome (by decide)⟩
  | false =>
    -- The pool of constants is still as it was at the start.
    have hconstantPool : ps₁.get? constantPool = some (.memory (.new constantPool)) := by
      rw [hps₁.others constantPool Pools.codePool_ne, hl]
      rfl
    have hnew₁ : ps₁.isDefined constantPool = false := by
      rw [Bool.eq_false_iff]
      intro hdefined
      have hold := ((hps₁.defined constantPool).1 hdefined).resolve_left Pools.codePool_ne
      exact absurd ((hnew constantPool).symm.trans hold) Bool.false_ne_true
    have hconstantsNil : d.constants.toList ≠ [] := by simpa using hconstants
    obtain ⟨ps', p', hadds, hps', hp'⟩ := adds_pool (l := { l with pools := ps₁ }) hconstantPool
      hnew₁ hsize hconstantsNil hfits.pools.2
      fun b hb => hfits.blocks b (by simp [ImageDraft.blocks, hconstants, hb])
    exact ⟨ps', hadds₁.append hadds, serves_of_replaced hps' hserves₁ hp',
      (hps'.defined codePool).2 (.inr hps₁.isDefined), fun _ => hps'.isDefined⟩

/-- The objects are taken in. Their numbers are those of the runs into which they are divided. -/
theorem adds_objects {t : MetaclassTable} {objects : List (UInt32 × Object)}
    (ht : l.metaclasses? = some t) (hheap : l.heap = .new settings) (hnone : l.objects = #[])
    (hfits : d.Fits) (hd : d.Complete objects settings)
    (hobjects : List.Forall₂ (DraftObject.Describes t) d.objects.toList objects) :
    ∃ heap, Adds (ImageDraft.runsOf d.groups) l { l with heap, objects := objects.toArray } ∧
      Stocked settings { l with heap, objects := objects.toArray } := by
  rw [← d.flatten_groups] at hobjects
  have hnodup : (l.objects.toList.map Prod.fst ++ d.groups.flatten.map DraftObject.id).Nodup := by
    rw [hnone, d.flatten_groups]
    exact hd.nodup
  have hnumbers (r : DraftObject) (hr : r ∈ d.groups.flatten) :
      r.id ≠ 0 ∧ r.id.toNat < settings.maxObjects.toNat := by
    rw [d.flatten_groups] at hr
    obtain ⟨hpos, hlt⟩ := hd.numbers r (Array.mem_toList_iff.1 hr)
    refine ⟨fun hzero => ?_, hlt⟩
    rw [hzero] at hpos
    cases hpos
  obtain ⟨heap, hadds, hstocked⟩ := adds_groups ht (populated_nil hheap hnone).stocked hobjects
    hnodup hnumbers (fun group hgroup => ImageDraft.metaclass_of_mem_groups hgroup)
    (fun group hgroup => ⟨ImageDraft.ne_nil_of_mem_groups hgroup, hfits.counts.2.2 group hgroup⟩)
    (fun b hb => hfits.blocks b (by simp [ImageDraft.blocks, hb]))
  rw [hnone, Array.empty_append] at hadds hstocked
  exact ⟨heap, hadds, hstocked⟩

/-- What is there once the blocks of a draft have been taken in. -/
structure Received (l : Loader) (d : ImageDraft) (t : MetaclassTable) (f : FunctionSetTable)
    (objects : List (UInt32 × Object)) (settings : HeapSettings) : Prop where
  /-- The table of metaclasses is there. -/
  metaclasses : l.metaclasses? = some t
  /-- The table of function sets is there. -/
  functionSets : l.functionSets? = some f
  /-- The entry point is that of the draft. -/
  entry : ∃ ofs, d.entry? = some ofs ∧ l.entry? = some ⟨ofs, 10, 10⟩
  /-- The exported values were taken in one after the other. -/
  exports : l.exports = Exports.insertAll [] d.symbols.toList
  /-- The objects are there. -/
  objects : l.objects.toList = objects
  /-- They can be found under their numbers. -/
  stocked : l.Stocked settings
  /-- A pool that is defined gives the bytes of the draft. -/
  serves : ∀ pool, l.pools.isDefined pool = true → Serves l.pools d pool
  /-- The code is defined. -/
  code : l.pools.isDefined codePool = true
  /-- The constants are defined if there are any. -/
  constants : d.constants.isEmpty = false → l.pools.isDefined constantPool = true

theorem exists_adds_blocks (source : Array UInt8) {t : MetaclassTable} {f : FunctionSetTable}
    {objects : List (UInt32 × Object)} (hfits : d.Fits) (hd : d.Complete objects settings)
    (hextra : d.extra = #[]) (hsize : 0 < d.pageSize.toNat)
    (ht : List.Forall₂ (fun p e => MetaclassEntry.Answers e p.1 p.2) d.metaclasses.toList
      t.entries.toList)
    (hf : List.Forall₂ (fun dep s => LoadedSet.Answers s dep) d.functionSets.toList f.sets.toList)
    (hobjects : List.Forall₂ (DraftObject.Describes t) d.objects.toList objects) :
    ∃ l : Loader, Adds d.blocks { pools := .new .inMemory source, heap := .new settings } l ∧
      l.Received d t f objects settings := by
  obtain ⟨ofs, hofs, -, -⟩ := hd.entry
  -- The tables come first, and then the pools.
  have hmetaclasses := adds_metaclasses
    (l := { pools := .new .inMemory source, heap := .new settings }) rfl hfits.counts.1 ht
    hfits.names.1 hfits.entries (hfits.blocks ⟨Block.metaclasses, true, d.metaclassPayload⟩
      (by simp [ImageDraft.blocks]))
  have hfunctionSets := adds_functionSets
    (l := { pools := .new .inMemory source, heap := .new settings, metaclasses? := some t }) rfl
    hfits.functionSets hf hfits.names.2.1 (hfits.blocks
      ⟨Block.functionSets, true, d.functionSetPayload⟩ (by simp [ImageDraft.blocks]))
  obtain ⟨ps, hpools, hserves, hcode, hconstants⟩ := adds_pools
    (l := { pools := .new .inMemory source, heap := .new settings, metaclasses? := some t,
            functionSets? := some f }) source rfl hfits hsize hd.code
  -- The objects refer to the table of metaclasses.
  obtain ⟨heap, hruns, hstocked⟩ := adds_objects
    (l := { pools := ps, heap := .new settings, metaclasses? := some t, functionSets? := some f })
    rfl rfl rfl hfits hd hobjects
  have hsymbols := adds_symbols
    (l := { pools := ps, heap, metaclasses? := some t, functionSets? := some f,
            objects := objects.toArray }) hfits.counts.2.1
    (fun p hp => ⟨hfits.names.2.2 p hp, hfits.values p hp⟩)
    fun hempty => hfits.blocks ⟨Block.symbols, false, d.symbolPayload⟩ (by
      simp [ImageDraft.blocks, hempty])
  have hentry := adds_entryPoint
    (l := { pools := ps, heap, metaclasses? := some t, functionSets? := some f,
            exports := Exports.insertAll [] d.symbols.toList, objects := objects.toArray }) rfl ofs
  rw [ImageDraft.blocks_eq hextra hofs]
  exact ⟨_, ((((hmetaclasses.append hfunctionSets).append hpools).append hruns).append
    hsymbols).append hentry, {
      metaclasses := rfl
      functionSets := rfl
      entry := ⟨ofs, hofs, rfl⟩
      exports := rfl
      objects := rfl
      stocked := hstocked.congr rfl rfl
      serves := hserves
      code := hcode
      constants := hconstants }⟩

namespace Received

variable {t : MetaclassTable} {f : FunctionSetTable} {objects : List (UInt32 × Object)}

theorem checkPool_eq_ok (hl : l.Received d t f objects settings) (pool : UInt16) :
    checkPool l.pools pool = .ok () := by
  rw [checkPool]
  refine if_neg fun hcheck => ?_
  obtain ⟨hdefined, hany⟩ := Bool.and_eq_true_iff.1 hcheck
  obtain ⟨p, hp, -, -, hloaded⟩ := hl.serves pool hdefined
  rw [hp, Option.any_some, beq_iff_eq] at hany
  exact hloaded hany

/-- The checks that come before the one that there is an object are passed. -/
theorem finish_eq (hl : l.Received d t f objects settings) :
    l.finish = if l.objects.isEmpty then .error ⟨.noObjects, []⟩ else do
      let some entry := l.entry? | throw ⟨.noEntrypoint, []⟩
      l.objects.forM fun (id, o) => checkSupers l.heap id o
      return (t, f, entry) := by
  rw [finish, hl.metaclasses, hl.functionSets, hl.checkPool_eq_ok, hl.checkPool_eq_ok, hl.code]
  cases l.objects.isEmpty <;> rfl

theorem occupant? (hl : l.Received d t f objects settings) {o : UInt32 × Object}
    (ho : o ∈ objects) : l.heap.occupant? (.ofImage o.1) = some ⟨o.2, 0, true⟩ :=
  (hl.stocked.holds _ _).2 ⟨o, hl.objects.symm ▸ ho, rfl, rfl⟩

/-- All checks are passed if there is an object. -/
theorem finish_eq_ok (hl : l.Received d t f objects settings) (hd : d.Complete objects settings)
    (hne : objects ≠ []) :
    ∃ ofs, d.entry? = some ofs ∧ l.finish = .ok (t, f, ⟨ofs, 10, 10⟩) := by
  obtain ⟨ofs, hofs, hentry⟩ := hl.entry
  have hempty : ¬l.objects.isEmpty = true := by
    intro hempty
    have hobjects := hl.objects
    rw [Array.isEmpty_iff.1 hempty] at hobjects
    exact hne hobjects.symm
  have hchecked : l.objects.forM (fun o => checkSupers l.heap o.1 o.2) = .ok () := by
    refine forM_eq_ok.2 fun o ho => ?_
    have hfind : o.2.body.supers.find? (!l.heap.contains ·) = none := by
      refine List.find?_eq_none.2 fun s hs => ?_
      obtain ⟨o', ho', rfl⟩ := hd.supers o (hl.objects ▸ ho) s hs
      rw [Heap.contains_iff.2 ⟨_, hl.occupant? ho'⟩]
      exact Bool.false_ne_true
    rw [checkSupers, hfind]
  refine ⟨ofs, hofs, ?_⟩
  rw [hl.finish_eq, if_neg hempty, hentry]
  exact Except.bind_eq_ok.2 ⟨(), hchecked, rfl⟩

theorem finish_eq_noObjects (hl : l.Received d t f [] settings) :
    l.finish = .error ⟨.noObjects, []⟩ := by
  rw [hl.finish_eq, if_pos (by rw [← Array.isEmpty_toList, hl.objects]; rfl)]

end Received

end Loader

/-! ## Whole images -/

/-- The signature and the format version are read. -/
theorem Image.start_eq_ok (rest : Bytes) :
    start (signature ++ Bytes.u16 formatVersion ++ rest) = .ok (formatVersion, rest) := by
  have hsignature := Parser.Reads.of (Reader.reads_bytes signature) ⟨.badSignature, []⟩
    (Bytes.u16 formatVersion ++ rest)
  have hversion := Parser.Reads.of (Reader.reads_u16 formatVersion) Loader.truncated rest
  rw [List.append_assoc]
  refine Except.bind_eq_ok.2 ⟨_, hsignature, ?_⟩
  refine Except.guard_eq_ok.2 ⟨not_not.2 rfl, ?_⟩
  refine Except.bind_eq_ok.2 ⟨_, hversion, ?_⟩
  exact Except.guard_eq_ok.2 ⟨not_not.2 rfl, rfl⟩

/-- The blocks of a draft are those that add something to an image. -/
theorem ImageDraft.tag_mem_contents {d : ImageDraft} (hextra : d.extra = #[]) {b : DraftBlock}
    (hb : b ∈ d.blocks) : b.tag ∈ Block.contents := by
  have hpool {pool : UInt16} {bs : Bytes} (hb : b ∈ d.pool pool bs) : b.tag ∈ Block.contents := by
    rcases List.mem_cons.1 hb with rfl | hb
    · simp [Block.contents, poolDefinition]
    · obtain ⟨_, -, rfl⟩ := List.mem_map.1 hb
      simp [Block.contents, poolPage]
  rw [blocks, hextra] at hb
  simp only [List.mem_append] at hb
  rcases hb with (((((hb | hb) | hb) | hb) | hb) | hb) | hb
  · rcases List.mem_cons.1 hb with rfl | hb
    · simp [Block.contents]
    · rw [List.mem_singleton.1 hb]
      simp [Block.contents]
  · exact hpool hb
  · split at hb
    · cases hb
    · exact hpool hb
  · obtain ⟨group, -, hb⟩ := List.mem_flatMap.1 hb
    cases group with
    | nil => cases hb
    | cons o os =>
      rw [List.mem_singleton.1 hb]
      simp [Block.contents, objectRun]
  · split at hb
    · cases hb
    · rw [List.mem_singleton.1 hb]
      simp [Block.contents]
  · cases hb
  · obtain ⟨ofs, -, rfl⟩ := List.mem_map.1 hb
    simp [Block.contents]

/-- They can be told apart when they are read. -/
theorem ImageDraft.wellFormed_of_mem_blocks {d : ImageDraft} (hextra : d.extra = #[])
    (hblocks : ∀ b ∈ d.blocks, b.payload.length < 2 ^ 32) :
    ∀ b ∈ d.blocks, b.Fits ∧ b.tag ≠ Block.eof := by
  intro b hb
  have htag := d.tag_mem_contents hextra hb
  exact ⟨DraftBlock.fits_of_mem_contents htag (hblocks b hb),
    (Block.wellFormed_of_mem_contents _ htag).2⟩

/-- The image that a loader has once it has received a draft and has passed its checks. -/
def ImageDraft.image (d : ImageDraft) (l : Loader)
    (r : MetaclassTable × FunctionSetTable × EntryPoint) : Image where
  version := Image.formatVersion
  identity := Sha256.digest d.encode
  blocks := DraftBlock.placed (Image.signature.length + 2) (d.blocks ++ [DraftBlock.eof])
  metaclasses := r.1.ensureRequired
  functionSets := r.2.1
  entry := r.2.2
  exports := l.exports
  objects := l.objects

/-- The bytes of a draft are read to their end, so that only the checks of the whole are left. -/
theorem Image.exists_load_encode {d : ImageDraft} {settings : HeapSettings} {t : MetaclassTable}
    {f : FunctionSetTable} {objects : List (UInt32 × Object)} (hfits : d.Fits)
    (hd : d.Complete objects settings) (hextra : d.extra = #[]) (hsize : 0 < d.pageSize.toNat)
    (ht : List.Forall₂ (fun p e => MetaclassEntry.Answers e p.1 p.2) d.metaclasses.toList
      t.entries.toList)
    (hf : List.Forall₂ (fun dep s => LoadedSet.Answers s dep) d.functionSets.toList f.sets.toList)
    (hobjects : List.Forall₂ (DraftObject.Describes t) d.objects.toList objects) :
    ∃ l : Loader, l.Received d t f objects settings ∧
      (∀ o ∈ objects, l.heap.openHoles.get? (.ofImage o.1) = some o.2) ∧
      load d.encode .inMemory settings =
        l.finish.map fun r => (d.image l r, l.pools, l.heap.openHoles) := by
  obtain ⟨l, hadds, hl⟩ :=
    Loader.exists_adds_blocks d.encode.toArray hfits hd hextra hsize ht hf hobjects
  have heof : Loader.Adds [DraftBlock.eof] l l := .single fun _ => if_pos rfl
  have hok := hadds.append heof (signature.length + 2)
  -- The division into blocks does not depend on what they hold.
  have hwritten := ImageDraft.wellFormed_of_mem_blocks hextra hfits.blocks
  have hblocks := Blocks.ofBytes_encode hwritten (signature.length + 2)
  have hstart := start_eq_ok (d.blocks.flatMap DraftBlock.encode ++ DraftBlock.eof.encode)
  rw [← hfits.version, ← d.encode_eq, hfits.version] at hstart
  -- Opening the holes makes slots free, and moves no object.
  have hopened : l.heap.Opened l.heap.openHoles :=
    ((Loader.fits_new settings (.new .inMemory d.encode.toArray)).foldlM
      hok).refilled.imaged.opened
  refine ⟨l, hl, fun o ho => ?_, ?_⟩
  · rw [Heap.get?, hopened.occupant?, hl.occupant? ho]
    rfl
  · rw [load, hstart]
    dsimp only [bind, Except.bind]
    rw [hblocks, hok]
    dsimp only [checkEnd]
    cases l.finish <;> rfl

/-! ## Drafts that calls have been added to -/

/-- What calls mean to a machine: the metaclasses and the function sets that they ask for, and the
    objects that they describe. -/
structure ImageDraft.Means (calls : List ImageDraft.Call) (t : MetaclassTable)
    (f : FunctionSetTable) (objects : List (UInt32 × Object)) : Prop where
  /-- Each dependency asks for a metaclass. -/
  metaclasses : List.Forall₂ (fun p e => MetaclassEntry.Answers e p.1 p.2)
    (calls.filterMap Call.metaclass?) t.entries.toList
  /-- Each dependency asks for a function set. -/
  functionSets : List.Forall₂ (fun dep s => LoadedSet.Answers s dep)
    (calls.filterMap Call.functionSet?) f.sets.toList
  /-- The data of each object is that of a body. -/
  objects : List.Forall₂ (DraftObject.Describes t) (calls.filterMap Call.object?) objects

/-- The bytes of a draft that calls have been added to are read to their end. -/
theorem ImageDraft.Means.exists_load_encode {pageSize : UInt32} {calls : List ImageDraft.Call}
    {t : MetaclassTable} {f : FunctionSetTable} {objects : List (UInt32 × Object)}
    {settings : HeapSettings} (hmeans : Means calls t f objects) (hfits : (run pageSize calls).Fits)
    (hd : (run pageSize calls).Complete objects settings) :
    ∃ l : Loader, l.Received (run pageSize calls) t f objects settings ∧
      (∀ o ∈ objects, l.heap.openHoles.get? (.ofImage o.1) = some o.2) ∧
      Image.load (run pageSize calls).encode .inMemory settings =
        l.finish.map fun r => ((run pageSize calls).image l r, l.pools, l.heap.openHoles) := by
  refine Image.exists_load_encode hfits hd (extra_run pageSize calls)
    (pageSize_run_pos pageSize calls) ?_ ?_ ?_
  · rw [metaclasses_run]
    exact hmeans.metaclasses
  · rw [functionSets_run]
    exact hmeans.functionSets
  · rw [objects_run]
    exact hmeans.objects

/-- What has been loaded is what calls have given. -/
structure Image.Written (image : Image) (pools : Pools) (heap : Heap) (pageSize : UInt32)
    (calls : List ImageDraft.Call) (t : MetaclassTable) (f : FunctionSetTable)
    (objects : List (UInt32 × Object)) : Prop where
  /-- The metaclasses are in the order of the calls, before those that are always there. -/
  metaclasses : image.metaclasses = t.ensureRequired ∧
    t.entries.toList <+: image.metaclasses.entries.toList
  /-- The function sets are in the order of the calls. -/
  functionSets : image.functionSets = f
  /-- The objects are in their order, and each is found under its number. -/
  objects : image.objects.toList = objects ∧
    ∀ o ∈ objects, heap.get? (.ofImage o.1) = some o.2
  /-- Of the values under a name the last one is exported. -/
  exports : ∀ name, image.exports.lookup name =
    (calls.filterMap ImageDraft.Call.symbol?).reverse.lookup name
  /-- The program starts where the last call says, and its method header can be read. -/
  entry : (calls.filterMap ImageDraft.Call.entryPoint?).getLast? = some image.entry.codeOfs ∧
    image.entry.headerSize = 10 ∧ image.entry.excEntrySize = 10 ∧
    Image.checkEntry pools image.entry = (.ok (), pools)
  /-- What a call puts on a page is at the start of the slice at the offset that it gives back. -/
  chunks : ∀ before c after pool bs, calls = before ++ c :: after → c.chunk? = some (pool, bs) →
    bs ≠ [] → bs.length ≤ (ImageDraft.run pageSize calls).pageSize.toNat →
    ∃ ofs p s, ((ImageDraft.run pageSize before).perform c).1 = some ofs ∧
      pools.get? pool = some p ∧ (p.slice ofs).1 = .ok s ∧ bs <+: s.toBytes

/-- Required kinds are added after the metaclasses that are there. -/
theorem MetaclassTable.prefix_ensureRequired (t : MetaclassTable) :
    t.entries.toList <+: t.ensureRequired.entries.toList := by
  rw [ensureRequired]
  induction required generalizing t with
  | nil => exact List.prefix_rfl
  | cons kind kinds ih =>
    rw [List.foldl_cons]
    refine List.IsPrefix.trans ?_ (ih _)
    split
    · exact List.prefix_rfl
    · rw [Array.toList_push]
      exact List.prefix_append _ _

/-- What a call puts on a page is found there. -/
theorem Loader.Serves.slice {ps : Pools} {n : UInt32} {before after : List ImageDraft.Call}
    {c : ImageDraft.Call} {pool : UInt16} {bs : Bytes}
    (hps : Serves ps (ImageDraft.run n (before ++ c :: after)) pool)
    (hlength : ((ImageDraft.run n (before ++ c :: after)).poolBytes pool).length < 2 ^ 32)
    (hc : c.chunk? = some (pool, bs)) (hbs : bs ≠ [])
    (hpage : bs.length ≤ (ImageDraft.run n (before ++ c :: after)).pageSize.toNat) :
    ∃ ofs p s, ((ImageDraft.run n before).perform c).1 = some ofs ∧
      ps.get? pool = some p ∧ (p.slice ofs).1 = .ok s ∧ bs <+: s.toBytes := by
  obtain ⟨p, hp, hgives, hsize, -⟩ := hps
  obtain ⟨front, back, hbytes, hofs, hplace⟩ := ImageDraft.exists_poolBytes_run n hc
  rw [ImageDraft.pageSize_run n (before ++ c :: after) before] at hpage hsize
  have hfront : (UInt32.ofNat front.length).toNat = front.length := by
    refine UInt32.toNat_ofNat_of_lt' (lt_of_le_of_lt ?_ hlength)
    rw [hbytes, List.length_append, List.length_append, Nat.add_assoc]
    exact Nat.le_add_right _ _
  rw [hbytes] at hgives
  obtain ⟨s, hs, hprefix⟩ := hgives.slice hfront hbs (by rw [hsize]; exact hplace hpage)
  exact ⟨_, p, s, hofs, hp, congrArg Prod.fst hs, hprefix⟩

/-- A machine is loaded from an image whose entry point can be read. -/
theorem Machine.exists_load {bs : Bytes} {settings : MachineSettings} {image : Image}
    {pools : Pools} {heap : Heap} (hsettings : settings.problem? = none)
    (himage : Image.load bs settings.mode settings.heap = .ok (image, pools, heap))
    (hentry : Image.checkEntry pools image.entry = (.ok (), pools)) (host : Host) :
    ∃ m, load bs settings host = .ok m ∧ m.image = image ∧ m.pools = pools ∧ m.heap = heap := by
  rw [load]
  rw [hsettings]
  refine ⟨{
    image, heap, pools, host
    stack := { settings := settings.stack }
    globals := Array.replicate settings.globals .nil
    messages := settings.messages
    args := settings.args }, Except.bind_eq_ok.2 ⟨_, himage, ?_⟩, rfl, rfl, rfl⟩
  dsimp only
  rw [hentry]
  rfl

/-- The method header at the entry point of a draft can be read. -/
theorem Loader.Received.checkEntry_eq {l : Loader} {d : ImageDraft} {settings : HeapSettings}
    {t : MetaclassTable} {f : FunctionSetTable} {objects : List (UInt32 × Object)}
    (hl : l.Received d t f objects settings) (hd : d.Complete objects settings) {ofs : UInt32}
    (hofs : d.entry? = some ofs) (headerSize excEntrySize : UInt16) :
    Image.checkEntry l.pools ⟨ofs, headerSize, excEntrySize⟩ = (.ok (), l.pools) := by
  obtain ⟨p, hp, hgives, hpageSize, -⟩ := hl.serves codePool hl.code
  obtain rfl : l.pools.code = p := Option.some.inj hp
  obtain ⟨ofs', hofs', hlength, hpage⟩ := hd.entry
  obtain rfl : ofs = ofs' := Option.some.inj (hofs.symm.trans hofs')
  obtain ⟨front, hfront⟩ := Pools.readCode_of_gives (n := MethodHeader.size) hgives (by decide)
    (by rw [ImageDraft.poolBytes, if_pos rfl, Array.length_toList]; exact hlength)
    (by rw [hpageSize]; exact hpage)
  rw [Image.checkEntry, hfront]
  rfl

namespace Image

variable {pageSize : UInt32} {calls : List ImageDraft.Call} {t : MetaclassTable}
  {f : FunctionSetTable} {objects : List (UInt32 × Object)} {settings : HeapSettings} {l : Loader}

/-- What has been received from a draft that calls have been added to is what they have given. -/
theorem written_of_received (hfits : (ImageDraft.run pageSize calls).Fits)
    (hd : (ImageDraft.run pageSize calls).Complete objects settings)
    (hl : l.Received (ImageDraft.run pageSize calls) t f objects settings) {heap : Heap}
    (hget : ∀ o ∈ objects, heap.get? (.ofImage o.1) = some o.2) {ofs : UInt32}
    (hofs : ImageDraft.entry? (ImageDraft.run pageSize calls) = some ofs) :
    ((ImageDraft.run pageSize calls).image l (t, f, ⟨ofs, 10, 10⟩)).Written l.pools heap pageSize
      calls t f objects where
  metaclasses := by
    dsimp only [ImageDraft.image]
    exact ⟨rfl, t.prefix_ensureRequired⟩
  functionSets := rfl
  objects := ⟨hl.objects, hget⟩
  exports name := by
    rw [ImageDraft.image, hl.exports, Exports.lookup_insertAll, ImageDraft.symbols_run]
    exact Option.or_none
  entry := by
    rw [ImageDraft.image, ← ImageDraft.entry?_run pageSize calls]
    exact ⟨hofs, rfl, rfl, hl.checkEntry_eq hd hofs 10 10⟩
  chunks before c after pool bs hcalls hc hbs hpage := by
    subst hcalls
    have hdefined : l.pools.isDefined pool = true := by
      rcases ImageDraft.Call.eq_of_chunk? hc with rfl | rfl
      · exact hl.code
      · -- The data is among the constants, so that there are some.
        obtain ⟨front, back, hbytes, -⟩ := ImageDraft.exists_poolBytes_run pageSize hc
        refine hl.constants (Bool.eq_false_iff.2 fun hempty => hbs ?_)
        rw [ImageDraft.poolBytes, if_neg Pools.codePool_ne, Array.isEmpty_iff.1 hempty] at hbytes
        exact (List.append_eq_nil_iff.1 (List.append_eq_nil_iff.1 hbytes.symm).1).2
    have hlength : ((ImageDraft.run pageSize (before ++ c :: after)).poolBytes pool).length <
        2 ^ 32 := by
      rw [ImageDraft.poolBytes]
      split
      · exact hfits.pools.1
      · exact hfits.pools.2
    exact (hl.serves pool hdefined).slice hlength hc hbs hpage

/-- Whatever has been put into a draft by calls is there when an image is loaded from its bytes,
    for every page size and every mask. -/
theorem load_run (hmeans : ImageDraft.Means calls t f objects)
    (hfits : (ImageDraft.run pageSize calls).Fits)
    (hd : (ImageDraft.run pageSize calls).Complete objects settings) (hne : objects ≠ []) :
    ∃ image pools heap,
      load (ImageDraft.run pageSize calls).encode .inMemory settings = .ok (image, pools, heap) ∧
      image.Written pools heap pageSize calls t f objects ∧
      ∀ (ms : MachineSettings) (host : Host), ms.problem? = none → ms.mode = .inMemory →
        ms.heap = settings → ∃ m, Machine.load (ImageDraft.run pageSize calls).encode ms host =
          .ok m ∧ m.image = image ∧ m.pools = pools ∧ m.heap = heap := by
  obtain ⟨l, hl, hget, hload⟩ := hmeans.exists_load_encode hfits hd
  obtain ⟨ofs, hofs, hfinish⟩ := hl.finish_eq_ok hd hne
  rw [hfinish, Except.map] at hload
  refine ⟨_, l.pools, l.heap.openHoles, hload,
    written_of_received hfits hd hl hget hofs, ?_⟩
  intro ms host hms hmode hheap
  rw [← hmode, ← hheap] at hload
  exact Machine.exists_load hms hload (hl.checkEntry_eq hd hofs 10 10) host

/-- The calls for a small image of two programs and a table. Its second method does not fit on the
    first page, and of the two values that have one name the second is an object. -/
def smallCalls : List ImageDraft.Call := [
  .mask 0xA5, .metaclass "tads-object/030000" [1, 2], .metaclass "lookuptable" [],
  .functionSet "t3vm/010004", .code [0, 0, 0, 0, 0, 0, 0, 0, 0, 0, 0x30],
  .code [0, 0, 0, 0, 0, 0, 0, 0, 0, 0, 0x30], .string "tea", .list [.int 7],
  .object 1 0 (ObjectData.program [] [(2, .int 7)]),
  .object 9 1 (ObjectData.entries [(.int 1, .nil)]), .object 5 0 (ObjectData.program [1] []),
  .symbol "main" (.int 1), .symbol "main" (.obj (.ofImage 1)), .entryPoint 16]

/-- The objects of the small image. -/
def smallObjects : List (UInt32 × Object) := [
  (1, ⟨0, .program [] (PropTable.empty.set 2 (.int 7))⟩), (9, ⟨1, .table [(.int 1, .nil)]⟩),
  (5, ⟨0, .program [.ofImage 1] .empty⟩)]

theorem means_smallCalls : ImageDraft.Means smallCalls
    ⟨#[⟨.program, 30000, [1, 2]⟩, ⟨.table, 0, []⟩]⟩ ⟨#[⟨.machine, 10004, 10006⟩]⟩
    smallObjects where
  metaclasses :=
    .cons ⟨⟨"tads-object", by decide +kernel, by decide +kernel⟩, by decide, rfl⟩ <|
    .cons ⟨⟨"lookuptable", by decide +kernel, by decide +kernel⟩, by decide, rfl⟩ .nil
  functionSets :=
    .cons ⟨⟨"t3vm", by decide +kernel, by decide +kernel⟩, rfl, by decide⟩ .nil
  objects :=
    .cons ⟨rfl, rfl, ⟨_, rfl, rfl⟩⟩ <|
    .cons ⟨rfl, rfl, ⟨_, rfl, rfl⟩⟩ <|
    .cons ⟨rfl, rfl, ⟨_, rfl, rfl⟩⟩ .nil

theorem complete_smallCalls : (ImageDraft.run 16 smallCalls).Complete smallObjects {} where
  nodup := by decide +kernel
  numbers := by decide +kernel
  supers := by decide +kernel
  code := by decide +kernel
  entry := ⟨16, by decide +kernel⟩

theorem load_smallCalls : ∃ image pools heap,
    load (ImageDraft.run 16 smallCalls).encode .inMemory {} = .ok (image, pools, heap) ∧
    image.Written pools heap 16 smallCalls ⟨#[⟨.program, 30000, [1, 2]⟩, ⟨.table, 0, []⟩]⟩
      ⟨#[⟨.machine, 10004, 10006⟩]⟩ smallObjects := by
  have hfits : (ImageDraft.run 16 smallCalls).Fits := by
    constructor <;> decide +kernel
  obtain ⟨image, pools, heap, hload, hwritten, -⟩ :=
    load_run means_smallCalls hfits complete_smallCalls (by decide)
  exact ⟨image, pools, heap, hload, hwritten⟩

/-- An image without objects is not loaded, whatever else is in it. -/
theorem load_run_of_no_objects (hmeans : ImageDraft.Means calls t f [])
    (hfits : (ImageDraft.run pageSize calls).Fits)
    (hd : (ImageDraft.run pageSize calls).Complete [] settings) :
    load (ImageDraft.run pageSize calls).encode .inMemory settings =
      .error ⟨.noObjects, []⟩ := by
  obtain ⟨l, hl, -, hload⟩ := hmeans.exists_load_encode hfits hd
  rw [hload, hl.finish_eq_noObjects]
  rfl

/-- The calls for an image that has a method to start with, but no object. -/
def bareCalls : List ImageDraft.Call := [
  .metaclass "tads-object/030000" [], .code [0, 0, 0, 0, 0, 0, 0, 0, 0, 0, 0x30], .entryPoint 0]

/-- Such an image meets all the conditions on its parts and is still refused. -/
theorem load_bareCalls :
    ImageDraft.Means bareCalls ⟨#[⟨.program, 30000, []⟩]⟩ ⟨#[]⟩ [] ∧
    (ImageDraft.run 16 bareCalls).Fits ∧ (ImageDraft.run 16 bareCalls).Complete [] {} ∧
    load (ImageDraft.run 16 bareCalls).encode .inMemory {} = .error ⟨.noObjects, []⟩ := by
  have hmeans : ImageDraft.Means bareCalls ⟨#[⟨.program, 30000, []⟩]⟩ ⟨#[]⟩ [] := by
    refine ⟨.cons ⟨⟨"tads-object", ?_, ?_⟩, by decide, rfl⟩ .nil, .nil, .nil⟩ <;> decide +kernel
  have hfits : (ImageDraft.run 16 bareCalls).Fits := by
    constructor <;> decide +kernel
  have hd : (ImageDraft.run 16 bareCalls).Complete [] {} :=
    ⟨by decide +kernel, by decide +kernel, by decide +kernel, by decide +kernel, 0,
      by decide +kernel⟩
  exact ⟨hmeans, hfits, hd, load_run_of_no_objects hmeans hfits hd⟩

end Image

end StoryMachine
