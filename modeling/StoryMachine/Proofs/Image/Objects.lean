import StoryMachine.Proofs.Image.Front
import StoryMachine.Proofs.Metaclass.Data

/-!
# Images with many objects

The objects of a draft are written in runs of neighbours of one metaclass, and the number of the
objects of a run takes two bytes. If this is enough for each run, all the objects are there once the
image has been loaded. If it is not, some of the run is left over, and the image is refused.

* `ImageDraft.FitsApart`: drafts that can be written, but for the numbers of objects of their runs;
* `ImageDraft.length_le_of_whole`: a run of which nothing is left over;
* `Image.length_le_of_load`: the runs of an image that has been loaded;
* `Image.objects_of_load_iff`, `Image.not_load_crowd`: the images whose objects are all there, and
  one that is refused.
-/

namespace StoryMachine

/-! ## Runs of objects -/

namespace ImageDraft

variable {metaclass : MetaclassId} {group records : List DraftObject} {large : Bool}

theorem reads_record {r : DraftObject} (hr : r.metaclass = metaclass)
    (hdata : r.data.length < 2 ^ 32 ∧ (large = false → r.data.length < 2 ^ 16)) :
    Reader.Reads (Block.record metaclass large) (objectBytes large r) r := by
  rw [objectBytes, List.append_assoc]
  refine (Reader.reads_u32 r.id).bind ((Loader.reads_length hdata.1 hdata.2).bind ?_)
  have hread := (Reader.reads_bytes r.data).map fun data => DraftObject.mk r.id metaclass data
  rwa [← hr] at hread ⊢

theorem objectBytes_ne_nil (r : DraftObject) : objectBytes large r ≠ [] := by
  intro hnil
  have hid : Bytes.u32 r.id = [] := by
    rw [objectBytes, List.append_assoc] at hnil
    exact (List.append_eq_nil_iff.1 hnil).1
  exact absurd hid (List.cons_ne_nil _ _)

/-- The number of the objects of a run is said modulo 65536, and those that it does not count are
    left over. -/
theorem length_le_of_whole (hmetaclass : ∀ r ∈ group, r.metaclass = metaclass)
    (hpayload : (objectRun metaclass group).payload.length < 2 ^ 32)
    (hread : Reader.whole Block.recordRun (objectRun metaclass group).payload = some records) :
    group.length ≤ 65535 := by
  have hflag : ((if isLarge group then 1 else 0 : UInt16) &&& 1 != 0) = isLarge group := by
    cases isLarge group <;> rfl
  have hcount : (UInt16.ofNat group.length).toNat = group.length % 65536 := UInt16.toNat_ofNat' ..
  have hle : group.length % 65536 ≤ group.length := Nat.mod_le _ _
  -- As many objects are read as are counted.
  have hrecord (r : DraftObject) (hr : r ∈ group.take (group.length % 65536)) :=
    reads_record (hmetaclass r (List.mem_of_mem_take hr))
      (Loader.length_data_lt hpayload r (List.mem_of_mem_take hr))
  have hitems := Reader.reads_replicate hrecord
    ((group.drop (group.length % 65536)).flatMap (objectBytes (isLarge group)))
  rw [← List.flatMap_append, List.take_append_drop, List.length_take_of_le hle] at hitems
  have hrun : Block.recordRun (objectRun metaclass group).payload =
      some (group.take (group.length % 65536),
        (group.drop (group.length % 65536)).flatMap (objectBytes (isLarge group))) := by
    rw [objectRun]
    simp only [List.append_assoc]
    refine Reader.bind_eq_some.2 ⟨_, _, Reader.reads_u16 (.ofNat group.length) _, ?_⟩
    refine Reader.bind_eq_some.2 ⟨_, _, Reader.reads_u16 metaclass _, ?_⟩
    refine Reader.bind_eq_some.2 ⟨_, _, Reader.reads_u16 _ _, ?_⟩
    rw [hflag, hcount]
    exact hitems
  rw [Reader.whole, hrun] at hread
  -- Nothing is left over, so that all objects are counted.
  have hrest : (group.drop (group.length % 65536)).flatMap (objectBytes (isLarge group)) = [] := by
    split at hread
    · next heq => exact (Prod.mk.inj (Option.some.inj heq)).2
    · cases hread
  have hdrop : group.drop (group.length % 65536) = [] := by
    refine List.eq_nil_iff_forall_not_mem.2 fun r hr => ?_
    exact objectBytes_ne_nil r (List.flatMap_eq_nil_iff.1 hrest r hr)
  have hall := List.drop_eq_nil_iff.1 hdrop
  omega

/-- The draft can be written, but for the numbers of the objects of its runs. -/
structure FitsApart (d : ImageDraft) : Prop where
  /-- Without its objects it can be written. -/
  others : { d with objects := #[] }.Fits
  /-- The sizes of blocks can be written in four bytes. -/
  blocks : ∀ b ∈ d.blocks, b.payload.length < 2 ^ 32

theorem FitsApart.fits {d : ImageDraft} (hd : d.FitsApart)
    (hgroups : ∀ group ∈ d.groups, group.length ≤ 65535) : d.Fits :=
  { hd.others with
    counts := ⟨hd.others.counts.1, hd.others.counts.2.1, hgroups⟩
    blocks := hd.blocks }

end ImageDraft

/-! ## Whole images -/

namespace Image

variable {settings : HeapSettings} {mode : PoolMode}

/-- Of the runs of an image that has been loaded nothing is left over. -/
theorem length_le_of_load {d : ImageDraft} {r : Image × Pools × Heap} (hextra : d.extra = #[])
    (hblocks : ∀ b ∈ d.blocks, b.payload.length < 2 ^ 32)
    (hload : load d.encode mode settings = .ok r) : ∀ group ∈ d.groups, group.length ≤ 65535 := by
  intro group hgroup
  obtain ⟨o, os, rfl⟩ := List.exists_cons_of_ne_nil (ImageDraft.ne_nil_of_mem_groups hgroup)
  have hmem : ImageDraft.objectRun o.metaclass (o :: os) ∈ d.blocks := by
    have hrun : ImageDraft.objectRun o.metaclass (o :: os) ∈ ImageDraft.runsOf d.groups :=
      List.mem_flatMap.2 ⟨_, hgroup, List.mem_singleton_self _⟩
    simp [ImageDraft.blocks, hrun]
  -- The block of the run is among those that have been taken in.
  obtain ⟨place, htaken⟩ := exists_mem_blocks_of_load hmem
    (ImageDraft.wellFormed_of_mem_blocks hextra hblocks) hload
  obtain ⟨-, l, -, -, -, -, hpopulated, -⟩ := exists_of_load hload
  obtain ⟨records, hrecords⟩ := Option.isSome_iff_exists.1 (hpopulated.whole _ htaken)
  have hwhole : Reader.whole Block.recordRun
      (ImageDraft.objectRun o.metaclass (o :: os)).payload = some records :=
    (if_pos rfl).symm.trans hrecords
  exact ImageDraft.length_le_of_whole
    (fun r hr => ImageDraft.metaclass_of_mem_groups hgroup r hr o List.mem_cons_self)
    (hblocks _ hmem) hwhole

/-- The same image and the same objects are loaded when pages without a mask are read on demand. -/
theorem exists_load_iff {bs : Bytes} (hmode : mode = .inMemory ∨ Unmasked bs)
    {P : Image → Heap → Prop} :
    (∃ image pools heap, load bs mode settings = .ok (image, pools, heap) ∧ P image heap) ↔
      ∃ image pools heap, load bs .inMemory settings = .ok (image, pools, heap) ∧ P image heap := by
  cases mode with
  | inMemory => rfl
  | paged maxResident =>
    have hmask : Unmasked bs := hmode.resolve_left (by intro h; cases h)
    rcases load_paged hmask maxResident settings with ⟨e, e', he, he'⟩ | hsame
    · simp [he, he']
    · generalize load bs (.paged maxResident) settings = x at hsame
      generalize load bs .inMemory settings = y at hsame
      cases hsame with
      | error => simp
      | ok hr =>
        obtain ⟨himage, -, hheap⟩ := hr
        simp [Prod.ext_iff, himage, hheap]

variable {n : UInt32} {calls : List ImageDraft.Call} {t : MetaclassTable} {f : FunctionSetTable}
  {objects : List (UInt32 × Object)}

/-- **All objects are there.** Once the image has been loaded, the table has every object that the
    calls have given, as long as there is one and no run of neighbours of one metaclass has more
    objects than can be said in two bytes. With a longer run, or with none, the image is refused. -/
theorem objects_of_load_iff (hmode : mode = .inMemory ∨ Unmasked (ImageDraft.run n calls).encode)
    (hmeans : ImageDraft.Means calls t f objects) (hfits : (ImageDraft.run n calls).FitsApart)
    (hd : (ImageDraft.run n calls).Complete objects settings) :
    (∃ image pools heap,
      load (ImageDraft.run n calls).encode mode settings = .ok (image, pools, heap) ∧
        image.objects.toList = objects ∧ ∀ o ∈ objects, heap.get? (.ofImage o.1) = some o.2) ↔
      objects ≠ [] ∧ ∀ group ∈ (ImageDraft.run n calls).groups, group.length ≤ 65535 := by
  rw [exists_load_iff hmode]
  constructor
  · rintro ⟨image, pools, heap, hload, -, -⟩
    have hgroups := length_le_of_load (ImageDraft.extra_run n calls) hfits.blocks hload
    refine ⟨?_, hgroups⟩
    rintro rfl
    obtain ⟨l, hl, -, heq⟩ := hmeans.exists_load_encode (hfits.fits hgroups) hd
    rw [hload, hl.finish_eq_noObjects] at heq
    cases heq
  · rintro ⟨hne, hgroups⟩
    obtain ⟨l, hl, hget, hload⟩ := hmeans.exists_load_encode (hfits.fits hgroups) hd
    obtain ⟨ofs, -, hfinish⟩ := hl.finish_eq_ok hd hne
    rw [hfinish] at hload
    exact ⟨_, _, _, hload, hl.objects, hget⟩

theorem objects_of_load_smallCalls : ∃ image pools heap,
    load (ImageDraft.run 16 smallCalls).encode .inMemory {} = .ok (image, pools, heap) ∧
      image.objects.toList = smallObjects ∧
      ∀ o ∈ smallObjects, heap.get? (.ofImage o.1) = some o.2 := by
  have hfits : (ImageDraft.run 16 smallCalls).FitsApart := by
    constructor
    · constructor <;> decide +kernel
    · decide +kernel
  exact (objects_of_load_iff (.inl rfl) means_smallCalls hfits complete_smallCalls).2
    ⟨by decide, by decide +kernel⟩

/-! ## A crowd of lists -/

/-- Empty lists, numbered from one on. -/
def crowd (k : Nat) : List DraftObject := (List.range k).map fun i => ⟨.ofNat (i + 1), 0, [0, 0]⟩

/-- The calls for an image with the metaclass of lists and a method to start with. -/
def crowdStart : List ImageDraft.Call :=
  [.metaclass "list/030000" [], .code [0, 0, 0, 0, 0, 0, 0, 0, 0, 0, 0x30], .entryPoint 0]

/-- The calls for an image of empty lists. -/
def crowdCalls (k : Nat) : List ImageDraft.Call :=
  crowdStart ++ (crowd k).map fun o => .object o.id o.metaclass o.data

/-- What the calls describe. -/
def crowdObjects (k : Nat) : List (UInt32 × Object) :=
  (List.range k).map fun i => (.ofNat (i + 1), ⟨0, .list []⟩)

theorem run_crowdCalls (k : Nat) : ImageDraft.run 16 (crowdCalls k) =
    { ImageDraft.run 16 crowdStart with objects := (crowd k).toArray } := by
  have hafter (d : ImageDraft) (os : List DraftObject) :
      d.after (os.map fun o => .object o.id o.metaclass o.data) =
        { d with objects := d.objects ++ os.toArray } := by
    induction os generalizing d with
    | nil => simp [ImageDraft.after]
    | cons o os ih =>
      change (d.addObject o.id o.metaclass o.data).after _ = _
      rw [ih, ImageDraft.addObject]
      simp
  have hnone : (ImageDraft.run 16 crowdStart).objects = #[] := rfl
  rw [ImageDraft.run, crowdCalls, ImageDraft.after_append, hafter, ← ImageDraft.run, hnone,
    Array.empty_append]

theorem groups_crowdCalls {k : Nat} (hk : 0 < k) :
    (ImageDraft.run 16 (crowdCalls k)).groups = [crowd k] := by
  rw [run_crowdCalls, ImageDraft.groups]
  refine List.splitBy_of_isChain ?_ ?_
  · simp only [crowd, ne_eq, List.map_eq_nil_iff, List.range_eq_nil]
    omega
  · rw [crowd, List.isChain_map]
    exact List.Pairwise.isChain (List.pairwise_of_forall fun _ _ => rfl)

theorem means_crowdCalls (k : Nat) : ImageDraft.Means (crowdCalls k) ⟨#[⟨.list, 30000, []⟩]⟩ ⟨#[]⟩
    (crowdObjects k) where
  metaclasses := by
    have hnone : ((crowd k).map fun o => ImageDraft.Call.object o.id o.metaclass o.data).filterMap
        ImageDraft.Call.metaclass? = [] := by simp [ImageDraft.Call.metaclass?]
    rw [crowdCalls, List.filterMap_append, hnone]
    exact .cons ⟨⟨"list", by decide +kernel, by decide +kernel⟩, by decide, rfl⟩ .nil
  functionSets := by
    have hnone : ((crowd k).map fun o => ImageDraft.Call.object o.id o.metaclass o.data).filterMap
        ImageDraft.Call.functionSet? = [] := by simp [ImageDraft.Call.functionSet?]
    rw [crowdCalls, List.filterMap_append, hnone]
    exact .nil
  objects := by
    rw [← ImageDraft.objects_run 16, run_crowdCalls, crowdObjects, crowd]
    refine List.forall₂_map_left_iff.2 (List.forall₂_map_right_iff.2 ?_)
    exact List.forall₂_same.2 fun i _ => ⟨rfl, rfl, ⟨_, rfl, rfl⟩⟩

/-- Every list takes as many bytes. -/
theorem length_crowdRun (k : Nat) (metaclass : MetaclassId) :
    (ImageDraft.objectRun metaclass (crowd k)).payload.length ≤ 6 + 10 * k := by
  have hlist (large : Bool) (i : Nat) :
      (ImageDraft.objectBytes large ⟨.ofNat (i + 1), 0, [0, 0]⟩).length =
        if large then 10 else 8 := by cases large <;> rfl
  have hcrowd (large : Bool) : ((crowd k).flatMap (ImageDraft.objectBytes large)).length =
      (if large then 10 else 8) * k := by
    rw [crowd, List.flatMap_map, ObjectData.length_flatMap_of_forall (hlist large),
      List.length_range]
  simp only [ImageDraft.objectRun, ObjectData.count, List.length_append, Bytes.u16,
    Bytes.length_ofNat, hcrowd]
  split <;> omega

theorem fitsApart_crowdCalls {k : Nat} (hk : 0 < k) (hle : k ≤ 65536) :
    (ImageDraft.run 16 (crowdCalls k)).FitsApart where
  others := by
    have hfits : (ImageDraft.run 16 crowdStart).Fits := by constructor <;> decide +kernel
    rw [run_crowdCalls]
    exact hfits
  blocks := by
    have htables : ∀ b ∈ [DraftBlock.mk Block.metaclasses true
        (ImageDraft.run 16 crowdStart).metaclassPayload, ⟨Block.functionSets, true,
          (ImageDraft.run 16 crowdStart).functionSetPayload⟩], b.payload.length < 2 ^ 32 := by
      decide +kernel
    have hentry : ∀ b ∈ [DraftBlock.mk Block.entryPoint true (ImageDraft.entryPayload 0)],
        b.payload.length < 2 ^ 32 := by decide
    have hruns : ∀ b ∈ ImageDraft.runsOf [crowd k], b.payload.length < 2 ^ 32 := by
      intro b hb
      rw [ImageDraft.runsOf, List.flatMap_singleton] at hb
      split at hb
      · cases hb
      · rw [List.mem_singleton.1 hb]
        exact (length_crowdRun k _).trans_lt (by omega)
    have hofs : ImageDraft.entry? (ImageDraft.run 16 (crowdCalls k)) = some 0 := by
      rw [run_crowdCalls]
      rfl
    refine ImageDraft.forall_blocks_lt (ImageDraft.extra_run _ _) ?_ hofs ?_
    · rw [ImageDraft.pageSize_run 16 _ crowdStart]
      decide
    · rw [groups_crowdCalls hk, run_crowdCalls]
      exact List.forall_mem_append.2 ⟨List.forall_mem_append.2 ⟨List.forall_mem_append.2
        ⟨htables, hruns⟩, List.forall_mem_nil _⟩, hentry⟩

theorem complete_crowdCalls {k : Nat} (hle : k ≤ 65536) :
    (ImageDraft.run 16 (crowdCalls k)).Complete (crowdObjects k) {} where
  nodup := by
    rw [run_crowdCalls, crowd, List.map_map]
    refine List.nodup_range.map_on fun i hi j hj hij => ?_
    rw [List.mem_range] at hi hj
    have hnumbers := congrArg UInt32.toNat hij
    simp only [Function.comp_apply, UInt32.toNat_ofNat'] at hnumbers
    omega
  numbers := by
    intro o ho
    rw [run_crowdCalls] at ho
    obtain ⟨i, hi, rfl⟩ := List.mem_map.1 (Array.mem_toList_iff.2 ho)
    rw [List.mem_range] at hi
    have hnumber : (UInt32.ofNat (i + 1)).toNat = i + 1 :=
      UInt32.toNat_ofNat_of_lt' (by change i + 1 < 2 ^ 32; omega)
    rw [hnumber]
    have hmax : ({} : HeapSettings).maxObjects.toNat = 4194304 := by decide
    omega
  supers := by
    intro o ho s hs
    obtain ⟨i, -, rfl⟩ := List.mem_map.1 ho
    cases hs
  code := by
    rw [run_crowdCalls]
    rfl
  entry := by
    have hentry : (0 : UInt32).toNat + MethodHeader.size ≤
        (ImageDraft.run 16 crowdStart).code.size ∧
        (0 : UInt32).toNat % (ImageDraft.run 16 crowdStart).pageSize.toNat + MethodHeader.size ≤
          (ImageDraft.run 16 crowdStart).pageSize.toNat := by decide +kernel
    rw [run_crowdCalls]
    exact ⟨0, rfl, hentry⟩

/-- An image of 65536 lists meets all the conditions on its parts and is refused. -/
theorem not_load_crowd : ImageDraft.Means (crowdCalls 65536) ⟨#[⟨.list, 30000, []⟩]⟩ ⟨#[]⟩
      (crowdObjects 65536) ∧
    (ImageDraft.run 16 (crowdCalls 65536)).FitsApart ∧
    (ImageDraft.run 16 (crowdCalls 65536)).Complete (crowdObjects 65536) {} ∧
    ¬∃ r, load (ImageDraft.run 16 (crowdCalls 65536)).encode .inMemory {} = .ok r := by
  have hfits := fitsApart_crowdCalls (k := 65536) (by decide) le_rfl
  refine ⟨means_crowdCalls _, hfits, complete_crowdCalls le_rfl, ?_⟩
  rintro ⟨r, hload⟩
  have hle := length_le_of_load (ImageDraft.extra_run _ _) hfits.blocks hload (crowd 65536) (by
    rw [groups_crowdCalls (by decide)]
    exact List.mem_singleton_self _)
  rw [crowd, List.length_map, List.length_range] at hle
  exact absurd hle (by decide)

end Image

end StoryMachine
