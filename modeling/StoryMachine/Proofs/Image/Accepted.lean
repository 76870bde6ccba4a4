import StoryMachine.Proofs.Heap.Restored
import StoryMachine.Proofs.Image.Paging
import StoryMachine.Proofs.Image.Step
import StoryMachine.Proofs.Pool.Bounds

/-!
# Accepted images

Whatever bytes an image is loaded from, what it adds to a machine is well formed. Each
block keeps what is true of an image as far as it has been loaded, and what needs the
whole image is checked in the end.

* `Body.WellFormed`, `ObjectData.load_wellFormed`: the content of an object;
* `Heap.Holds`: a table with the objects of an image and no others;
* `Loader.Tabled`, `Loader.Pooled`, `Loader.Populated`: an image as far as it has been
  loaded, and `Loader.Tabled.step`, `Loader.Pooled.step`, `Loader.Populated.step`: what
  one block adds;
* `Machine.Accepted`, `Machine.accepted_of_load`: a machine that has been loaded.
-/

namespace StoryMachine

/-! ## Object data -/

/-- No property is zero or comes twice, and no key of a lookup table comes twice. -/
def Body.WellFormed : Body → Prop
  | .program _ props =>
    (∀ p ∈ props.entries.map Prod.fst, p ≠ 0) ∧ (props.entries.map Prod.fst).Pairwise (· < ·)
  | .table entries => (entries.map Prod.fst).Nodup
  | _ => True

namespace ObjectData

variable {bs rest : Bytes} {body : Body} {kind : Kind}

theorem props_ne_zero {n : Nat} {t t' : PropTable} (ht : ∀ e ∈ t.entries, e.1 ≠ 0)
    (hok : props n t bs = .ok (t', rest)) : ∀ e ∈ t'.entries, e.1 ≠ 0 := by
  induction n generalizing t bs with
  | zero =>
    obtain ⟨rfl, -⟩ := Parser.pure_eq_ok.1 hok
    exact ht
  | succ n ih =>
    obtain ⟨p, _, -, hok⟩ := Parser.bind_eq_ok.1 hok
    obtain ⟨v, _, -, hok⟩ := Parser.bind_eq_ok.1 hok
    obtain ⟨hvalid, hok⟩ := Parser.guard_eq_ok.1 hok
    obtain ⟨-, hok⟩ := Parser.guard_eq_ok.1 hok
    refine ih (fun e he => ?_) hok
    -- A property is the one that has just been read, or has been there before.
    rcases PropTable.mem_insertEntry he with rfl | he
    · rintro rfl
      exact hvalid rfl
    · exact ht e he

theorem nodup_tableEntries {n : Nat} {read entries : List (Value × Value)}
    (hread : (read.map Prod.fst).Nodup) (hok : tableEntries n read bs = .ok (entries, rest)) :
    (entries.map Prod.fst).Nodup := by
  induction n generalizing read bs with
  | zero =>
    obtain ⟨rfl, -⟩ := Parser.pure_eq_ok.1 hok
    rwa [List.map_reverse, List.nodup_reverse]
  | succ n ih =>
    obtain ⟨k, _, -, hok⟩ := Parser.bind_eq_ok.1 hok
    obtain ⟨v, _, -, hok⟩ := Parser.bind_eq_ok.1 hok
    obtain ⟨hnew, hok⟩ := Parser.guard_eq_ok.1 hok
    -- A key that has been read before is refused.
    have hk : k ∉ read.map Prod.fst := by
      intro hk
      obtain ⟨e, he, rfl⟩ := List.mem_map.1 hk
      exact hnew (List.any_eq_true.2 ⟨e, he, beq_self_eq_true _⟩)
    have hread' : (((k, v) :: read).map Prod.fst).Nodup := List.nodup_cons.2 ⟨hk, hread⟩
    exact ih hread' hok

/-- What is read for a kind is of the kind, and well formed. -/
theorem load_wellFormed (hok : load kind bs = .ok body) : body.kind = kind ∧ body.WellFormed := by
  cases loaded_of_load hok with
  | @program _ _ _ table supers htable =>
    have hzero := props_ne_zero (t := .empty) (fun e he => absurd he List.not_mem_nil) htable
    refine ⟨rfl, fun p hp => ?_, table.ascending.map _ fun _ _ hlt => hlt⟩
    obtain ⟨e, he, rfl⟩ := List.mem_map.1 hp
    exact hzero e he
  | list | vector | string => exact ⟨rfl, trivial⟩
  | table hentries =>
    have hnil : (([] : List (Value × Value)).map Prod.fst).Nodup := .nil
    exact ⟨rfl, nodup_tableEntries hnil hentries⟩

end ObjectData

/-! ## The table of objects -/

namespace Heap

/-- The objects are those that are given, each under the number of an image and persistent. -/
def Holds (h : Heap) (objects : List (UInt32 × Object)) : Prop :=
  ∀ id o, h.occupant? id = some o ↔
    ∃ d ∈ objects, id = .ofImage d.1 ∧ o = { object := d.2, refs := 0, persistent := true }

variable {h h' : Heap} {objects : List (UInt32 × Object)} {n : UInt32} {object : Object}
  {id : ObjectId}

theorem holds_new (settings : HeapSettings) : (new settings).Holds [] := by
  intro id o
  have hnone : (new settings).occupant? id = none := by
    have hslots : (new settings).slots = #[{}] := rfl
    rw [occupant?]
    rw [hslots]
    rcases id.index.toNat with _ | i <;> simp
  rw [hnone]
  constructor
  · intro ho
    cases ho
  · rintro ⟨d, hd, -⟩
    exact absurd hd List.not_mem_nil

/-- A number that is free is none of theirs. -/
theorem Holds.not_mem (hh : h.Holds objects) (hempty : h.isOccupied n.toNat = false) :
    n ∉ objects.map Prod.fst := by
  intro hmem
  obtain ⟨d, hd, rfl⟩ := List.mem_map.1 hmem
  have hocc := isOccupied_of_occupant? ((hh (.ofImage d.1) _).2 ⟨d, hd, rfl, rfl⟩)
  exact absurd (hempty.symm.trans hocc) (by decide)

/-- A number under which there is no object is free. -/
theorem Holds.isOccupied_eq_false (hh : h.Holds objects) (hn : n ∉ objects.map Prod.fst) :
    h.isOccupied n.toNat = false := by
  rw [Bool.eq_false_iff]
  intro hocc
  obtain ⟨s, o, hs, hso⟩ := isOccupied_iff.1 hocc
  have ho : h.occupant? ⟨n, s.generation⟩ = some o := occupant?_eq_some_iff.2 ⟨s, hs, rfl, hso⟩
  obtain ⟨d, hd, hid, -⟩ := (hh _ o).1 ho
  have hdn : n = d.1 := congrArg ObjectId.index hid
  exact hn (List.mem_map.2 ⟨d, hd, hdn.symm⟩)

theorem Holds.place (hh : h.Holds objects) (hempty : h.isOccupied n.toNat = false)
    (object : Object) :
    (h.place n.toNat ⟨0, some ⟨object, 0, true⟩⟩).Holds (objects ++ [(n, object)]) := by
  intro id o
  have hocc : (h.place n.toNat ⟨0, some ⟨object, 0, true⟩⟩).occupant? id =
      if id = .ofImage n then some ⟨object, 0, true⟩ else h.occupant? id :=
    occupant?_place (.ofImage n) hempty rfl id
  rw [hocc]
  by_cases hid : id = .ofImage n
  · rw [if_pos hid]
    constructor
    · intro ho
      exact ⟨(n, object), List.mem_append_right _ List.mem_cons_self, hid,
        (Option.some.inj ho).symm⟩
    · rintro ⟨d, hd, hdid, rfl⟩
      rcases List.mem_append.1 hd with hd | hd
      · -- Before, the number was free.
        have hdn : d.1 = n := congrArg ObjectId.index (hdid.symm.trans hid)
        exact absurd (List.mem_map.2 ⟨d, hd, hdn⟩) (hh.not_mem hempty)
      · rw [List.mem_singleton.1 hd]
  · rw [if_neg hid, hh id o]
    constructor
    · rintro ⟨d, hd, hrest⟩
      exact ⟨d, List.mem_append_left _ hd, hrest⟩
    · rintro ⟨d, hd, hdid, rfl⟩
      rcases List.mem_append.1 hd with hd | hd
      · exact ⟨d, hd, hdid, rfl⟩
      · rw [List.mem_singleton.1 hd] at hdid
        exact absurd hdid hid

/-- An object is defined under a number that is free and within the limits. -/
theorem Holds.define (hh : h.Holds objects) (hok : Heap.define n object h = .ok id h') :
    h'.Holds (objects ++ [(n, object)]) ∧ n ∉ objects.map Prod.fst ∧ n ≠ 0 ∧
      n.toNat < h.settings.maxObjects.toNat ∧ h'.settings = h.settings ∧ h'.live = h.live + 1 := by
  rcases h.define_cases n object with ⟨e, herr⟩ | ⟨hn, hlt, hempty, hok'⟩
  · rw [herr] at hok
    cases hok
  rw [hok'] at hok
  obtain ⟨-, rfl⟩ := EStateM.Result.ok.inj hok
  exact ⟨hh.place hempty object, hh.not_mem hempty, hn, hlt, settings_place .., rfl⟩

end Heap

/-! ## The pools -/

namespace Pools

variable {ps ps' : Pools} {pool : UInt16}

/-- Both pools are within bounds. -/
def InBounds (ps : Pools) : Prop := ps.code.InBounds ∧ ps.constant.InBounds

theorem codePool_ne : constantPool ≠ codePool := by decide

/-- A pool is defined once. -/
theorem defined_of_define {pageCount pageSize : UInt32}
    (hok : ps.define pool pageCount pageSize = .ok ps') : ps.isDefined pool = false ∧
      ∀ other, ps'.isDefined other = true ↔ other = pool ∨ ps.isDefined other = true := by
  obtain ⟨hnew, hdefine⟩ := define_eq_ok hok
  refine ⟨hnew, fun other => ?_⟩
  rcases hdefine with ⟨p, rfl, -, rfl⟩ | ⟨p, rfl, -, rfl⟩ <;>
    simp only [isDefined, Bool.or_eq_true, Bool.and_eq_true, beq_iff_eq] <;> tauto

theorem inBounds_iff_all : ps.InBounds ↔ ps.All Pool.InBounds :=
  ⟨fun ⟨hcode, hconstant⟩ => ⟨hcode, hconstant⟩, fun ⟨hcode, hconstant⟩ => ⟨hcode, hconstant⟩⟩

/-- A page does not define a pool. -/
theorem isDefined_of_addPage {index : UInt32} {mask : UInt8} {data : PageData}
    (hok : ps.addPage pool index mask data = .ok ps') (other : UInt16) :
    ps'.isDefined other = ps.isDefined other := by
  rcases addPage_eq_ok hok with ⟨p, -, -, rfl⟩ | ⟨p, -, -, rfl⟩ <;> rfl

end Pools

/-! ## What one block adds -/

namespace Block

variable {b : Block} {seen : List Block}

theorem definedPool?_of_ne (htag : b.tag ≠ poolDefinition) : b.definedPool? = none :=
  if_neg htag

theorem records_of_ne (htag : b.tag ≠ objects) : b.records? = some [] ∧ b.records = [] := by
  have hrecords : b.records? = some [] := if_neg htag
  exact ⟨hrecords, by rw [records, hrecords]; rfl⟩

theorem count_tag_append (seen : List Block) (b : Block) (tag : Bytes) :
    ((seen ++ [b]).map Block.tag).count tag =
      (seen.map Block.tag).count tag + if b.tag = tag then 1 else 0 := by
  rw [List.map_append, List.count_append, List.map_singleton, List.count_singleton]
  simp

end Block

/-- The object is the one that the image describes. -/
def DraftObject.Describes (t : MetaclassTable) (r : DraftObject) (d : UInt32 × Object) : Prop :=
  d.1 = r.id ∧ d.2.metaclass = r.metaclass ∧
    ∃ e, t.get? r.metaclass = some e ∧ ObjectData.load e.kind r.data = .ok d.2.body

namespace Loader

variable {settings : HeapSettings} {seen : List Block} {b : Block} {l l' : Loader}

/-- The tables and the entry point have been given once or not yet. -/
structure Tabled (seen : List Block) (l : Loader) : Prop where
  /-- The blocks of metaclasses. -/
  metaclasses : (seen.map Block.tag).count Block.metaclasses = l.metaclasses?.toList.length
  /-- The blocks of function sets. -/
  functionSets : (seen.map Block.tag).count Block.functionSets = l.functionSets?.toList.length
  /-- The blocks of entry points. -/
  entryPoints : (seen.map Block.tag).count Block.entryPoint = l.entry?.toList.length
  /-- The metaclasses are those of their block. -/
  table : ∀ t ∈ l.metaclasses?, ∃ b ∈ seen, b.GivesTable t
  /-- Headers and entries of exception tables are long enough. -/
  sizes : ∀ e ∈ l.entry?, MethodHeader.size ≤ e.headerSize.toNat ∧
    ExceptionEntry.size ≤ e.excEntrySize.toNat

theorem tabled_nil (hm : l.metaclasses? = none) (hf : l.functionSets? = none)
    (he : l.entry? = none) : l.Tabled [] := by
  refine ⟨?_, ?_, ?_, fun t ht => ?_, fun e ht => ?_⟩
  · rw [hm]; rfl
  · rw [hf]; rfl
  · rw [he]; rfl
  · rw [hm] at ht
    cases ht
  · rw [he] at ht
    cases ht

/-- A block that is none of these changes nothing. -/
theorem Tabled.other (hl : l.Tabled seen)
    (htag : b.tag ∉ [Block.metaclasses, Block.functionSets, Block.entryPoint])
    (hm : l'.metaclasses? = l.metaclasses?) (hf : l'.functionSets? = l.functionSets?)
    (he : l'.entry? = l.entry?) : l'.Tabled (seen ++ [b]) := by
  simp only [List.mem_cons, List.not_mem_nil, or_false, not_or] at htag
  refine ⟨?_, ?_, ?_, fun t ht => ?_, fun e ht => ?_⟩
  · rw [Block.count_tag_append, if_neg htag.1, hm, hl.metaclasses, Nat.add_zero]
  · rw [Block.count_tag_append, if_neg htag.2.1, hf, hl.functionSets, Nat.add_zero]
  · rw [Block.count_tag_append, if_neg htag.2.2, he, hl.entryPoints, Nat.add_zero]
  · obtain ⟨b', hb', hrest⟩ := hl.table t (hm ▸ ht)
    exact ⟨b', List.mem_append_left _ hb', hrest⟩
  · exact hl.sizes e (he ▸ ht)

theorem Tabled.step (hl : l.Tabled seen) (hb : Step b l l') : l'.Tabled (seen ++ [b]) := by
  have htables (t : MetaclassTable) (ht : t ∈ l.metaclasses?) :
      ∃ b' ∈ seen ++ [b], b'.GivesTable t := by
    obtain ⟨b', hb', hrest⟩ := hl.table t ht
    exact ⟨b', List.mem_append_left _ hb', hrest⟩
  cases hb with
  | pass htag =>
    refine hl.other (fun hmem => htag ?_) rfl rfl rfl
    simp only [List.mem_cons, List.not_mem_nil, or_false] at hmem
    rcases hmem with h | h | h <;> rw [h] <;> decide +kernel
  | metaclasses htable hnew =>
    -- The block counts for its own table only, which was not there before.
    have htag := htable.1
    refine ⟨?_, ?_, ?_, ?_, hl.sizes⟩
    · rw [Block.count_tag_append, if_pos htag, hl.metaclasses, hnew]
      rfl
    · rw [Block.count_tag_append, hl.functionSets, htag]
      rfl
    · rw [Block.count_tag_append, hl.entryPoints, htag]
      rfl
    · intro t ht
      obtain rfl := Option.some.inj ht
      exact ⟨b, List.mem_append_right _ List.mem_cons_self, htable⟩
  | functionSets htag hnew =>
    refine ⟨?_, ?_, ?_, htables, hl.sizes⟩
    · rw [Block.count_tag_append, hl.metaclasses, htag]
      rfl
    · rw [Block.count_tag_append, if_pos htag, hl.functionSets, hnew]
      rfl
    · rw [Block.count_tag_append, hl.entryPoints, htag]
      rfl
  | entryPoint htag hnew hheader hexception =>
    refine ⟨?_, ?_, ?_, htables, ?_⟩
    · rw [Block.count_tag_append, hl.metaclasses, htag]
      rfl
    · rw [Block.count_tag_append, hl.functionSets, htag]
      rfl
    · rw [Block.count_tag_append, if_pos htag, hl.entryPoints, hnew]
      rfl
    · intro e he
      obtain rfl := Option.some.inj he
      exact ⟨hheader, hexception⟩
  | pool htag hpool hdefine => exact hl.other (htag ▸ by decide +kernel) rfl rfl rfl
  | page htag hadd => exact hl.other (htag ▸ by decide +kernel) rfl rfl rfl
  | symbols htag => exact hl.other (htag ▸ by decide +kernel) rfl rfl rfl
  | objects htag htable hentry hrecords hmetaclass hdefines =>
    obtain ⟨hm, hf, he, -⟩ := hdefines.frame
    exact hl.other (htag ▸ by decide +kernel) hm hf he

/-- Each pool has been defined once or not yet, and its pages are within bounds. -/
structure Pooled (seen : List Block) (l : Loader) : Prop where
  /-- No pool is defined twice. -/
  nodup : (seen.filterMap Block.definedPool?).Nodup
  /-- A pool is there once it has been defined. -/
  defined : ∀ pool, l.pools.isDefined pool = true ↔ pool ∈ seen.filterMap Block.definedPool?
  /-- Pages have numbers for which there is room, and are not too long. -/
  inBounds : l.pools.InBounds

/-- A block that is no definition of a pool. -/
theorem Pooled.other (hl : l.Pooled seen) (htag : b.tag ≠ Block.poolDefinition)
    (hdefined : ∀ pool, l'.pools.isDefined pool = l.pools.isDefined pool)
    (hbounds : l'.pools.InBounds) : l'.Pooled (seen ++ [b]) := by
  have hseen : (seen ++ [b]).filterMap Block.definedPool? = seen.filterMap Block.definedPool? := by
    rw [List.filterMap_append, List.filterMap_cons_none (Block.definedPool?_of_ne htag)]
    exact List.append_nil _
  refine ⟨hseen ▸ hl.nodup, fun pool => ?_, hbounds⟩
  rw [hdefined, hseen]
  exact hl.defined pool

theorem pooled_nil {mode : PoolMode} {source : Array UInt8} (hl : l.pools = .new mode source) :
    l.Pooled [] := by
  refine ⟨.nil, fun pool => ?_, ?_⟩
  · rw [hl]
    simp [Pools.isDefined, Pools.new]
  · rw [hl]
    cases mode with
    | inMemory => exact ⟨MemoryPool.inBounds_of_empty rfl, MemoryPool.inBounds_of_empty rfl⟩
    | paged n => exact ⟨PagedPool.inBounds_of_empty rfl, PagedPool.inBounds_of_empty rfl⟩

theorem Pooled.step (hl : l.Pooled seen) (hb : Step b l l') : l'.Pooled (seen ++ [b]) := by
  cases hb with
  | @pool pool rest _ _ pools htag hpool hdefine =>
    -- The pool was not defined before, so that no block before this one gives its number.
    obtain ⟨hnew, hdefined⟩ := Pools.defined_of_define hdefine
    have hb : b.definedPool? = some pool := by
      rw [Block.definedPool?, if_pos htag, hpool]
      rfl
    have hseen : (seen ++ [b]).filterMap Block.definedPool? =
        seen.filterMap Block.definedPool? ++ [pool] := by
      rw [List.filterMap_append, List.filterMap_cons_some hb]
      rfl
    have hbounds := (Pools.inBounds_iff_all.1 hl.inBounds).define Pool.survives_inBounds hdefine
    refine ⟨?_, fun other => ?_, Pools.inBounds_iff_all.2 hbounds⟩
    · rw [hseen, List.nodup_append']
      refine ⟨hl.nodup, List.nodup_singleton _, fun other hother hpool => ?_⟩
      rw [List.mem_singleton.1 hpool, ← hl.defined, hnew] at hother
      cases hother
    · rw [hdefined, hseen, List.mem_append, List.mem_singleton, hl.defined, or_comm]
  | page htag hadd =>
    have hbounds := (Pools.inBounds_iff_all.1 hl.inBounds).addPage Pool.survives_inBounds hadd
    exact hl.other (htag ▸ by decide +kernel) (Pools.isDefined_of_addPage hadd)
      (Pools.inBounds_iff_all.2 hbounds)
  | pass htag =>
    refine hl.other (fun hmem => htag ?_) (fun _ => rfl) hl.inBounds
    rw [hmem]
    decide +kernel
  | metaclasses htable => exact hl.other (htable.1 ▸ by decide +kernel) (fun _ => rfl) hl.inBounds
  | functionSets htag => exact hl.other (htag ▸ by decide +kernel) (fun _ => rfl) hl.inBounds
  | symbols htag => exact hl.other (htag ▸ by decide +kernel) (fun _ => rfl) hl.inBounds
  | entryPoint htag => exact hl.other (htag ▸ by decide +kernel) (fun _ => rfl) hl.inBounds
  | objects htag htable hentry hrecords hmetaclass hdefines =>
    obtain ⟨-, -, -, hpools⟩ := hdefines.frame
    exact hl.other (htag ▸ by decide +kernel) (fun _ => by rw [hpools]) (hpools ▸ hl.inBounds)

/-- The objects are in the table of objects, within its limits. -/
structure Stocked (settings : HeapSettings) (l : Loader) : Prop where
  /-- The table has the objects and no others. -/
  holds : l.heap.Holds l.objects.toList
  /-- No two have one number. -/
  nodup : (l.objects.toList.map Prod.fst).Nodup
  /-- The numbers are within the limits. -/
  numbers : ∀ d ∈ l.objects.toList, d.1 ≠ 0 ∧ d.1.toNat < settings.maxObjects.toNat
  /-- The table counts them. -/
  live : l.heap.live = l.objects.size
  /-- The limits are the given ones. -/
  limits : l.heap.settings = settings

theorem Stocked.congr (hl : l.Stocked settings) (hheap : l'.heap = l.heap)
    (hobjects : l'.objects = l.objects) : l'.Stocked settings := by
  refine ⟨?_, hobjects ▸ hl.nodup, hobjects ▸ hl.numbers, ?_, hheap ▸ hl.limits⟩
  · rw [hheap, hobjects]
    exact hl.holds
  · rw [hheap, hobjects]
    exact hl.live

theorem Stocked.define {n : UInt32} {object : Object} {id : ObjectId} {heap : Heap}
    (hl : l.Stocked settings) (hdefine : Heap.define n object l.heap = .ok id heap) :
    Stocked settings { l with heap, objects := l.objects.push (n, object) } := by
  obtain ⟨hholds, hnew, hzero, hlt, hsettings, hlive⟩ := hl.holds.define hdefine
  have hpush : (l.objects.push (n, object)).toList = l.objects.toList ++ [(n, object)] :=
    Array.toList_push
  refine ⟨?_, ?_, ?_, ?_, hsettings.trans hl.limits⟩
  · rw [hpush]
    exact hholds
  · rw [hpush, List.map_append, List.nodup_append']
    refine ⟨hl.nodup, List.nodup_singleton _, fun m hm hmem => ?_⟩
    rw [List.mem_singleton.1 hmem] at hm
    exact hnew hm
  · rw [hpush]
    intro d hd
    rcases List.mem_append.1 hd with hd | hd
    · exact hl.numbers d hd
    · rw [List.mem_singleton.1 hd]
      exact ⟨hzero, hl.limits ▸ hlt⟩
  · rw [hlive, hl.live, Array.size_push]

/-- Objects that a run defines are as the run describes them. -/
theorem Stocked.defines {t : MetaclassTable} {e : MetaclassEntry} {metaclass : MetaclassId}
    {given records : List DraftObject} (hl : l.Stocked settings)
    (hgiven : List.Forall₂ (DraftObject.Describes t) given l.objects.toList)
    (hentry : t.get? metaclass = some e) (hmetaclass : ∀ r ∈ records, r.metaclass = metaclass)
    (hd : l.Defines e.kind records l') : l'.Stocked settings ∧
      List.Forall₂ (DraftObject.Describes t) (given ++ records) l'.objects.toList := by
  induction hd generalizing given with
  | nil => exact ⟨hl, by rwa [List.append_nil]⟩
  | @cons l l' r records body id heap hbody hdefine hrest ih =>
    obtain ⟨hr, hmetaclass⟩ := List.forall_mem_cons.1 hmetaclass
    have hpush : (l.objects.push (r.id, (⟨r.metaclass, body⟩ : Object))).toList =
        l.objects.toList ++ [(r.id, ⟨r.metaclass, body⟩)] := Array.toList_push
    have hdescribes : r.Describes t (r.id, ⟨r.metaclass, body⟩) :=
      ⟨rfl, rfl, e, hr ▸ hentry, hbody⟩
    have hgiven' : List.Forall₂ (DraftObject.Describes t) (given ++ [r])
        (l.objects.push (r.id, ⟨r.metaclass, body⟩)).toList := by
      rw [hpush]
      exact List.rel_append hgiven (.cons hdescribes .nil)
    have hall := ih (hl.define hdefine) hgiven' hmetaclass
    rwa [List.append_assoc] at hall

/-- The objects are those that the blocks give, in their order. -/
structure Populated (settings : HeapSettings) (seen : List Block) (l : Loader) : Prop where
  /-- The objects are written as they should be. -/
  whole : ∀ b ∈ seen, b.records?.isSome = true
  /-- They are what the blocks describe, by the table of metaclasses. -/
  described : List.Forall₂ (fun r d => ∃ t ∈ l.metaclasses?, r.Describes t d)
    (seen.flatMap Block.records) l.objects.toList
  /-- They are in the table of objects. -/
  stocked : l.Stocked settings

/-- The bodies are well formed. -/
theorem Populated.wellFormed (hl : l.Populated settings seen) {d : UInt32 × Object}
    (hd : d ∈ l.objects.toList) : d.2.body.WellFormed := by
  obtain ⟨i, hi, rfl⟩ := List.mem_iff_getElem.1 hd
  obtain ⟨t, -, -, -, e, -, hload⟩ := hl.described.get (hl.described.length_eq ▸ hi) hi
  exact (ObjectData.load_wellFormed hload).2

/-- A block without objects. -/
theorem Populated.other (hl : l.Populated settings seen) (htag : b.tag ≠ Block.objects)
    (hheap : l'.heap = l.heap) (hobjects : l'.objects = l.objects)
    (hm : ∀ t ∈ l.metaclasses?, t ∈ l'.metaclasses?) : l'.Populated settings (seen ++ [b]) := by
  obtain ⟨hrecords?, hrecords⟩ := Block.records_of_ne htag
  refine ⟨fun b' hb' => ?_, ?_, hl.stocked.congr hheap hobjects⟩
  · rcases List.mem_append.1 hb' with hb' | hb'
    · exact hl.whole b' hb'
    · rw [List.mem_singleton.1 hb', hrecords?]
      rfl
  · rw [List.flatMap_append, List.flatMap_singleton, hrecords, List.append_nil, hobjects]
    exact hl.described.imp fun r d ⟨t, ht, hrd⟩ => ⟨t, hm t ht, hrd⟩

theorem populated_nil (hheap : l.heap = .new settings) (hobjects : l.objects = #[]) :
    l.Populated settings [] := by
  refine ⟨fun b hb => absurd hb List.not_mem_nil, ?_, ?_⟩
  · rw [hobjects]
    exact .nil
  · refine ⟨?_, ?_, fun d hd => ?_, ?_, ?_⟩
    · rw [hheap, hobjects]
      exact Heap.holds_new settings
    · rw [hobjects]
      exact .nil
    · rw [hobjects] at hd
      exact absurd hd List.not_mem_nil
    · rw [hheap, hobjects]
      rfl
    · rw [hheap]
      rfl

theorem Populated.step (hl : l.Populated settings seen) (hb : Step b l l') :
    l'.Populated settings (seen ++ [b]) := by
  cases hb with
  | @objects _ t metaclass e records htag htable hentry hrecords hmetaclass hdefines =>
    -- The table of metaclasses is the one that the objects before refer to.
    have hgiven : List.Forall₂ (DraftObject.Describes t) (seen.flatMap Block.records)
        l.objects.toList := by
      refine hl.described.imp fun r d ⟨t', ht', hrd⟩ => ?_
      rw [htable] at ht'
      obtain rfl := Option.some.inj ht'
      exact hrd
    obtain ⟨hstocked, hdescribed⟩ := hl.stocked.defines hgiven hentry hmetaclass hdefines
    have hrecords? : b.records? = some records := (if_pos htag).trans hrecords
    have htable' : t ∈ l'.metaclasses? := hdefines.frame.1.trans htable
    refine ⟨fun b' hb' => ?_, ?_, hstocked⟩
    · rcases List.mem_append.1 hb' with hb' | hb'
      · exact hl.whole b' hb'
      · rw [List.mem_singleton.1 hb', hrecords?]
        rfl
    · rw [List.flatMap_append, List.flatMap_singleton, Block.records, hrecords?]
      exact hdescribed.imp fun r d hrd => ⟨t, htable', hrd⟩
  | pass htag =>
    refine hl.other (fun hmem => htag ?_) rfl rfl fun _ ht => ht
    rw [hmem]
    decide +kernel
  | metaclasses htable hnew =>
    -- Objects come after the table of metaclasses, so there are none yet.
    refine hl.other (htable.1 ▸ by decide +kernel) rfl rfl fun t ht => ?_
    rw [hnew] at ht
    cases ht
  | functionSets htag => exact hl.other (htag ▸ by decide +kernel) rfl rfl fun _ ht => ht
  | pool htag => exact hl.other (htag ▸ by decide +kernel) rfl rfl fun _ ht => ht
  | page htag => exact hl.other (htag ▸ by decide +kernel) rfl rfl fun _ ht => ht
  | symbols htag => exact hl.other (htag ▸ by decide +kernel) rfl rfl fun _ ht => ht
  | entryPoint htag => exact hl.other (htag ▸ by decide +kernel) rfl rfl fun _ ht => ht

/-- The induction is on the blocks that are still to come. -/
theorem gathered_foldlM {blocks : List Block} (htabled : l.Tabled seen) (hpooled : l.Pooled seen)
    (hpopulated : l.Populated settings seen) (hok : blocks.foldlM Loader.block l = .ok l') :
    l'.Tabled (seen ++ blocks) ∧ l'.Pooled (seen ++ blocks) ∧
      l'.Populated settings (seen ++ blocks) := by
  induction blocks generalizing l seen with
  | nil =>
    obtain rfl := Except.ok.inj hok
    rw [List.append_nil]
    exact ⟨htabled, hpooled, hpopulated⟩
  | cons b blocks ih =>
    rw [List.foldlM_cons] at hok
    obtain ⟨l₁, hb, hok⟩ := Except.bind_eq_ok.1 hok
    have hstep := step_of_block hb
    have hall := ih (htabled.step hstep) (hpooled.step hstep) (hpopulated.step hstep) hok
    rwa [List.append_assoc] at hall

/-! ## The checks of the whole -/

/-- Each item has been checked. -/
theorem forM_eq_ok {α : Type} {f : α → Except Failure Unit} {xs : Array α} :
    xs.forM f = .ok () ↔ ∀ a ∈ xs.toList, f a = .ok () := by
  obtain ⟨xs⟩ := xs
  rw [List.forM_toArray' xs f rfl]
  induction xs with
  | nil => exact ⟨fun _ a ha => absurd ha List.not_mem_nil, fun _ => rfl⟩
  | cons a xs ih =>
    change (f a >>= fun _ => xs.forM f) = .ok () ↔ ∀ b ∈ a :: xs, f b = .ok ()
    rw [Except.bind_eq_ok, List.forall_mem_cons]
    constructor
    · rintro ⟨_, ha, hxs⟩
      exact ⟨ha, ih.1 hxs⟩
    · rintro ⟨ha, hxs⟩
      exact ⟨(), ha, ih.2 hxs⟩

theorem loadedPages_of_checkPool {ps : Pools} {pool : UInt16} {p : Pool}
    (hok : checkPool ps pool = .ok ()) (hdefined : ps.isDefined pool = true)
    (hp : ps.get? pool = some p) : p.loadedPages ≠ 0 := by
  rw [checkPool] at hok
  intro hzero
  rw [hdefined, hp, if_pos] at hok
  · cases hok
  · simp [hzero]

theorem contains_of_checkSupers {h : Heap} {id : UInt32} {o : Object}
    (hok : checkSupers h id o = .ok ()) : ∀ s ∈ o.body.supers, h.contains s = true := by
  rw [checkSupers] at hok
  split at hok
  · next hnone =>
    intro s hs
    simpa using List.find?_eq_none.1 hnone s hs
  · cases hok

/-- What has been checked. -/
theorem checked_of_finish {metaclasses : MetaclassTable} {functionSets : FunctionSetTable}
    {entry : EntryPoint} (hok : l.finish = .ok (metaclasses, functionSets, entry)) :
    (l.metaclasses? = some metaclasses ∧ l.functionSets? = some functionSets ∧
      l.entry? = some entry) ∧ l.pools.isDefined codePool = true ∧
      (∀ pool p, l.pools.isDefined pool = true → l.pools.get? pool = some p →
        p.loadedPages ≠ 0) ∧
      l.objects.toList ≠ [] ∧
      ∀ d ∈ l.objects.toList, ∀ s ∈ d.2.body.supers, l.heap.contains s = true := by
  rw [finish] at hok
  split at hok
  swap
  · cases hok
  next t ht =>
  split at hok
  swap
  · cases hok
  next f hf =>
  obtain ⟨hcode, hok⟩ := Except.guard_eq_ok.1 hok
  obtain ⟨_, hcodePages, hok⟩ := Except.bind_eq_ok.1 hok
  obtain ⟨_, hconstantPages, hok⟩ := Except.bind_eq_ok.1 hok
  obtain ⟨hobjects, hok⟩ := Except.guard_eq_ok.1 hok
  split at hok
  swap
  · cases hok
  next e he =>
  obtain ⟨_, hsupers, hok⟩ := Except.bind_eq_ok.1 hok
  obtain ⟨rfl, rfl, rfl⟩ : t = metaclasses ∧ f = functionSets ∧ e = entry := by
    simpa using Except.ok.inj hok
  refine ⟨⟨ht, hf, he⟩, by simpa using hcode, fun pool p hdefined hp => ?_, ?_, ?_⟩
  · rcases Pools.eq_of_get?_eq_some hp with ⟨rfl, -⟩ | ⟨rfl, -⟩
    · exact loadedPages_of_checkPool hcodePages hdefined hp
    · exact loadedPages_of_checkPool hconstantPages hdefined hp
  · simpa using hobjects
  · intro d hd
    exact contains_of_checkSupers (forM_eq_ok.1 hsupers d hd)

end Loader

/-! ## The method header at the entry point -/

/-- Any ten bytes are a method header. -/
theorem MethodHeader.exists_parse {bs : Bytes} (hbs : MethodHeader.size ≤ bs.length) :
    ∃ h, MethodHeader.parse bs = .ok h := by
  have hreader : MethodHeader.reader.Fixed MethodHeader.size :=
    Reader.fixed_u8.bind fun _ => Reader.fixed_u8.bind fun _ =>
      Reader.fixed_u16.bind fun _ => Reader.fixed_u16.bind fun _ =>
        Reader.fixed_u16.bind fun _ => Reader.fixed_u16.bind fun _ => .pure _
  obtain ⟨h, -, hh⟩ := hreader.exists_of_le hbs
  exact ⟨h, by rw [MethodHeader.parse, hh]⟩

theorem Slice.length_of_take? {s : Slice} {n : Nat} {bs : Bytes} (hok : s.take? n = some bs) :
    bs.length = n := by
  rw [Slice.take?] at hok
  split at hok
  · next hle =>
    obtain rfl := Option.some.inj hok
    rw [Slice.front, Array.length_toList, Array.size_extract]
    omega
  · cases hok

/-! ## Whole images -/

namespace Machine

/-- What is true of a machine that has been loaded. -/
structure Accepted (m : Machine) (bs : Bytes) (settings : HeapSettings) : Prop where
  /-- The blocks are those of the bytes. -/
  blocks : Blocks.ofBytes (Image.signature.length + 2) (bs.drop (Image.signature.length + 2)) =
    { list := m.image.blocks, ending := .eof }
  /-- There is one block of metaclasses, one of function sets and one entry point. -/
  once : ∀ tag ∈ [Block.metaclasses, Block.functionSets, Block.entryPoint],
    (m.image.blocks.map Block.tag).count tag = 1
  /-- No pool is defined twice. -/
  poolsOnce : (m.image.blocks.filterMap Block.definedPool?).Nodup
  /-- The objects are those of the blocks, whose metaclasses and kinds the block of metaclasses
      gives. -/
  objects : (∀ b ∈ m.image.blocks, b.records?.isSome = true) ∧
    ∃ t, (∃ b ∈ m.image.blocks, b.GivesTable t) ∧ m.image.metaclasses = t.ensureRequired ∧
      List.Forall₂ (DraftObject.Describes t) (m.image.blocks.flatMap Block.records)
        m.image.objects.toList ∧
      ∀ d ∈ m.image.objects, ∃ e, t.get? d.2.metaclass = some e ∧ d.2.body.kind = e.kind
  /-- The table has these objects and no others, all of them persistent. -/
  holds : m.heap.Holds m.image.objects.toList ∧ m.heap.live = m.image.objects.size
  /-- No two have one number, and the numbers are within the limits. -/
  numbers : (m.image.objects.toList.map Prod.fst).Nodup ∧
    ∀ d ∈ m.image.objects, 1 ≤ d.1.toNat ∧ d.1.toNat < settings.maxObjects.toNat
  /-- Every superclass is one of the objects. -/
  supers : ∀ d ∈ m.image.objects, ∀ s ∈ d.2.body.supers,
    ∃ d' ∈ m.image.objects, s = .ofImage d'.1
  /-- Properties are not zero and ascend, and keys of lookup tables are distinct. -/
  bodies : ∀ d ∈ m.image.objects, d.2.body.WellFormed
  /-- There is code, and every pool that is defined has a page. -/
  pages : m.pools.isDefined codePool = true ∧ ∀ pool p, m.pools.isDefined pool = true →
    m.pools.get? pool = some p → p.loadedPages ≠ 0
  /-- Every page has a number for which there is room, and is not too long. -/
  inBounds : m.pools.InBounds
  /-- Method headers and entries of exception tables are long enough. -/
  sizes : 10 ≤ m.image.entry.headerSize.toNat ∧ 10 ≤ m.image.entry.excEntrySize.toNat
  /-- The method header at the entry point can be read. -/
  header : ∃ bytes h, (m.pools.readCode m.image.entry.codeOfs MethodHeader.size).1 = .ok bytes ∧
    MethodHeader.parse bytes = .ok h

end Machine

/-- What is known of the parts of an image that has been loaded. -/
theorem Image.exists_of_load {bs : Bytes} {mode : PoolMode} {settings : HeapSettings}
    {image : Image} {pools : Pools} {heap : Heap}
    (hok : Image.load bs mode settings = .ok (image, pools, heap)) :
    Blocks.ofBytes (signature.length + 2) (bs.drop (signature.length + 2)) =
        ⟨image.blocks, .eof⟩ ∧
      ∃ l t f, Loader.Tabled image.blocks l ∧ Loader.Pooled image.blocks l ∧
        Loader.Populated settings image.blocks l ∧ l.heap.Opened heap ∧ heap.live = l.heap.live ∧
        pools = l.pools ∧ image.objects = l.objects ∧
        image.metaclasses = t.ensureRequired ∧ l.finish = .ok (t, f, image.entry) := by
  obtain ⟨l, hl⟩ := exists_loadedFrom hok
  obtain ⟨t, f, hfinish, hmetaclasses⟩ := hl.finish
  obtain rfl : heap = l.heap.openHoles := hl.heap
  have hopened :=
    ((Loader.fits_new settings (.new mode bs.toArray)).foldlM hl.taken).refilled.imaged.opened
  have hstart : Loader.Tabled [] { pools := .new mode bs.toArray, heap := .new settings } :=
    Loader.tabled_nil rfl rfl rfl
  obtain ⟨htabled, hpooled, hpopulated⟩ :=
    Loader.gathered_foldlM hstart (Loader.pooled_nil rfl) (Loader.populated_nil rfl rfl) hl.taken
  exact ⟨hl.blocks, l, t, f, htabled, hpooled, hpopulated, hopened, Heap.live_openHoles _, hl.pools,
    hl.objects, hmetaclasses, hfinish⟩

/-- Reading code may change only the pool of code. -/
theorem Pools.get?_readCode {ps : Pools} {ofs : UInt32} {n : Nat} {pool : UInt16} {p : Pool}
    (hp : (ps.readCode ofs n).2.get? pool = some p) :
    ps.get? pool = some p ∨ p = (ps.code.slice ofs).2 ∧ ps.get? pool = some ps.code := by
  rw [get?] at hp ⊢
  by_cases hcode : pool = codePool
  · rw [if_pos hcode] at hp ⊢
    exact .inr ⟨(Option.some.inj hp).symm, rfl⟩
  · rw [if_neg hcode] at hp ⊢
    exact .inl hp

namespace Machine

variable {bs : Bytes} {settings : MachineSettings} {host : Host} {m : Machine}

/-- The parts of a machine that has been loaded. The pools are those of the image after the method
    header at the entry point has been read. -/
theorem parts_of_load (hok : load bs settings host = .ok m) : ∃ pools bytes,
    Image.load bs settings.mode settings.heap = .ok (m.image, pools, m.heap) ∧
      (pools.readCode m.image.entry.codeOfs MethodHeader.size).1 = .ok bytes ∧
      m.pools = (pools.readCode m.image.entry.codeOfs MethodHeader.size).2 := by
  rw [load] at hok
  split at hok
  · cases hok
  obtain ⟨⟨image, pools, heap⟩, himage, hok⟩ := Except.bind_eq_ok.1 hok
  obtain ⟨_, hentry, hok⟩ := Except.bind_eq_ok.1 hok
  obtain ⟨bytes, hbytes, -⟩ := Except.map_eq_ok.1 hentry
  have hm := Except.ok.inj hok
  have himage' : m.image = image := by rw [← hm]
  have hheap : m.heap = heap := by rw [← hm]
  have hpools : m.pools = (pools.readCode image.entry.codeOfs MethodHeader.size).2 := by
    rw [← hm]
    rfl
  exact ⟨pools, bytes, himage' ▸ hheap ▸ himage, himage' ▸ hbytes, himage' ▸ hpools⟩

/-- Whatever bytes a machine is loaded from, it is well formed. -/
theorem accepted_of_load (hok : load bs settings host = .ok m) : m.Accepted bs settings.heap := by
  obtain ⟨_, bytes, himage, hbytes, hpools⟩ := parts_of_load hok
  obtain ⟨hblocks, l, t, f, htabled, hpooled, hpopulated, hopened, hlive, rfl, hobjects,
    hmetaclasses, hfinish⟩ := Image.exists_of_load himage
  obtain ⟨⟨ht, hf, he⟩, hcode, hpages, -, hsupers⟩ := Loader.checked_of_finish hfinish
  have hstocked := hpopulated.stocked
  have hdescribed : List.Forall₂ (DraftObject.Describes t) (m.image.blocks.flatMap Block.records)
      m.image.objects.toList := by
    rw [hobjects]
    refine hpopulated.described.imp fun r d ⟨t', ht', hrd⟩ => ?_
    rw [ht] at ht'
    obtain rfl := Option.some.inj ht'
    exact hrd
  have hbody (d : UInt32 × Object) (hd : d ∈ m.image.objects) :
      ∃ r, DraftObject.Describes t r d := by
    obtain ⟨i, hi, rfl⟩ := List.mem_iff_getElem.1 (Array.mem_toList_iff.2 hd)
    have hi' := hdescribed.length_eq ▸ hi
    exact ⟨_, hdescribed.get hi' hi⟩
  have hnames (d : UInt32 × Object) (hd : d ∈ m.image.objects) : d ∈ l.objects.toList := by
    rwa [← hobjects, Array.mem_toList_iff]
  exact {
    blocks := hblocks
    once := fun tag htag => by
      simp only [List.mem_cons, List.not_mem_nil, or_false] at htag
      rcases htag with rfl | rfl | rfl
      · rw [htabled.metaclasses, ht]
        rfl
      · rw [htabled.functionSets, hf]
        rfl
      · rw [htabled.entryPoints, he]
        rfl
    poolsOnce := hpooled.nodup
    objects := by
      refine ⟨hpopulated.whole, t, htabled.table t ht, hmetaclasses, hdescribed, fun d hd => ?_⟩
      obtain ⟨r, -, hmetaclass, e, hget, hload⟩ := hbody d hd
      exact ⟨e, hmetaclass ▸ hget, (ObjectData.load_wellFormed hload).1⟩
    holds := by
      refine ⟨fun id o => ?_, hlive.trans (hstocked.live.trans (by rw [hobjects]))⟩
      rw [hopened.occupant?, hstocked.holds id o, hobjects]
    numbers := by
      refine ⟨hobjects ▸ hstocked.nodup, fun d hd => ?_⟩
      obtain ⟨hzero, hlt⟩ := hstocked.numbers d (hnames d hd)
      refine ⟨Nat.one_le_iff_ne_zero.2 fun hz => hzero (UInt32.toNat_inj.1 hz), hlt⟩
    supers := fun d hd s hs => by
      obtain ⟨o, ho⟩ := Heap.contains_iff.1 (hsupers d (hnames d hd) s hs)
      obtain ⟨d', hd', hs', -⟩ := (hstocked.holds s o).1 ho
      exact ⟨d', Array.mem_toList_iff.1 (hobjects ▸ hd'), hs'⟩
    bodies := fun d hd => by
      obtain ⟨r, -, -, e, -, hload⟩ := hbody d hd
      exact (ObjectData.load_wellFormed hload).2
    pages := by
      rw [hpools]
      refine ⟨hcode, fun pool p hdefined hp => ?_⟩
      rcases Pools.get?_readCode hp with hsame | ⟨rfl, hsame⟩
      · exact hpages pool p hdefined hsame
      · exact fun hzero => hpages pool _ hdefined hsame ((Pool.loadedPages_slice _ _).1 hzero)
    inBounds := by
      rw [hpools]
      exact ⟨hpooled.inBounds.1.slice _, hpooled.inBounds.2⟩
    sizes := htabled.sizes _ he
    header := by
      obtain ⟨s, -, hs⟩ := Pools.readCode_eq_ok_iff.1 hbytes
      obtain ⟨h, hh⟩ := MethodHeader.exists_parse (Slice.length_of_take? hs).ge
      rw [hpools]
      exact ⟨bytes, h, Pools.readCode_readCode hbytes, hh⟩ }

/-- An image with a class, an instance of it and a lookup table. -/
def family : Bytes :=
  ImageDraft.encode {
    pageSize := 16
    metaclasses := #[("tads-object/030000", []), ("lookuptable", [])]
    code := ([Instr.retNil].foldl Assembler.emit (Assembler.method {})).finish.toArray
    objects := #[⟨1, 0, ObjectData.program [] [(2, .int 7), (1, .nil)]⟩,
      ⟨5, 0, ObjectData.program [1] [(1, .obj (.ofImage 9))]⟩,
      ⟨9, 1, ObjectData.entries [(.int 1, .nil), (.nil, .int 1)]⟩]
    entry? := some 0 }

theorem accepted_of_load_family :
    ∃ m, load family { mode := .paged 1 } {} = .ok m ∧ m.Accepted family {} := by
  have hok : (load family { mode := .paged 1 } {}).isOk = true := by decide +kernel
  cases hm : load family { mode := .paged 1 } {} with
  | error e =>
    rw [hm] at hok
    cases hok
  | ok m => exact ⟨m, rfl, accepted_of_load hm⟩

end Machine

end StoryMachine
