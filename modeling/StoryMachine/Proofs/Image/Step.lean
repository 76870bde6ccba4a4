import StoryMachine.Image.Draft
import StoryMachine.Proofs.Image.Loader

/-!
# What a block adds to an image

Each block of an image that is accepted adds to what has been loaded before it in one of
a few ways, which its tag decides. What is true of all images is proved from these.

* `Block.records?`: the objects that a block gives, as they are written;
* `Loader.Defines`: objects that are defined one after the other;
* `Loader.Step`, `Loader.step_of_block`: what a block adds;
* `Pools.define_eq_ok`, `Pools.addPage_eq_ok`: pools that are defined or get a page;
* `Pool.Survives`, `Loader.all_foldlM`: what stays true of pools while they get their pages.
-/

namespace StoryMachine

variable {bs rest : Bytes} {b : Block}

/-! ## What blocks give -/

namespace Block

/-- The tags of the blocks that add something. -/
def contents : List Bytes :=
  [metaclasses, functionSets, poolDefinition, poolPage, objects, symbols, entryPoint]

/-- An object of a run, whose length takes four bytes if `large`. -/
def record (metaclass : MetaclassId) (large : Bool) : Reader DraftObject := do
  let id ← Reader.u32
  let length ← Reader.nat (if large then 4 else 2)
  let data ← Reader.bytes length
  return { id, metaclass, data }

/-- A run of objects of one metaclass. -/
def recordRun : Reader (List DraftObject) := do
  let n ← Reader.u16
  let metaclass ← Reader.u16
  let flags ← Reader.u16
  Reader.replicate n.toNat (record metaclass (flags &&& 1 != 0))

/-- The objects that a block gives, unless they are not written as they should be. -/
def records? (b : Block) : Option (List DraftObject) :=
  if b.tag = objects then Reader.whole recordRun b.payload else some []

/-- The objects that a block gives. -/
def records (b : Block) : List DraftObject := b.records?.getD []

/-- The block gives the table of metaclasses: their number, and then each of them. -/
def GivesTable (b : Block) (t : MetaclassTable) : Prop :=
  b.tag = metaclasses ∧ ∃ n rest rest', Reader.u16 b.payload = some (n, rest) ∧
    Loader.metaclassEntries n.toNat {} rest = .ok (t, rest')

/-- The number of the pool that a block defines. -/
def definedPool? (b : Block) : Option UInt16 :=
  if b.tag = poolDefinition then (Reader.u16 b.payload).map Prod.fst else none

end Block

/-! ## The ways to add something -/

namespace Loader

variable {l l' : Loader}

/-- Objects are defined one after the other. -/
inductive Defines (kind : Kind) : Loader → List DraftObject → Loader → Prop
  | nil {l : Loader} : Defines kind l [] l
  | cons {l l' : Loader} {r : DraftObject} {records : List DraftObject} {body : Body}
      {id : ObjectId} {heap : Heap} (hbody : ObjectData.load kind r.data = .ok body)
      (hdefine : Heap.define r.id ⟨r.metaclass, body⟩ l.heap = .ok id heap)
      (hrest : Defines kind
        { l with heap, objects := l.objects.push (r.id, ⟨r.metaclass, body⟩) } records l') :
      Defines kind l (r :: records) l'

/-- What a block adds. -/
inductive Step (b : Block) (l : Loader) : Loader → Prop
  | pass (htag : b.tag ∉ Block.contents) : Step b l l
  | metaclasses {t : MetaclassTable} (htable : b.GivesTable t) (hnew : l.metaclasses? = none) :
      Step b l { l with metaclasses? := some t }
  | functionSets {t : FunctionSetTable} (htag : b.tag = Block.functionSets)
      (hnew : l.functionSets? = none) : Step b l { l with functionSets? := some t }
  | pool {pool : UInt16} {rest : Bytes} {pageCount pageSize : UInt32} {pools : Pools}
      (htag : b.tag = Block.poolDefinition) (hpool : Reader.u16 b.payload = some (pool, rest))
      (hdefine : l.pools.define pool pageCount pageSize = .ok pools) : Step b l { l with pools }
  | page {pool : UInt16} {index : UInt32} {mask : UInt8} {data : PageData} {pools : Pools}
      (htag : b.tag = Block.poolPage) (hadd : l.pools.addPage pool index mask data = .ok pools) :
      Step b l { l with pools }
  | objects {l' : Loader} {t : MetaclassTable} {metaclass : MetaclassId} {e : MetaclassEntry}
      {records : List DraftObject} (htag : b.tag = Block.objects)
      (htable : l.metaclasses? = some t) (hentry : t.get? metaclass = some e)
      (hrecords : Reader.whole Block.recordRun b.payload = some records)
      (hmetaclass : ∀ r ∈ records, r.metaclass = metaclass)
      (hdefines : l.Defines e.kind records l') : Step b l l'
  | symbols {exports : Exports} (htag : b.tag = Block.symbols) : Step b l { l with exports }
  | entryPoint {e : EntryPoint} (htag : b.tag = Block.entryPoint) (hnew : l.entry? = none)
      (hheader : MethodHeader.size ≤ e.headerSize.toNat)
      (hexception : ExceptionEntry.size ≤ e.excEntrySize.toNat) :
      Step b l { l with entry? := some e }

theorem step_of_metaclassTable (htag : b.tag = Block.metaclasses)
    (hok : metaclassTable l b.payload = .ok l') : Step b l l' := by
  rw [metaclassTable] at hok
  split at hok
  · cases hok
  next hnew =>
  obtain ⟨⟨n, rest⟩, hcount, hok⟩ := Except.bind_eq_ok.1 hok
  obtain ⟨⟨t, _⟩, hentries, hok⟩ := Except.bind_eq_ok.1 hok
  obtain rfl := Except.ok.inj hok
  exact .metaclasses ⟨htag, n, rest, _, Parser.of_eq_ok.1 hcount, hentries⟩ (by simpa using hnew)

theorem step_of_functionSetTable (htag : b.tag = Block.functionSets)
    (hok : functionSetTable l b.payload = .ok l') : Step b l l' := by
  rw [functionSetTable] at hok
  split at hok
  · cases hok
  next hnew =>
  obtain ⟨_, -, hok⟩ := Except.bind_eq_ok.1 hok
  obtain ⟨_, -, hok⟩ := Except.bind_eq_ok.1 hok
  obtain rfl := Except.ok.inj hok
  exact .functionSets htag (by simpa using hnew)

theorem step_of_poolDefinition (htag : b.tag = Block.poolDefinition)
    (hok : poolDefinition l b.payload = .ok l') : Step b l l' := by
  obtain ⟨⟨⟨pool, pageCount, pageSize⟩, _⟩, hfields, hok⟩ := Except.bind_eq_ok.1 hok
  obtain ⟨pools, hdefine, hok⟩ := Except.bind_eq_ok.1 hok
  obtain rfl := Except.ok.inj hok
  obtain ⟨mid, hpool⟩ := Reader.exists_of_triple (Parser.of_eq_ok.1 hfields)
  exact .pool htag hpool hdefine

theorem step_of_poolPage (htag : b.tag = Block.poolPage) (hok : poolPage l b = .ok l') :
    Step b l l' := by
  rw [poolPage] at hok
  by_cases hsize : b.size.toNat < pageFieldsSize
  · rw [if_pos hsize] at hok
    cases hok
  rw [if_neg hsize] at hok
  dsimp only at hok
  split at hok
  · cases hok
  obtain ⟨p, -, hok⟩ := Except.bind_eq_ok.1 hok
  have hadd {pool : UInt16} {index : UInt32} {mask : UInt8} {data : Except Failure PageData}
      (hok : (data >>= fun data => l.pools.addPage pool index mask data >>= fun pools =>
        pure { l with pools }) = .ok l') : Step b l l' := by
    obtain ⟨data, -, hok⟩ := Except.bind_eq_ok.1 hok
    obtain ⟨pools, hadd, hok⟩ := Except.bind_eq_ok.1 hok
    obtain rfl := Except.ok.inj hok
    exact .page htag hadd
  -- The data is left in the image, or is taken as it is, or is not all there.
  split at hok
  · exact hadd hok
  split at hok
  · exact hadd hok
  · exact hadd hok

/-- The objects that are read are those that are defined. -/
theorem defines_of_objectEntries {metaclass : MetaclassId} {kind : Kind} {large : Bool} {n : Nat}
    (read : List DraftObject)
    (hok : objectEntries metaclass kind large n l bs = .ok (l', rest)) :
    ∃ records, Reader.replicateAfter (Block.record metaclass large) n read bs =
        some (read.reverse ++ records, rest) ∧
      (∀ r ∈ records, r.metaclass = metaclass) ∧ l.Defines kind records l' := by
  induction n generalizing l bs read with
  | zero =>
    obtain ⟨rfl, rfl⟩ := Parser.pure_eq_ok.1 hok
    exact ⟨[], by simp [Reader.replicateAfter, pure, StateT.pure], by simp, .nil⟩
  | succ n ih =>
    obtain ⟨id, _, length, _, data, mid, body, _, heap, hid, hlength, hdata, hload, hdefine, hok⟩ :=
      objectEntries_succ_eq_ok.1 hok
    -- The same three fields make a record.
    have hrecord : Block.record metaclass large bs = some (⟨id, metaclass, data⟩, mid) :=
      Reader.bind_eq_some.2 ⟨id, _, Parser.of_eq_ok.1 hid, Reader.bind_eq_some.2
        ⟨length, _, Parser.of_eq_ok.1 hlength, Reader.bind_eq_some.2
          ⟨data, _, Parser.of_eq_ok.1 hdata, rfl⟩⟩⟩
    obtain ⟨records, hrecords, hmetaclass, hdefines⟩ := ih (⟨id, metaclass, data⟩ :: read) hok
    refine ⟨⟨id, metaclass, data⟩ :: records, ?_, ?_, .cons hload hdefine hdefines⟩
    · rw [List.reverse_cons, List.append_assoc] at hrecords
      exact Reader.bind_eq_some.2 ⟨_, _, hrecord, hrecords⟩
    · exact List.forall_mem_cons.2 ⟨rfl, hmetaclass⟩

theorem step_of_objectRun (htag : b.tag = Block.objects)
    (hok : objectRun l b.payload = .ok l') : Step b l l' := by
  rw [objectRun] at hok
  split at hok
  · cases hok
  next t htable =>
  obtain ⟨⟨⟨n, metaclass, flags⟩, mid⟩, hfields, hok⟩ := Except.bind_eq_ok.1 hok
  dsimp only at hok
  split at hok
  · cases hok
  next e hentry =>
  obtain ⟨⟨l₁, rest⟩, hentries, hok⟩ := Except.bind_eq_ok.1 hok
  dsimp only at hok
  split at hok
  · cases hok
  next hrest =>
  obtain rfl := Except.ok.inj hok
  obtain rfl := not_not.1 hrest
  -- What follows the fields is a record for each object.
  obtain ⟨records, hread, hmetaclass, hdefines⟩ := defines_of_objectEntries [] hentries
  refine .objects htag htable hentry ?_ hmetaclass hdefines
  obtain ⟨_, _, hn, hfields⟩ := Reader.bind_eq_some.1 (Parser.of_eq_ok.1 hfields)
  obtain ⟨_, _, hm, hfields⟩ := Reader.bind_eq_some.1 hfields
  obtain ⟨_, _, hf, hfields⟩ := Reader.bind_eq_some.1 hfields
  obtain ⟨heq, rfl⟩ := Reader.pure_eq_some.1 hfields
  simp only [Prod.mk.injEq] at heq
  obtain ⟨rfl, rfl, rfl⟩ := heq
  have hrun : Block.recordRun b.payload = some (records, []) :=
    Reader.bind_eq_some.2 ⟨_, _, hn, Reader.bind_eq_some.2 ⟨_, _, hm, Reader.bind_eq_some.2
      ⟨_, _, hf, hread⟩⟩⟩
  rw [Reader.whole, hrun]

theorem step_of_entryPoint (htag : b.tag = Block.entryPoint)
    (hok : entryPoint l b.payload = .ok l') : Step b l l' := by
  rw [entryPoint] at hok
  split at hok
  · cases hok
  next hnew =>
  obtain ⟨⟨e, _⟩, -, hok⟩ := Except.bind_eq_ok.1 hok
  dsimp only at hok
  split at hok
  · cases hok
  next hheader =>
  split at hok
  · cases hok
  next hexception =>
  obtain rfl := Except.ok.inj hok
  exact .entryPoint htag (by simpa using hnew) (not_lt.1 hheader) (not_lt.1 hexception)

/-- The tag of a block decides what it adds. -/
theorem step_of_block (hok : block l b = .ok l') : Step b l l' := by
  have hpayload {f : Bytes → Except Failure Loader} (hok : payload b >>= f = .ok l') :
      f b.payload = .ok l' := by
    obtain ⟨bs, hbs, hok⟩ := Except.bind_eq_ok.1 hok
    rw [payload] at hbs
    split at hbs
    · exact Except.ok.inj hbs ▸ hok
    · cases hbs
  rw [block] at hok
  split at hok
  · next heof =>
    obtain rfl := Except.ok.inj hok
    exact .pass (heof ▸ by decide +kernel)
  split at hok
  · next htag => exact step_of_metaclassTable htag (hpayload hok)
  next hmetaclasses =>
  split at hok
  · next htag => exact step_of_functionSetTable htag (hpayload hok)
  next hfunctionSets =>
  split at hok
  · next htag => exact step_of_poolDefinition htag (hpayload hok)
  next hpool =>
  split at hok
  · next htag => exact step_of_poolPage htag hok
  next hpage =>
  split at hok
  · next htag => exact step_of_objectRun htag (hpayload hok)
  next hobjects =>
  split at hok
  · next htag =>
    obtain ⟨_, -, hok⟩ := Except.bind_eq_ok.1 (hpayload hok)
    obtain ⟨_, -, hok⟩ := Except.bind_eq_ok.1 hok
    obtain rfl := Except.ok.inj hok
    exact .symbols htag
  next hsymbols =>
  split at hok
  · next htag => exact step_of_entryPoint htag (hpayload hok)
  next hentry =>
  split at hok
  · cases hok
  · -- The tag is none of those that add something.
    obtain rfl := Except.ok.inj hok
    refine .pass ?_
    simp [Block.contents, hmetaclasses, hfunctionSets, hpool, hpage, hobjects, hsymbols, hentry]

theorem Defines.frame {kind : Kind} {records : List DraftObject}
    (hd : l.Defines kind records l') : l'.metaclasses? = l.metaclasses? ∧
      l'.functionSets? = l.functionSets? ∧ l'.entry? = l.entry? ∧ l'.pools = l.pools := by
  induction hd with
  | nil => exact ⟨rfl, rfl, rfl, rfl⟩
  | cons _ _ _ ih => exact ih

end Loader

/-! ## Pools as they are loaded -/

namespace Pools

variable {ps : Pools} {pool : UInt16}

/-- One of the two pools is defined, which has not been defined before. -/
theorem define_eq_ok {ps' : Pools} {pageCount pageSize : UInt32}
    (hok : ps.define pool pageCount pageSize = .ok ps') : ps.isDefined pool = false ∧
      ((∃ p, pool = codePool ∧ ps.code.define pageCount pageSize = .ok p ∧
          ps' = { ps with code := p, codeDefined := true }) ∨
        ∃ p, pool = constantPool ∧ ps.constant.define pageCount pageSize = .ok p ∧
          ps' = { ps with constant := p, constantDefined := true }) := by
  rw [Pools.define] at hok
  obtain ⟨hnew, hok⟩ := Except.guard_eq_ok.1 hok
  obtain ⟨p, hp, hok⟩ := Except.bind_eq_ok.1 hok
  obtain ⟨p', hdefine, hok⟩ := Except.bind_eq_ok.1 hok
  obtain rfl := Except.ok.inj hok
  refine ⟨Bool.eq_false_iff.2 hnew, ?_⟩
  rcases eq_of_get?_eq_some (get_eq_ok_iff.1 hp) with ⟨rfl, rfl⟩ | ⟨rfl, rfl⟩
  · exact .inl ⟨p', rfl, hdefine, rfl⟩
  · exact .inr ⟨p', rfl, hdefine, rfl⟩

/-- One of them gets the page, and the other stays as it is. -/
theorem addPage_eq_ok {ps' : Pools} {index : UInt32} {mask : UInt8} {data : PageData}
    (hok : ps.addPage pool index mask data = .ok ps') :
    (∃ p, pool = codePool ∧ ps.code.addPage index mask data = .ok p ∧
        ps' = { ps with code := p }) ∨
      ∃ p, pool = constantPool ∧ ps.constant.addPage index mask data = .ok p ∧
        ps' = { ps with constant := p } := by
  obtain ⟨p, hp, hok⟩ := Except.bind_eq_ok.1 hok
  obtain ⟨p', hadd, hok⟩ := Except.bind_eq_ok.1 hok
  obtain rfl := Except.ok.inj hok
  rcases eq_of_get?_eq_some (get_eq_ok_iff.1 hp) with ⟨rfl, rfl⟩ | ⟨rfl, rfl⟩
  · exact .inl ⟨p', rfl, hadd, rfl⟩
  · exact .inr ⟨p', rfl, hadd, rfl⟩

end Pools

/-- What stays true of a pool while an image gives it its pages. -/
structure Pool.Survives (P : Pool → Prop) : Prop where
  /-- It stays true when the pool is defined, -/
  define {p p' : Pool} {pageCount pageSize : UInt32} :
    P p → p.define pageCount pageSize = .ok p' → P p'
  /-- and when it gets one more page. -/
  addPage {p p' : Pool} {index : UInt32} {mask : UInt8} {data : PageData} :
    P p → p.addPage index mask data = .ok p' → P p'

theorem Pool.survives_isPaged (paged : Bool) : Survives fun p => p.isPaged = paged where
  define {p _ _ _} hp hok := by
    cases p <;> (obtain ⟨_, -, rfl⟩ := Except.map_eq_ok.1 hok; exact hp)
  addPage {p _ _ _ _} hp hok := by
    cases p <;> (obtain ⟨_, -, rfl⟩ := Except.map_eq_ok.1 hok; exact hp)

theorem Pool.survives_inBounds : Survives InBounds where
  define _ hok := inBounds_define hok
  addPage hp hok := hp.addPage hok

/-- It is true of both pools. -/
structure Pools.All (P : Pool → Prop) (ps : Pools) : Prop where
  /-- It is of that of code. -/
  code : P ps.code
  /-- So it is of that of constants. -/
  constant : P ps.constant

section Survives

variable {P : Pool → Prop} (hP : Pool.Survives P)

include hP

theorem Pools.All.define {ps ps' : Pools} {pool : UInt16} {pageCount pageSize : UInt32}
    (hps : ps.All P) (hok : ps.define pool pageCount pageSize = .ok ps') : ps'.All P := by
  rcases (define_eq_ok hok).2 with ⟨p, -, hdefine, rfl⟩ | ⟨p, -, hdefine, rfl⟩
  · exact ⟨hP.define hps.code hdefine, hps.constant⟩
  · exact ⟨hps.code, hP.define hps.constant hdefine⟩

theorem Pools.All.addPage {ps ps' : Pools} {pool : UInt16} {index : UInt32} {mask : UInt8}
    {data : PageData} (hps : ps.All P) (hok : ps.addPage pool index mask data = .ok ps') :
    ps'.All P := by
  rcases addPage_eq_ok hok with ⟨p, -, hadd, rfl⟩ | ⟨p, -, hadd, rfl⟩
  · exact ⟨hP.addPage hps.code hadd, hps.constant⟩
  · exact ⟨hps.code, hP.addPage hps.constant hadd⟩

theorem Loader.Step.all {l l' : Loader} (hb : Step b l l') (hl : l.pools.All P) :
    l'.pools.All P := by
  cases hb with
  | pool _ _ hdefine => exact hl.define hP hdefine
  | page _ hadd => exact hl.addPage hP hadd
  | objects _ _ _ _ _ hdefines => exact hdefines.frame.2.2.2 ▸ hl
  | _ => exact hl

theorem Loader.all_foldlM {l l' : Loader} {blocks : List Block} (hl : l.pools.All P)
    (hok : blocks.foldlM Loader.block l = .ok l') : l'.pools.All P :=
  foldlM_keeps (P := fun l => l.pools.All P) (fun hl hb => (step_of_block hb).all hP hl) hl hok

end Survives

end StoryMachine
