import StoryMachine.Proofs.Image.Accepted
import StoryMachine.Proofs.Image.Written
import StoryMachine.Proofs.Pool.Pages
import StoryMachine.Proofs.Value.Portable

/-!
# Loading what was written

Each kind of block that a draft has is taken in, and adds to an image what the draft holds.

* `Loader.Adds`: what blocks add, wherever they are in an image;
* `Loader.Takes.adds`: what the payload of a block adds is what takes it in;
* `MetaclassEntry.Answers`, `LoadedSet.Answers`: what a dependency asks for;
* `Loader.adds_metaclasses`, `Loader.adds_functionSets`: the tables of dependencies;
* `Loader.adds_pool`: a pool and its pages;
* `Loader.adds_groups`: objects, which stand in runs of one metaclass;
* `Loader.adds_symbols`, `Loader.adds_entryPoint`: exported values and the entry point.
-/

namespace StoryMachine

/-! ## Blocks one after the other -/

theorem Block.wellFormed_of_mem_contents : ∀ tag ∈ contents, tag.length = 4 ∧ tag ≠ eof := by
  decide +kernel

theorem DraftBlock.fits_of_mem_contents {b : DraftBlock} (htag : b.tag ∈ Block.contents)
    (hpayload : b.payload.length < 2 ^ 32) : b.Fits :=
  ⟨(Block.wellFormed_of_mem_contents _ htag).1, hpayload⟩

theorem DraftBlock.exists_placed_append (bs bs' : List DraftBlock) (place : Nat) :
    ∃ place', placed place (bs ++ bs') = placed place bs ++ placed place' bs' := by
  induction bs generalizing place with
  | nil => exact ⟨place, rfl⟩
  | cons b bs ih =>
    obtain ⟨place', hplace'⟩ := ih (place + (Block.headerSize + b.payload.length))
    refine ⟨place', ?_⟩
    rw [List.cons_append, placed, hplace']
    rfl

namespace Loader

variable {l l₁ l' : Loader} {b : DraftBlock} {bs bs' : List DraftBlock} {place : Nat}

/-- What blocks add to what has been loaded, wherever they are in the image. -/
def Adds (bs : List DraftBlock) (l l' : Loader) : Prop :=
  ∀ place, (DraftBlock.placed place bs).foldlM block l = .ok l'

theorem Adds.nil (l : Loader) : Adds [] l l := fun _ => rfl

theorem Adds.single (hb : ∀ place, block l (b.block place) = .ok l') : Adds [b] l l' := by
  intro place
  change (block l (b.block place) >>= fun l => pure l) = _
  rw [hb]
  rfl

theorem Adds.append (hbs : Adds bs l l₁) (hbs' : Adds bs' l₁ l') : Adds (bs ++ bs') l l' := by
  intro place
  obtain ⟨place', hplaced⟩ := DraftBlock.exists_placed_append bs bs' place
  rw [hplaced, List.foldlM_append, hbs]
  exact hbs' place'

/-- A block adds what its payload adds. -/
theorem Takes.adds {tag payload : Bytes} {mandatory : Bool}
    {take : Loader → Bytes → Except Failure Loader} (htake : Takes tag take)
    (hpayload : payload.length < 2 ^ 32) (hok : take l payload = .ok l') :
    Adds [⟨tag, mandatory, payload⟩] l l' := by
  have hmem : tag ∈ Block.contents := by
    cases htake <;> simp [Block.contents]
  have hfits : (DraftBlock.mk tag mandatory payload).Fits :=
    DraftBlock.fits_of_mem_contents hmem hpayload
  refine .single fun place => ?_
  have hread : Loader.payload ((DraftBlock.mk tag mandatory payload).block place) = .ok payload :=
    if_pos (hfits.isComplete place)
  have htag : ((DraftBlock.mk tag mandatory payload).block place).tag = tag := rfl
  rw [htake.block_eq htag, hread]
  exact hok

end Loader

/-! ## Dependencies -/

/-- The entry is what a dependency asks for, and its version is not too high. -/
structure MetaclassEntry.Answers (e : MetaclassEntry) (dep : String) (props : List PropId) :
    Prop where
  /-- The kind has the name that the dependency gives. -/
  kind : ∃ name, Dependency.parse dep "MCLD" = .ok (name, e.requested) ∧
    Kind.ofName? name = some e.kind
  /-- The kind has the version that is asked for, or a later one. -/
  version : e.requested ≤ e.kind.version
  /-- The properties are the given ones. -/
  props : e.props = props

/-- The set is what a dependency asks for, in the latest version. -/
structure LoadedSet.Answers (s : LoadedSet) (dep : String) : Prop where
  /-- The set has the name that the dependency gives. -/
  set : ∃ name, Dependency.parse dep "FNSD" = .ok (name, s.requested) ∧
    FunctionSet.ofName? name = some s.set
  /-- No version of it is later. -/
  latest : s.selected = (s.set.versions.map Prod.fst).foldl max 0
  /-- It is not earlier than the one that is asked for. -/
  version : s.requested ≤ s.selected

theorem Dependency.negotiate_of_le {name : String} {requested : Version} {available : List Version}
    (hle : requested ≤ available.foldl max 0) :
    negotiate name requested available = .ok (available.foldl max 0) := if_neg (not_lt.2 hle)

theorem MetaclassEntry.Answers.add {e : MetaclassEntry} {dep : String} {props : List PropId}
    (he : e.Answers dep props) (t : MetaclassTable) :
    t.add dep props = .ok (.ofNat t.entries.size, ⟨t.entries.push e⟩) := by
  obtain ⟨name, hparse, hkind⟩ := he.kind
  have hversion : Dependency.negotiate name e.requested [e.kind.version] = .ok _ :=
    Dependency.negotiate_of_le (he.version.trans (Nat.le_max_right 0 _))
  refine Except.bind_eq_ok.2 ⟨_, hparse, ?_⟩
  dsimp only
  rw [hkind, ← he.props]
  exact Except.bind_eq_ok.2 ⟨_, hversion, rfl⟩

theorem LoadedSet.Answers.add {s : LoadedSet} {dep : String} (hs : s.Answers dep)
    {t : FunctionSetTable} (ht : t.sets.size < 256) :
    t.add dep = .ok (.ofNat t.sets.size, ⟨t.sets.push s⟩) := by
  obtain ⟨name, hparse, hset⟩ := hs.set
  have hversion : Dependency.negotiate name s.requested (s.set.versions.map Prod.fst) =
      .ok s.selected := by
    rw [hs.latest]
    exact Dependency.negotiate_of_le (hs.latest ▸ hs.version)
  refine Except.bind_eq_ok.2 ⟨_, hparse, ?_⟩
  dsimp only
  rw [hset]
  exact Except.bind_eq_ok.2 ⟨_, hversion, if_neg (not_le.2 ht)⟩

namespace Loader

variable {l : Loader}

theorem reads_part {α : Type} {r : Reader α} {bs : Bytes} {a : α} (hr : r.Reads bs a)
    (tag : String) : Parser.Reads (part tag r) bs a := .of hr _

/-- A count that can be written is read back. -/
theorem reads_count {n : Nat} (hn : n ≤ 65535) (tag : String) :
    Parser.Reads (part tag Reader.u16) (ObjectData.count n) (UInt16.ofNat n) ∧
      (UInt16.ofNat n).toNat = n :=
  ⟨reads_part (Reader.reads_u16 _) tag, UInt16.toNat_ofNat_of_lt' (Nat.lt_succ_of_le hn)⟩

/-! ### The table of metaclasses -/

variable {dep : String} {props : List PropId}

theorem length_props_le (hentry : (ImageDraft.entryBytes dep props).length ≤ 65535) :
    props.length ≤ 65535 := by
  have hflat : (props.flatMap Bytes.u16).length = 2 * props.length := by
    simp [List.length_flatMap, Bytes.u16, Bytes.length_ofNat, Nat.mul_comm]
  rw [ImageDraft.entryBytes, List.length_append, hflat] at hentry
  omega

theorem reads_metaclassEntry (hdep : (Bytes.ofText dep).length ≤ 255)
    (hentry : (ImageDraft.entryBytes dep props).length ≤ 65535) :
    Parser.Reads metaclassEntry (ImageDraft.entryBytes dep props) (dep, props) := by
  obtain ⟨hcount, hn⟩ := reads_count (length_props_le hentry) "MCLD"
  rw [ImageDraft.entryBytes, List.append_assoc, List.append_assoc]
  refine (reads_part (Reader.reads_shortName hdep) _).bind (hcount.bind ?_)
  refine (reads_part (Reader.reads_u16 2) _).bind (.guard (by decide) ?_)
  rw [hn]
  have hprop (p : PropId) : Reader.Reads (do
      let bs ← Reader.bytes (UInt16.toNat 2)
      return UInt16.ofNat (Bytes.toNat (bs.take 2))) (Bytes.u16 p) p := by
    have hlength : (Bytes.u16 p).length = 2 := Bytes.length_ofNat 2 _
    have hread := (Reader.reads_bytes (Bytes.u16 p)).map fun bs =>
      UInt16.ofNat (Bytes.toNat (bs.take 2))
    have hback : Bytes.toNat (Bytes.u16 p) = p.toNat := Bytes.toNat_ofNat p.toNat_lt
    rwa [List.take_of_length_le hlength.le, hback, UInt16.ofNat_toNat, hlength] at hread
  exact .last (reads_part (Reader.reads_replicate fun p _ => hprop p) _) (.pure _)

theorem reads_metaclassEntries {ps : List (String × List PropId)} {es : List MetaclassEntry}
    (hes : List.Forall₂ (fun p e => MetaclassEntry.Answers e p.1 p.2) ps es)
    (hnames : ∀ p ∈ ps, (Bytes.ofText p.1).length ≤ 255)
    (hentries : ∀ p ∈ ps, (ImageDraft.entryBytes p.1 p.2).length ≤ 65535) (t : MetaclassTable) :
    Parser.Reads (metaclassEntries ps.length t)
      (ps.flatMap fun (dep, props) => ImageDraft.metaclassEntry dep props)
      ⟨t.entries ++ es.toArray⟩ := by
  induction hes generalizing t with
  | nil =>
    rw [Array.append_empty]
    exact .pure t
  | @cons p e ps es he hes ih =>
    obtain ⟨hname, hnames⟩ := List.forall_mem_cons.1 hnames
    obtain ⟨hentry, hentries⟩ := List.forall_mem_cons.1 hentries
    -- An entry is cut off by its length, and then read by itself.
    obtain ⟨hcount, hn⟩ := reads_count hentry "MCLD"
    have hrest := ih hnames hentries ⟨t.entries.push e⟩
    have hbytes := Reader.reads_bytes (ImageDraft.entryBytes p.1 p.2)
    rw [← hn] at hbytes
    have hall : t.entries ++ (e :: es).toArray = t.entries.push e ++ es.toArray := by simp
    rw [hall]
    change Parser.Reads _ (ObjectData.count (ImageDraft.entryBytes p.1 p.2).length ++
      ImageDraft.entryBytes p.1 p.2 ++ _) _
    rw [List.append_assoc]
    refine hcount.bind ((reads_part hbytes _).bind ?_)
    exact .lift (reads_metaclassEntry hname hentry).whole (.lift (he.add t) hrest)

/-- The table of metaclasses is taken in. -/
theorem adds_metaclasses {d : ImageDraft} {es : List MetaclassEntry}
    (hl : l.metaclasses? = none) (hsize : d.metaclasses.size ≤ 65535)
    (hes : List.Forall₂ (fun p e => MetaclassEntry.Answers e p.1 p.2) d.metaclasses.toList es)
    (hnames : ∀ p ∈ d.metaclasses, (Bytes.ofText p.1).length ≤ 255)
    (hentries : ∀ p ∈ d.metaclasses, (ImageDraft.entryBytes p.1 p.2).length ≤ 65535)
    (hpayload : d.metaclassPayload.length < 2 ^ 32) :
    Adds [⟨Block.metaclasses, true, d.metaclassPayload⟩] l
      { l with metaclasses? := some ⟨es.toArray⟩ } := by
  obtain ⟨hcount, hn⟩ := reads_count hsize "MCLD"
  have hread := reads_metaclassEntries hes (fun p hp => hnames p (Array.mem_toList_iff.1 hp))
    (fun p hp => hentries p (Array.mem_toList_iff.1 hp)) {}
  rw [Array.length_toList, ← hn, Array.empty_append] at hread
  refine Takes.metaclasses.adds hpayload ?_
  rw [metaclassTable, hl]
  refine Except.guard_eq_ok.2 ⟨Bool.false_ne_true, ?_⟩
  refine Except.bind_eq_ok.2 ⟨_, hcount _, ?_⟩
  exact Except.bind_eq_ok.2 ⟨_, hread.whole, rfl⟩

/-! ### The table of function sets -/

theorem reads_functionSetEntries {deps : List String} {ss : List LoadedSet}
    (hss : List.Forall₂ (fun dep s => LoadedSet.Answers s dep) deps ss)
    (hnames : ∀ dep ∈ deps, (Bytes.ofText dep).length ≤ 255) {t : FunctionSetTable}
    (ht : t.sets.size + deps.length ≤ 256) :
    Parser.Reads (functionSetEntries deps.length t) (deps.flatMap Bytes.name)
      ⟨t.sets ++ ss.toArray⟩ := by
  induction hss generalizing t with
  | nil =>
    rw [Array.append_empty]
    exact .pure t
  | @cons dep s deps ss hs hss ih =>
    obtain ⟨hname, hnames⟩ := List.forall_mem_cons.1 hnames
    rw [List.length_cons] at ht
    have hsize : (t.sets.push s).size + deps.length ≤ 256 := by
      rw [Array.size_push]
      omega
    have hall : t.sets ++ (s :: ss).toArray = t.sets.push s ++ ss.toArray := by simp
    rw [List.flatMap_cons, hall]
    refine (reads_part (Reader.reads_shortName hname) _).bind ?_
    exact .lift (hs.add (by omega)) (ih hnames (t := ⟨t.sets.push s⟩) hsize)

/-- The table of function sets is taken in. -/
theorem adds_functionSets {d : ImageDraft} {ss : List LoadedSet}
    (hl : l.functionSets? = none) (hsize : d.functionSets.size ≤ 256)
    (hss : List.Forall₂ (fun dep s => LoadedSet.Answers s dep) d.functionSets.toList ss)
    (hnames : ∀ dep ∈ d.functionSets, (Bytes.ofText dep).length ≤ 255)
    (hpayload : d.functionSetPayload.length < 2 ^ 32) :
    Adds [⟨Block.functionSets, true, d.functionSetPayload⟩] l
      { l with functionSets? := some ⟨ss.toArray⟩ } := by
  obtain ⟨hcount, hn⟩ := reads_count (hsize.trans (by decide)) "FNSD"
  have hread := reads_functionSetEntries hss (fun dep h => hnames dep (Array.mem_toList_iff.1 h))
    (t := {}) ((Nat.zero_add _).trans_le hsize)
  rw [Array.length_toList, ← hn, Array.empty_append] at hread
  refine Takes.functionSets.adds hpayload ?_
  rw [functionSetTable, hl]
  refine Except.guard_eq_ok.2 ⟨Bool.false_ne_true, ?_⟩
  refine Except.bind_eq_ok.2 ⟨_, hcount _, ?_⟩
  exact Except.bind_eq_ok.2 ⟨_, hread.whole, rfl⟩

end Loader

/-! ## Pools -/

namespace Pools

variable {ps ps₁ ps' : Pools} {pool : UInt16} {q q' : MemoryPool} {p p' : Pool}

/-- The pool with a number is another one, which is defined. -/
structure Replaced (ps ps' : Pools) (pool : UInt16) (p : Pool) : Prop where
  /-- The pool. -/
  same : ps'.get? pool = some p
  /-- Other pools are the same. -/
  others : ∀ other, other ≠ pool → ps'.get? other = ps.get? other
  /-- No other pool has been defined. -/
  defined : ∀ other, ps'.isDefined other = true ↔ other = pool ∨ ps.isDefined other = true

theorem Replaced.trans (hps : ps.Replaced ps₁ pool p) (hps' : ps₁.Replaced ps' pool p') :
    ps.Replaced ps' pool p' := by
  refine ⟨hps'.same, fun other hne => ?_, fun other => ?_⟩
  · rw [hps'.others other hne, hps.others other hne]
  · rw [hps'.defined, hps.defined, or_self_left]

theorem replaced_self (hp : ps.get? pool = some p) (hdefined : ps.isDefined pool = true) :
    ps.Replaced ps pool p :=
  ⟨hp, fun _ _ => rfl, fun _ => ⟨.inr, fun h => h.elim (fun heq => heq ▸ hdefined) id⟩⟩

theorem Replaced.isDefined (hps : ps.Replaced ps' pool p) : ps'.isDefined pool = true :=
  (hps.defined pool).2 (.inl rfl)

theorem get?_set (hp : ps.get? pool = some p) (p' : Pool) (other : UInt16) :
    (ps.set pool p').get? other = if other = pool then some p' else ps.get? other := by
  rcases eq_of_get?_eq_some hp with ⟨rfl, -⟩ | ⟨rfl, -⟩
  · by_cases hother : other = codePool
    · rw [if_pos hother, get?, if_pos hother]
      rfl
    · rw [if_neg hother, get?, get?, if_neg hother, if_neg hother]
      rfl
  · by_cases hother : other = constantPool
    · subst hother
      rfl
    · rw [if_neg hother, get?, get?, if_neg hother, if_neg hother]
      rfl

/-- A pool that is put in place of another one. -/
theorem replaced_set (hp : ps.get? pool = some p) (hdefined : ps.isDefined pool = true) :
    ps.Replaced (ps.set pool p') pool p' := by
  have hsame (other : UInt16) : (ps.set pool p').isDefined other = ps.isDefined other := by
    rw [set]
    split
    · rfl
    split <;> rfl
  refine ⟨?_, fun other hne => ?_, fun other => ?_⟩
  · rw [get?_set hp, if_pos rfl]
  · rw [get?_set hp, if_neg hne]
  · rw [hsame]
    exact ⟨.inr, fun h => h.elim (fun heq => heq ▸ hdefined) id⟩

theorem exists_define (hq : ps.get? pool = some (.memory q)) (hnew : ps.isDefined pool = false)
    (pageCount : UInt32) {pageSize : UInt32} (hsize : pageSize ≠ 0) :
    ∃ ps', ps.define pool pageCount pageSize = .ok ps' ∧ ps.Replaced ps' pool
      (.memory { geometry := { q.geometry with pageCount, pageSize } }) := by
  have hdefine : (Pool.memory q).define pageCount pageSize =
      .ok (.memory { geometry := { q.geometry with pageCount, pageSize } }) := by
    rw [Pool.define, MemoryPool.define, Geometry.define, if_neg hsize]
    rfl
  have hnew' : ¬ps.isDefined pool = true := by
    rw [hnew]
    exact Bool.false_ne_true
  have hok : ps.define pool pageCount pageSize = .ok (if pool = codePool
      then { ps.set pool (.memory ⟨{ q.geometry with pageCount, pageSize }, #[]⟩) with
        codeDefined := true }
      else { ps.set pool (.memory ⟨{ q.geometry with pageCount, pageSize }, #[]⟩) with
        constantDefined := true }) := by
    rw [Pools.define]
    exact Except.guard_eq_ok.2 ⟨hnew', Except.bind_eq_ok.2
      ⟨_, get_eq_ok_iff.2 hq, Except.bind_eq_ok.2 ⟨_, hdefine, rfl⟩⟩⟩
  have hget (ps : Pools) (other : UInt16) : (if pool = codePool then { ps with codeDefined := true }
      else { ps with constantDefined := true } : Pools).get? other = ps.get? other := by
    split <;> rfl
  refine ⟨_, hok, ?_, fun other hne => ?_, (defined_of_define hok).2⟩
  · rw [hget, get?_set hq, if_pos rfl]
  · rw [hget, get?_set hq, if_neg hne]

theorem exists_addPage {index : UInt32} {mask : UInt8} {data : PageData}
    (hq : ps.get? pool = some (.memory q)) (hdefined : ps.isDefined pool = true)
    (hok : q.addPage index mask data = .ok q') :
    ∃ ps', ps.addPage pool index mask data = .ok ps' ∧ ps.Replaced ps' pool (.memory q') := by
  have hadd : (Pool.memory q).addPage index mask data = .ok (.memory q') := by
    rw [Pool.addPage, hok]
    rfl
  refine ⟨ps.set pool (.memory q'), ?_, replaced_set hq hdefined⟩
  exact Except.bind_eq_ok.2 ⟨_, get_eq_ok_iff.2 hq, Except.bind_eq_ok.2 ⟨_, hadd, rfl⟩⟩

end Pools

namespace Loader

variable {l : Loader} {d : ImageDraft} {pool : UInt16} {q : MemoryPool}

/-- The definition of a pool is taken in. -/
theorem adds_poolDefinition (hq : l.pools.get? pool = some (.memory q))
    (hnew : l.pools.isDefined pool = false) (hsize : d.pageSize ≠ 0) (bs : Bytes) :
    ∃ ps', Adds [d.poolDefinition pool bs] l { l with pools := ps' } ∧ l.pools.Replaced ps' pool
      (.memory { geometry := { q.geometry with
        pageCount := .ofNat (d.pagesOf bs).length, pageSize := d.pageSize } }) := by
  have hlength : (d.poolDefinition pool bs).payload.length = 10 := by
    simp only [ImageDraft.poolDefinition, List.length_append, Bytes.u16, Bytes.u32,
      Bytes.length_ofNat]
  obtain ⟨ps', hdefine, hreplaced⟩ :=
    Pools.exists_define hq hnew (.ofNat (d.pagesOf bs).length) hsize
  refine ⟨ps', Takes.poolDefinition.adds (hlength.trans_lt (by decide)) ?_, hreplaced⟩
  have hfields : Reader.Reads (do return (← Reader.u16, ← Reader.u32, ← Reader.u32))
      (d.poolDefinition pool bs).payload
      (pool, UInt32.ofNat (d.pagesOf bs).length, d.pageSize) := by
    have hread := (Reader.reads_u32 d.pageSize).map fun size =>
      (pool, UInt32.ofNat (d.pagesOf bs).length, size)
    rw [ImageDraft.poolDefinition, List.append_assoc]
    exact (Reader.reads_u16 pool).bind ((Reader.reads_u32 _).bind hread)
  refine Except.bind_eq_ok.2 ⟨_, (reads_part hfields "CPDF").whole, ?_⟩
  exact Except.bind_eq_ok.2 ⟨_, hdefine, rfl⟩

theorem length_poolPage (d : ImageDraft) (pool : UInt16) (page : Bytes) (i : Nat) :
    (d.poolPage pool page i).payload.length = page.length + 7 := by
  simp only [ImageDraft.poolPage, List.length_append, List.length_cons, List.length_map,
    Bytes.u16, Bytes.u32, Bytes.length_ofNat]
  omega

/-- A page is taken in after the last one. -/
theorem adds_poolPage {all : List Bytes} {page : Bytes}
    (hq : l.pools.get? pool = some (.memory q)) (hdefined : l.pools.isDefined pool = true)
    (hall : q.HasPages all) (hcount : all.length < q.geometry.pageCount.toNat)
    (hpage : page.length ≤ q.geometry.pageSize.toNat) (hsize : q.geometry.pageSize ≠ 0)
    (hpayload : page.length + 7 < 2 ^ 32) :
    ∃ ps' q', Adds [d.poolPage pool page all.length] l { l with pools := ps' } ∧
      l.pools.Replaced ps' pool (.memory q') ∧ q'.geometry = q.geometry ∧
      q'.HasPages (all ++ [page]) := by
  have hlength := length_poolPage d pool page all.length
  have hfits : (d.poolPage pool page all.length).Fits :=
    DraftBlock.fits_of_mem_contents (by simp [Block.contents, ImageDraft.poolPage])
      (hlength.trans_lt hpayload)
  obtain ⟨q', hgeometry, hall', hok⟩ := hall.addPage hcount hpage hsize d.mask
  obtain ⟨ps', hadd, hreplaced⟩ := Pools.exists_addPage hq hdefined hok
  refine ⟨ps', q', .single fun place => ?_, hreplaced, hgeometry, hall'⟩
  have htag : ((d.poolPage pool page all.length).block place).tag = Block.poolPage := rfl
  have hfields : pageFields.Reads (Bytes.u16 pool ++ (Bytes.u32 (.ofNat all.length) ++ [d.mask]))
      (pool, .ofNat all.length, d.mask) := by
    have hread := (Reader.reads_u8 d.mask).map fun mask =>
      (pool, UInt32.ofNat all.length, mask)
    exact (Reader.reads_u16 pool).bind ((Reader.reads_u32 _).bind hread)
  have hpayload' : pageFields ((d.poolPage pool page all.length).block place).payload =
      some ((pool, .ofNat all.length, d.mask), page.map (· ^^^ d.mask)) := by
    have hread := hfields (page.map (· ^^^ d.mask))
    rw [List.append_assoc, List.append_assoc] at hread
    rw [DraftBlock.block, ImageDraft.poolPage, List.append_assoc]
    exact hread
  have hlong : ¬((d.poolPage pool page all.length).block place).size.toNat < pageFieldsSize := by
    rw [DraftBlock.block, hfits.toNat_size, hlength, pageFieldsSize]
    omega
  rw [block, htag, if_neg (by decide +kernel), if_neg (by decide +kernel),
    if_neg (by decide +kernel), if_neg (by decide +kernel), if_pos rfl, poolPage]
  refine Except.guard_eq_ok.2 ⟨hlong, ?_⟩
  rw [hpayload']
  refine Except.bind_eq_ok.2 ⟨_, Pools.get_eq_ok_iff.2 hq, ?_⟩
  rw [hfits.isComplete place]
  exact Except.bind_eq_ok.2 ⟨_, rfl, Except.bind_eq_ok.2 ⟨_, hadd, rfl⟩⟩

/-- The pages of a pool are taken in one after the other. The induction is on those that are still
    to come. -/
theorem adds_poolPages {all more : List Bytes}
    (hq : l.pools.get? pool = some (.memory q)) (hdefined : l.pools.isDefined pool = true)
    (hall : q.HasPages all) (hcount : all.length + more.length ≤ q.geometry.pageCount.toNat)
    (hmore : ∀ page ∈ more, page.length ≤ q.geometry.pageSize.toNat ∧ page.length + 7 < 2 ^ 32)
    (hsize : q.geometry.pageSize ≠ 0) :
    ∃ ps' q', Adds ((more.zipIdx all.length).map fun (page, i) => d.poolPage pool page i) l
        { l with pools := ps' } ∧
      l.pools.Replaced ps' pool (.memory q') ∧ q'.geometry = q.geometry ∧
      q'.HasPages (all ++ more) := by
  induction more generalizing all l q with
  | nil =>
    rw [List.append_nil]
    exact ⟨l.pools, q, .nil l, Pools.replaced_self hq hdefined, rfl, hall⟩
  | cons page more ih =>
    obtain ⟨⟨hpage, hpayload⟩, hmore⟩ := List.forall_mem_cons.1 hmore
    rw [List.length_cons] at hcount
    obtain ⟨ps₁, q₁, hadds₁, hps₁, hgeometry₁, hall₁⟩ :=
      adds_poolPage hq hdefined hall (by omega) hpage hsize hpayload
    obtain ⟨ps', q', hadds, hps', hgeometry, hall'⟩ :=
      ih (l := { l with pools := ps₁ }) hps₁.same hps₁.isDefined hall₁
        (by rw [hgeometry₁, List.length_append, List.length_singleton]; omega)
        (by rwa [hgeometry₁]) (by rwa [hgeometry₁])
    rw [List.length_append, List.length_singleton] at hadds
    refine ⟨ps', q', hadds₁.append hadds, hps₁.trans hps', hgeometry.trans hgeometry₁, ?_⟩
    rwa [List.append_assoc] at hall'

/-- A pool that has not been defined yet is defined, and gives the bytes of the draft. -/
theorem adds_pool {bs : Bytes} (hq : l.pools.get? pool = some (.memory q))
    (hnew : l.pools.isDefined pool = false) (hsize : 0 < d.pageSize.toNat) (hbs : bs ≠ [])
    (hlength : bs.length < 2 ^ 32) (hpayload : ∀ b ∈ d.pool pool bs, b.payload.length < 2 ^ 32) :
    ∃ ps' p, Adds (d.pool pool bs) l { l with pools := ps' } ∧ l.pools.Replaced ps' pool p ∧
      p.Gives bs ∧ p.geometry.pageSize = d.pageSize ∧ p.loadedPages ≠ 0 := by
  have hzero : d.pageSize ≠ 0 := fun hzero => by
    rw [hzero] at hsize
    exact absurd hsize (Nat.lt_irrefl 0)
  -- There are no more pages than bytes.
  have hpages : (d.pagesOf bs).length = (bs.length + d.pageSize.toNat - 1) / d.pageSize.toNat :=
    ImageDraft.length_pages _ _ _
  have hpos := List.length_pos_iff.2 hbs
  have hle : (d.pagesOf bs).length ≤ bs.length := by
    have hmul : bs.length ≤ d.pageSize.toNat * bs.length := Nat.le_mul_of_pos_left _ hsize
    rw [hpages, Nat.div_le_iff_le_mul_add_pred hsize]
    omega
  have hne : 0 < (d.pagesOf bs).length := by
    rw [hpages]
    exact Nat.div_pos (by omega) hsize
  have hcount : (UInt32.ofNat (d.pagesOf bs).length).toNat = (d.pagesOf bs).length :=
    UInt32.toNat_ofNat_of_lt' (hle.trans_lt hlength)
  have hfits (page : Bytes) (hpage : page ∈ d.pagesOf bs) :
      page.length ≤ d.pageSize.toNat ∧ page.length + 7 < 2 ^ 32 := by
    obtain ⟨i, hi, hget⟩ := List.mem_iff_getElem.1 hpage
    have hmem : d.poolPage pool page i ∈ d.pool pool bs :=
      List.mem_cons_of_mem _ (List.mem_map.2
        ⟨(page, i), List.mem_zipIdx_iff_getElem?.2 (List.getElem?_eq_some_iff.2 ⟨hi, hget⟩), rfl⟩)
    have hlt := hpayload _ hmem
    rw [length_poolPage] at hlt
    exact ⟨ImageDraft.length_of_mem_pages hpage, hlt⟩
  obtain ⟨ps₁, hdefinition, hps₁⟩ := adds_poolDefinition hq hnew hzero bs
  obtain ⟨ps', q', hpages', hps', hgeometry, hall⟩ :=
    adds_poolPages (l := { l with pools := ps₁ }) (d := d) hps₁.same hps₁.isDefined
      (MemoryPool.hasPages_nil _) ((Nat.zero_add _).trans_le hcount.ge) hfits hzero
  rw [List.nil_append] at hall
  refine ⟨ps', .memory q', hdefinition.append hpages', hps₁.trans hps', ?_, ?_, ?_⟩
  · refine MemoryPool.HasPages.gives hsize rfl hall ?_ ?_
    · rw [hgeometry]
    · rw [hgeometry]
      exact hcount.trans hpages
  · exact congrArg Geometry.pageSize hgeometry
  · rw [hall.loadedPages]
    exact hne.ne'

end Loader

/-! ## Exports -/

namespace Exports

/-- Exports values one after the other. -/
def insertAll (e : Exports) (ps : List (String × Value)) : Exports :=
  ps.foldl (fun e p => Exports.insert e p.1 p.2) e

theorem lookup_filter_ne (e : Exports) (name name' : String) :
    (e.filter (·.1 != name)).lookup name' = if name' = name then none else e.lookup name' := by
  induction e with
  | nil => exact (ite_self _).symm
  | cons p e ih =>
    obtain ⟨k, v⟩ := p
    rw [List.filter_cons, List.lookup_cons]
    by_cases hk : name' = k
    · subst hk
      by_cases hname : name' = name
      · simpa [hname] using ih
      · simp [hname]
    · rw [beq_false_of_ne hk, ← ih]
      split
      · rw [List.lookup_cons, beq_false_of_ne hk]
      · rfl

theorem lookup_insert (e : Exports) (name name' : String) (v : Value) :
    (e.insert name v).lookup name' = if name' = name then some v else e.lookup name' := by
  rw [Exports.insert, List.lookup_append, lookup_filter_ne, List.lookup_cons]
  by_cases hname : name' = name
  · rw [if_pos hname, if_pos hname, hname, beq_self_eq_true]
    rfl
  · rw [if_neg hname, if_neg hname, beq_false_of_ne hname]
    exact Option.or_none

/-- Of the values under a name the last one counts. -/
theorem lookup_insertAll (e : Exports) (ps : List (String × Value)) (name : String) :
    (e.insertAll ps).lookup name = (ps.reverse.lookup name).or (e.lookup name) := by
  induction ps generalizing e with
  | nil => rfl
  | cons p ps ih =>
    rw [insertAll, List.foldl_cons, ← insertAll, ih, lookup_insert, List.reverse_cons,
      List.lookup_append, Option.or_assoc]
    refine congrArg _ ?_
    by_cases hname : name = p.1
    · rw [if_pos hname, List.lookup_cons, hname, beq_self_eq_true]
      rfl
    · rw [if_neg hname, List.lookup_cons, beq_false_of_ne hname]
      rfl

end Exports

/-! ## Objects -/

namespace Loader

variable {l l' : Loader} {settings : HeapSettings} {t : MetaclassTable} {e : MetaclassEntry}
  {metaclass : MetaclassId} {kind : Kind} {records : List DraftObject}
  {objects : List (UInt32 × Object)} {large : Bool}

/-- Objects with new numbers are defined. The induction is on the objects; the numbers of those
    before them are among the numbers that may not come again. -/
theorem exists_defines (hl : l.Stocked settings) (hentry : t.get? metaclass = some e)
    (hmetaclass : ∀ r ∈ records, r.metaclass = metaclass)
    (hobjects : List.Forall₂ (DraftObject.Describes t) records objects)
    (hnodup : (l.objects.toList.map Prod.fst ++ records.map DraftObject.id).Nodup)
    (hrange : ∀ r ∈ records, r.id ≠ 0 ∧ r.id.toNat < settings.maxObjects.toNat) :
    ∃ heap, l.Defines e.kind records
        { l with heap, objects := l.objects ++ objects.toArray } ∧
      Stocked settings { l with heap, objects := l.objects ++ objects.toArray } := by
  induction hobjects generalizing l with
  | nil =>
    rw [Array.append_empty]
    exact ⟨l.heap, .nil, hl⟩
  | @cons r o records objects hr hobjects ih =>
    obtain ⟨hrm, hmetaclass⟩ := List.forall_mem_cons.1 hmetaclass
    obtain ⟨⟨hzero, hlt⟩, hrange⟩ := List.forall_mem_cons.1 hrange
    obtain ⟨hid, hom, e', hget, hbody⟩ := hr
    obtain rfl : e = e' := Option.some.inj (hentry.symm.trans (hrm ▸ hget))
    obtain ⟨_, _, body⟩ := o
    obtain rfl : _ = r.id := hid
    obtain rfl : _ = r.metaclass := hom
    -- The number is none of those before, which the invariant says are all that are taken.
    have hnew : r.id ∉ l.objects.toList.map Prod.fst := fun hmem =>
      (List.nodup_append'.1 hnodup).2.2 hmem List.mem_cons_self
    have hdefine := Heap.define_eq_ok hzero (hl.limits.symm ▸ hlt)
      (hl.holds.isOccupied_eq_false hnew) ⟨r.metaclass, body⟩
    have hnodup' : ((l.objects.push (r.id, ⟨r.metaclass, body⟩)).toList.map Prod.fst ++
        records.map DraftObject.id).Nodup := by
      rw [Array.toList_push, List.map_append, List.append_assoc]
      exact hnodup
    obtain ⟨heap, hdefines, hstocked⟩ := ih (hl.define hdefine) hmetaclass hnodup' hrange
    have hall : l.objects.push (r.id, ⟨r.metaclass, body⟩) ++ objects.toArray =
        l.objects ++ ((r.id, ⟨r.metaclass, body⟩) :: objects).toArray := by simp
    rw [hall] at hdefines hstocked
    exact ⟨heap, .cons hbody hdefine hdefines, hstocked⟩

/-- The lengths of data take two bytes, or four where some of it is long. -/
theorem reads_length {n : Nat} (hn : n < 2 ^ 32) (hlarge : large = false → n < 2 ^ 16) :
    Reader.Reads (Reader.nat (if large then 4 else 2))
      (if large then Bytes.u32 (.ofNat n) else Bytes.u16 (.ofNat n)) n := by
  cases large with
  | true =>
    have hread := Reader.reads_nat (w := 4) (n := n) hn
    rwa [if_pos rfl, if_pos rfl, Bytes.u32, UInt32.toNat_ofNat_of_lt' hn]
  | false =>
    have hread := Reader.reads_nat (w := 2) (n := n) (hlarge rfl)
    rwa [if_neg Bool.false_ne_true, if_neg Bool.false_ne_true, Bytes.u16,
      UInt16.toNat_ofNat_of_lt' (hlarge rfl)]

/-- Objects that are defined one after the other are read one after the other. -/
theorem reads_objectEntries (hd : l.Defines kind records l')
    (hmetaclass : ∀ r ∈ records, r.metaclass = metaclass)
    (hdata : ∀ r ∈ records, r.data.length < 2 ^ 32 ∧ (large = false → r.data.length < 2 ^ 16)) :
    Parser.Reads (objectEntries metaclass kind large records.length l)
      (records.flatMap (ImageDraft.objectBytes large)) l' := by
  induction hd with
  | nil => exact .pure _
  | @cons l l' r records body id heap hbody hdefine hrest ih =>
    obtain ⟨hrm, hmetaclass⟩ := List.forall_mem_cons.1 hmetaclass
    obtain ⟨⟨hlt, hlarge⟩, hdata⟩ := List.forall_mem_cons.1 hdata
    rw [List.flatMap_cons, ImageDraft.objectBytes, List.append_assoc, List.append_assoc]
    refine (reads_part (Reader.reads_u32 r.id) _).bind ?_
    refine (reads_part (reads_length hlt hlarge) _).bind ?_
    refine (reads_part (Reader.reads_bytes r.data) _).bind fun rest => ?_
    -- What has been read is made an object, and the others follow.
    rw [hbody]
    refine Parser.bind_eq_ok.2 ⟨body, _, rfl, ?_⟩
    obtain ⟨pools, heap₀, metaclasses?, functionSets?, entry?, exports, objects⟩ := l
    rw [← hrm]
    dsimp only at hdefine ⊢
    rw [hdefine]
    exact hrm ▸ ih hmetaclass hdata rest

/-- Lengths of data can be written where the size of the block can be. -/
theorem length_data_lt {group : List DraftObject}
    (hpayload : (ImageDraft.objectRun metaclass group).payload.length < 2 ^ 32) :
    ∀ r ∈ group, r.data.length < 2 ^ 32 ∧
      (ImageDraft.isLarge group = false → r.data.length < 2 ^ 16) := by
  intro r hr
  refine ⟨?_, fun hlarge => ?_⟩
  · have hle := (List.sublist_flatten_of_mem (List.mem_map_of_mem
      (f := ImageDraft.objectBytes (ImageDraft.isLarge group)) hr)).length_le
    simp only [ImageDraft.objectRun, List.length_append, List.flatMap] at hpayload
    simp only [ImageDraft.objectBytes, List.length_append] at hle
    omega
  · have hnot := List.any_eq_false.1 hlarge r hr
    simp only [decide_eq_true_eq] at hnot
    omega

/-- A run of objects is taken in. -/
theorem adds_objectRun {group : List DraftObject} (ht : l.metaclasses? = some t)
    (hentry : t.get? metaclass = some e) (hd : l.Defines e.kind group l')
    (hmetaclass : ∀ r ∈ group, r.metaclass = metaclass) (hlength : group.length ≤ 65535)
    (hpayload : (ImageDraft.objectRun metaclass group).payload.length < 2 ^ 32) :
    Adds [ImageDraft.objectRun metaclass group] l l' := by
  -- The lowest flag says how many bytes the lengths take.
  have hflag : ((if ImageDraft.isLarge group then 1 else 0 : UInt16) &&& 1 != 0) =
      ImageDraft.isLarge group := by
    cases ImageDraft.isLarge group <;> rfl
  have hfields : Reader.Reads (do return (← Reader.u16, ← Reader.u16, ← Reader.u16))
      (ObjectData.count group.length ++ (Bytes.u16 metaclass ++
        Bytes.u16 (if ImageDraft.isLarge group then 1 else 0)))
      (.ofNat group.length, metaclass, if ImageDraft.isLarge group then 1 else 0) := by
    have hread := (Reader.reads_u16 (if ImageDraft.isLarge group then 1 else 0)).map fun flags =>
      (UInt16.ofNat group.length, metaclass, flags)
    exact (Reader.reads_u16 _).bind ((Reader.reads_u16 metaclass).bind hread)
  have hcount : (UInt16.ofNat group.length).toNat = group.length :=
    UInt16.toNat_ofNat_of_lt' (Nat.lt_succ_of_le hlength)
  have hread := (reads_objectEntries hd hmetaclass (length_data_lt hpayload)).whole
  refine Takes.objects.adds hpayload ?_
  rw [objectRun, ht]
  have hstart := reads_part hfields "OBJS" (group.flatMap
    (ImageDraft.objectBytes (ImageDraft.isLarge group)))
  simp only [List.append_assoc] at hstart
  dsimp only
  simp only [List.append_assoc]
  refine Except.bind_eq_ok.2 ⟨_, hstart, ?_⟩
  dsimp only
  rw [hentry]
  dsimp only
  rw [hcount, hflag]
  exact Except.bind_eq_ok.2 ⟨_, hread, if_neg (not_not.2 rfl)⟩

theorem map_fst_of_describes (hobjects : List.Forall₂ (DraftObject.Describes t) records objects) :
    objects.map Prod.fst = records.map DraftObject.id := by
  induction hobjects with
  | nil => rfl
  | cons hr _ ih => rw [List.map_cons, List.map_cons, hr.1, ih]

/-- All objects of a draft are taken in. The induction is on the runs of neighbours of one
    metaclass. -/
theorem adds_groups {groups : List (List DraftObject)} (ht : l.metaclasses? = some t)
    (hl : l.Stocked settings)
    (hobjects : List.Forall₂ (DraftObject.Describes t) groups.flatten objects)
    (hnodup : (l.objects.toList.map Prod.fst ++ groups.flatten.map DraftObject.id).Nodup)
    (hrange : ∀ r ∈ groups.flatten, r.id ≠ 0 ∧ r.id.toNat < settings.maxObjects.toNat)
    (hmetaclass : ∀ group ∈ groups, ∀ r ∈ group, ∀ r' ∈ group, r.metaclass = r'.metaclass)
    (hlength : ∀ group ∈ groups, group ≠ [] ∧ group.length ≤ 65535)
    (hpayload : ∀ b ∈ ImageDraft.runsOf groups, b.payload.length < 2 ^ 32) :
    ∃ heap, Adds (ImageDraft.runsOf groups) l
        { l with heap, objects := l.objects ++ objects.toArray } ∧
      Stocked settings { l with heap, objects := l.objects ++ objects.toArray } := by
  induction groups generalizing l objects with
  | nil =>
    obtain rfl := List.forall₂_nil_left_iff.1 hobjects
    rw [Array.append_empty]
    exact ⟨l.heap, .nil l, hl⟩
  | cons group groups ih =>
    obtain ⟨hsame, hmetaclasses⟩ := List.forall_mem_cons.1 hmetaclass
    obtain ⟨⟨hne, hcount⟩, hlengths⟩ := List.forall_mem_cons.1 hlength
    obtain ⟨r, rs, rfl⟩ := List.exists_cons_of_ne_nil hne
    rw [List.flatten_cons] at hobjects hnodup hrange
    obtain ⟨hrange₁, hrange₂⟩ := List.forall_mem_append.1 hrange
    obtain ⟨hpayload₁, hpayload₂⟩ := List.forall_mem_cons.1 hpayload
    -- The objects of the group are the first ones.
    have hobjects₁ := List.forall₂_take (r :: rs).length hobjects
    have hobjects₂ := List.forall₂_drop (r :: rs).length hobjects
    rw [List.take_left] at hobjects₁
    rw [List.drop_left] at hobjects₂
    have hids := map_fst_of_describes hobjects₁
    obtain ⟨o, -, ⟨-, -, e, hentry, -⟩, -, -⟩ := List.forall₂_cons_left_iff.1 hobjects₁
    have hmetaclass₁ (r' : DraftObject) (hr' : r' ∈ r :: rs) : r'.metaclass = r.metaclass :=
      hsame r' hr' r List.mem_cons_self
    rw [List.map_append, ← List.append_assoc] at hnodup
    obtain ⟨heap₁, hdefines, hstocked⟩ := exists_defines hl hentry hmetaclass₁ hobjects₁
      (List.nodup_append'.1 hnodup).1 hrange₁
    have hadds₁ := adds_objectRun ht hentry hdefines hmetaclass₁ hcount hpayload₁
    obtain ⟨heap, hadds, hstocked'⟩ := ih (l := { l with
        heap := heap₁, objects := l.objects ++ (objects.take (r :: rs).length).toArray })
      ht hstocked hobjects₂ (by rwa [Array.toList_append, List.map_append, hids]) hrange₂
      hmetaclasses hlengths hpayload₂
    have hall : (objects.take (r :: rs).length).toArray ++
        (objects.drop (r :: rs).length).toArray = objects.toArray := by
      rw [List.append_toArray, List.take_append_drop]
    rw [Array.append_assoc, hall] at hadds hstocked'
    exact ⟨heap, hadds₁.append hadds, hstocked'⟩

/-! ## Symbols and entry point -/

theorem reads_symbolEntries {ps : List (String × Value)}
    (hps : ∀ p ∈ ps, (Bytes.ofText p.1).length ≤ 255 ∧ p.2.portable?.isSome = true)
    (e : Exports) : Parser.Reads (symbolEntries ps.length e)
      (ps.flatMap fun (name, v) => v.portable ++ Bytes.name name) (e.insertAll ps) := by
  induction ps generalizing e with
  | nil => exact .pure e
  | cons p ps ih =>
    obtain ⟨⟨hname, hv⟩, hps⟩ := List.forall_mem_cons.1 hps
    rw [List.flatMap_cons, List.append_assoc]
    exact (reads_part (Reader.reads_portable hv) _).bind
      ((reads_part (Reader.reads_shortName hname) _).bind (ih hps _))

/-- The symbols are taken in, if there are any. -/
theorem adds_symbols {d : ImageDraft} (hsize : d.symbols.size ≤ 65535)
    (hsymbols : ∀ p ∈ d.symbols, (Bytes.ofText p.1).length ≤ 255 ∧ p.2.portable?.isSome = true)
    (hpayload : d.symbols.isEmpty = false → d.symbolPayload.length < 2 ^ 32) :
    Adds (if d.symbols.isEmpty then [] else [⟨Block.symbols, false, d.symbolPayload⟩]) l
      { l with exports := l.exports.insertAll d.symbols.toList } := by
  cases hempty : d.symbols.isEmpty with
  | true =>
    rw [Array.isEmpty_iff.1 hempty]
    exact .nil _
  | false =>
    obtain ⟨hcount, hn⟩ := reads_count hsize "SYMD"
    have hread :=
      reads_symbolEntries (fun p hp => hsymbols p (Array.mem_toList_iff.1 hp)) l.exports
    rw [Array.length_toList, ← hn] at hread
    refine Takes.symbols.adds (hpayload hempty) ?_
    refine Except.bind_eq_ok.2 ⟨_, hcount _, ?_⟩
    exact Except.bind_eq_ok.2 ⟨_, hread.whole, rfl⟩

/-- The entry point is taken in. -/
theorem adds_entryPoint (hl : l.entry? = none) (ofs : UInt32) :
    Adds [⟨Block.entryPoint, true, ImageDraft.entryPayload ofs⟩] l
      { l with entry? := some ⟨ofs, 10, 10⟩ } := by
  have hpayload : (ImageDraft.entryPayload ofs).length < 2 ^ 32 := by
    simp [ImageDraft.entryPayload, Bytes.u16, Bytes.u32, Bytes.length_ofNat]
  have hfields : Reader.Reads (do
      let entry := EntryPoint.mk (← Reader.u32) (← Reader.u16) (← Reader.u16)
      let _ ← Reader.bytes 8
      return entry) (ImageDraft.entryPayload ofs) ⟨ofs, 10, 10⟩ := by
    have hread := (Reader.reads_bytes (List.replicate 8 0)).map fun _ => EntryPoint.mk ofs 10 10
    rw [ImageDraft.entryPayload, List.append_assoc, List.append_assoc]
    refine (Reader.reads_u32 ofs).bind ?_
    exact (Reader.reads_u16 10).bind ((Reader.reads_u16 10).bind hread)
  refine Takes.entryPoint.adds hpayload ?_
  rw [entryPoint, hl]
  refine Except.guard_eq_ok.2 ⟨Bool.false_ne_true, ?_⟩
  refine Except.bind_eq_ok.2 ⟨_, (reads_part hfields "ENTP").whole, ?_⟩
  refine Except.guard_eq_ok.2 ⟨Nat.lt_irrefl 10, ?_⟩
  exact Except.guard_eq_ok.2 ⟨Nat.lt_irrefl 10, rfl⟩

end Loader

end StoryMachine
