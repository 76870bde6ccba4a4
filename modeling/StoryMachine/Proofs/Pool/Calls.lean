import StoryMachine.Proofs.Pool.Paged

/-!
# What pools answer

A machine and its host read the pools in any order, and pin and unpin pages in
between. Pools that are related to other pools, and answer each of these calls as those
do and are still related after the call, answer any sequence of calls alike. Pools that
are read on demand are so related to pools in memory with the same pages.

* `PoolCall`: what can be asked of pools;
* `Pool.IsSimulation`, `Pools.Both`: pools that are related and go on to be so;
* `Both.answer`: one call;
* `Both.answers_eq`: any number of them;
* `Pools.Mirrors`: both pools have the pages of the others;
* `Pool.Steady`: what is read stays what it is, however much is read.
-/

namespace StoryMachine

/-- What can be asked of pools. -/
inductive PoolCall where
  /-- The bytes from an offset of a pool to the end of the page. -/
  | slice (pool : UInt16) (ofs : UInt32)
  /-- The page of an offset is to be kept. -/
  | pin (pool : UInt16) (ofs : UInt32)
  /-- It need not be kept any more. -/
  | unpin (pool : UInt16) (ofs : UInt32)
  /-- Some bytes of code. -/
  | readCode (ofs : UInt32) (n : Nat)
  /-- A constant string. -/
  | readString (ofs : UInt32)
  /-- A constant list. -/
  | readList (ofs : UInt32)
deriving DecidableEq, Repr

/-- What comes back. -/
inductive PoolAnswer where
  /-- Nothing was asked for. -/
  | done
  /-- Some bytes. -/
  | bytes (bs : Bytes)
  /-- A text. -/
  | text (s : String)
  /-- Some values. -/
  | values (vs : List Value)
deriving DecidableEq, Repr

/-- Asks the pool with a number, which has to be one. -/
def Pools.ask (ps : Pools) (pool : UInt16) (f : Pool → Except Failure PoolAnswer × Pool) :
    Except Failure PoolAnswer × Pools :=
  match ps.get pool with
  | .error e => (.error e, ps)
  | .ok p => ((f p).1, ps.set pool (f p).2)

/-- What pools answer to a call, and the pools afterwards. -/
def Pools.answer (ps : Pools) : PoolCall → Except Failure PoolAnswer × Pools
  | .slice pool ofs =>
    ps.ask pool fun p => ((p.slice ofs).1.map fun s => .bytes s.toBytes, (p.slice ofs).2)
  | .pin pool ofs => ps.ask pool fun p => (.ok .done, p.pin ofs)
  | .unpin pool ofs => ps.ask pool fun p => (.ok .done, p.unpin ofs)
  | .readCode ofs n => ((ps.readCode ofs n).1.map .bytes, (ps.readCode ofs n).2)
  | .readString ofs => ((ps.readString ofs).1.map .text, (ps.readString ofs).2)
  | .readList ofs => ((ps.readList ofs).1.map .values, (ps.readList ofs).2)

/-- What pools answer to one call after the other, errors by their codes. -/
def Pools.answers (ps : Pools) : List PoolCall → List (Except ErrorCode PoolAnswer)
  | [] => []
  | c :: cs => (ps.answer c).1.mapError (·.code) :: (ps.answer c).2.answers cs

namespace Pools

variable {ps : Pools} {pool : UInt16}

/-- There are two pools. -/
theorem eq_of_get?_eq_some {p : Pool} (hp : ps.get? pool = some p) :
    pool = codePool ∧ p = ps.code ∨ pool = constantPool ∧ p = ps.constant := by
  rw [get?] at hp
  by_cases hcode : pool = codePool
  · rw [if_pos hcode] at hp
    exact .inl ⟨hcode, (Option.some.inj hp).symm⟩
  rw [if_neg hcode] at hp
  by_cases hconstant : pool = constantPool
  · rw [if_pos hconstant] at hp
    exact .inr ⟨hconstant, (Option.some.inj hp).symm⟩
  · rw [if_neg hconstant] at hp
    cases hp

theorem get_eq_ok_iff {p : Pool} : ps.get pool = .ok p ↔ ps.get? pool = some p := by
  rw [get]
  cases ps.get? pool <;> simp

end Pools

/-! ## Pools that stay related -/

/-- A relation between pools that is kept by what is asked of them, and under which they answer
    alike. -/
structure Pool.IsSimulation (R : Pool → Pool → Prop) : Prop where
  /-- The bytes at an offset are the same. -/
  slice : ∀ {p q}, R p q → ∀ ofs, Alike (· = ·) (p.slice ofs).1 (q.slice ofs).1 ∧
    R (p.slice ofs).2 (q.slice ofs).2
  /-- A page is kept in both. -/
  pin : ∀ {p q}, R p q → ∀ ofs, R (p.pin ofs) (q.pin ofs)
  /-- Or need not be kept any more. -/
  unpin : ∀ {p q}, R p q → ∀ ofs, R (p.unpin ofs) (q.unpin ofs)

namespace Pools

/-- Both pools are related to the other ones. -/
structure Both (R : Pool → Pool → Prop) (ps qs : Pools) : Prop where
  /-- Those of code are. -/
  code : R ps.code qs.code
  /-- So are those of constants. -/
  constant : R ps.constant qs.constant
  /-- There is code in both or in none. -/
  codeDefined : ps.codeDefined = qs.codeDefined
  /-- So there is with constants. -/
  constantDefined : ps.constantDefined = qs.constantDefined

variable {R : Pool → Pool → Prop} {ps qs : Pools} {p q : Pool} {α β : Type}

theorem Both.isDefined (hps : ps.Both R qs) (pool : UInt16) :
    ps.isDefined pool = qs.isDefined pool := by
  rw [Pools.isDefined, Pools.isDefined, hps.codeDefined, hps.constantDefined]

/-- Both have a pool with a number, or none has. -/
theorem Both.get (hps : ps.Both R qs) (pool : UInt16) : Alike R (ps.get pool) (qs.get pool) := by
  rw [Pools.get, Pools.get, get?, get?]
  by_cases hcode : pool = codePool
  · rw [if_pos hcode, if_pos hcode]
    exact .ok hps.code
  by_cases hconstant : pool = constantPool
  · rw [if_neg hcode, if_neg hcode, if_pos hconstant, if_pos hconstant]
    exact .ok hps.constant
  · rw [if_neg hcode, if_neg hcode, if_neg hconstant, if_neg hconstant]
    exact .error rfl

theorem Both.set (hps : ps.Both R qs) (pool : UInt16) (hp : R p q) :
    (ps.set pool p).Both R (qs.set pool q) := by
  rw [Pools.set, Pools.set]
  split
  · exact ⟨hp, hps.constant, hps.codeDefined, hps.constantDefined⟩
  split
  · exact ⟨hps.code, hp, hps.codeDefined, hps.constantDefined⟩
  · exact hps

theorem Both.define {pageCount pageSize : UInt32}
    (hR : ∀ p q, R p q → Alike R (p.define pageCount pageSize) (q.define pageCount pageSize))
    (hps : ps.Both R qs) (pool : UInt16) :
    Alike (Both R) (ps.define pool pageCount pageSize) (qs.define pool pageCount pageSize) := by
  rw [Pools.define, Pools.define, hps.isDefined]
  refine .guard fun _ => (hps.get pool).bind fun p q hp => (hR p q hp).bind fun p q hp => ?_
  have hset := hps.set pool hp
  split
  · exact .ok ⟨hset.code, hset.constant, rfl, hset.constantDefined⟩
  · exact .ok ⟨hset.code, hset.constant, hset.codeDefined, rfl⟩

theorem Both.addPage {index : UInt32} {mask : UInt8} {data data' : PageData}
    (hR : ∀ p q, R p q → Alike R (p.addPage index mask data) (q.addPage index mask data'))
    (hps : ps.Both R qs) (pool : UInt16) :
    Alike (Both R) (ps.addPage pool index mask data) (qs.addPage pool index mask data') :=
  (hps.get pool).bind fun p q hp => (hR p q hp).bind fun _ _ hp => .ok (hps.set pool hp)

/-- There are pages in both pools with a number or in none. -/
theorem Both.loadedPages (hR : ∀ p q, R p q → (p.loadedPages == 0) = (q.loadedPages == 0))
    (hps : ps.Both R qs) (pool : UInt16) :
    (ps.get? pool).any (·.loadedPages == 0) = (qs.get? pool).any (·.loadedPages == 0) := by
  rw [get?, get?]
  split
  · exact hR _ _ hps.code
  split
  · exact hR _ _ hps.constant
  · rfl

/-- The results agree, and the pools are still related afterwards. -/
def AgreeBy (R : Pool → Pool → Prop) (r r' : Except Failure α × Pools) : Prop :=
  Alike (· = ·) r.1 r'.1 ∧ r.2.Both R r'.2

theorem AgreeBy.bind {r r' : Except Failure α × Pools} (hr : AgreeBy R r r')
    (f : α → Except Failure β) : AgreeBy R (r.1.bind f, r.2) (r'.1.bind f, r'.2) :=
  ⟨hr.1.bind fun _ _ heq => heq ▸ .refl _, hr.2⟩

theorem AgreeBy.map {r r' : Except Failure α × Pools} (hr : AgreeBy R r r') (f : α → β) :
    AgreeBy R (r.1.map f, r.2) (r'.1.map f, r'.2) :=
  ⟨hr.1.map fun _ _ heq => congrArg f heq, hr.2⟩

theorem Both.ask {f : Pool → Except Failure PoolAnswer × Pool} (hps : ps.Both R qs) (pool : UInt16)
    (hf : ∀ p q, R p q → Alike (· = ·) (f p).1 (f q).1 ∧ R (f p).2 (f q).2) :
    AgreeBy R (ps.ask pool f) (qs.ask pool f) := by
  have hget := hps.get pool
  rw [Pools.ask, Pools.ask]
  generalize ps.get pool = x at hget
  generalize qs.get pool = y at hget
  cases hget with
  | ok hp => exact ⟨(hf _ _ hp).1, hps.set pool (hf _ _ hp).2⟩
  | error he => exact ⟨.error he, hps⟩

theorem Both.codeSlice (hR : Pool.IsSimulation R) (hps : ps.Both R qs) (ofs : UInt32) :
    AgreeBy R (ps.codeSlice ofs) (qs.codeSlice ofs) :=
  ⟨(hR.slice hps.code ofs).1, (hR.slice hps.code ofs).2, hps.constant, hps.codeDefined,
    hps.constantDefined⟩

theorem Both.constantSlice (hR : Pool.IsSimulation R) (hps : ps.Both R qs) (ofs : UInt32) :
    AgreeBy R (ps.constantSlice ofs) (qs.constantSlice ofs) :=
  ⟨(hR.slice hps.constant ofs).1, hps.code, (hR.slice hps.constant ofs).2, hps.codeDefined,
    hps.constantDefined⟩

theorem Both.readCode (hR : Pool.IsSimulation R) (hps : ps.Both R qs) (ofs : UInt32) (n : Nat) :
    AgreeBy R (ps.readCode ofs n) (qs.readCode ofs n) :=
  (hps.codeSlice hR ofs).bind _

theorem Both.readString (hR : Pool.IsSimulation R) (hps : ps.Both R qs) (ofs : UInt32) :
    AgreeBy R (ps.readString ofs) (qs.readString ofs) :=
  (hps.constantSlice hR ofs).bind _

theorem Both.readList (hR : Pool.IsSimulation R) (hps : ps.Both R qs) (ofs : UInt32) :
    AgreeBy R (ps.readList ofs) (qs.readList ofs) :=
  (hps.constantSlice hR ofs).bind _

/-- One call is answered alike. -/
theorem Both.answer (hR : Pool.IsSimulation R) (hps : ps.Both R qs) (c : PoolCall) :
    AgreeBy R (ps.answer c) (qs.answer c) := by
  cases c with
  | slice pool ofs =>
    exact hps.ask pool fun p q hp =>
      ⟨(hR.slice hp ofs).1.map fun _ _ heq => heq ▸ rfl, (hR.slice hp ofs).2⟩
  | pin pool ofs => exact hps.ask pool fun p q hp => ⟨.ok rfl, hR.pin hp ofs⟩
  | unpin pool ofs => exact hps.ask pool fun p q hp => ⟨.ok rfl, hR.unpin hp ofs⟩
  | readCode ofs n => exact (hps.readCode hR ofs n).map _
  | readString ofs => exact (hps.readString hR ofs).map _
  | readList ofs => exact (hps.readList hR ofs).map _

/-- Pools that stay related answer alike, whatever is asked. The induction is on the calls. -/
theorem Both.answers_eq (hR : Pool.IsSimulation R) (hps : ps.Both R qs) (cs : List PoolCall) :
    ps.answers cs = qs.answers cs := by
  induction cs generalizing ps qs with
  | nil => rfl
  | cons c cs ih =>
    have hanswer := hps.answer hR c
    rw [Pools.answers, Pools.answers, hanswer.1.mapError_eq, ih hanswer.2]

end Pools

/-! ## Pools that are read on demand -/

/-- A pool is read on demand, and has the pages of one in memory. -/
inductive Pool.Mirrors (image : Array UInt8) : Pool → Pool → Prop
  | paged {p : PagedPool} {q : MemoryPool} (hp : p.Mirrors image q) :
      Mirrors image (.paged p) (.memory q)

/-- Pools are read on demand, and have the pages of those in memory. -/
structure Pools.Mirrors (image : Array UInt8) (ps qs : Pools) : Prop where
  /-- The pages of code are the same. -/
  code : ps.code.Mirrors image qs.code
  /-- So are those of constants. -/
  constant : ps.constant.Mirrors image qs.constant
  /-- There is code in both or in none. -/
  codeDefined : ps.codeDefined = qs.codeDefined
  /-- So there is with constants. -/
  constantDefined : ps.constantDefined = qs.constantDefined

namespace Pool

variable {image : Array UInt8} {p q : Pool}

theorem Mirrors.slice (hp : p.Mirrors image q) (ofs : UInt32) :
    Alike (· = ·) (p.slice ofs).1 (q.slice ofs).1 ∧
      (p.slice ofs).2.Mirrors image (q.slice ofs).2 := by
  obtain ⟨hp⟩ := hp
  exact ⟨(hp.slice ofs).1, .paged (hp.slice ofs).2⟩

theorem Mirrors.pin (hp : p.Mirrors image q) (ofs : UInt32) :
    (p.pin ofs).Mirrors image (q.pin ofs) := by
  obtain ⟨hp⟩ := hp
  exact .paged (hp.modifyPins ofs _)

theorem Mirrors.unpin (hp : p.Mirrors image q) (ofs : UInt32) :
    (p.unpin ofs).Mirrors image (q.unpin ofs) := by
  obtain ⟨hp⟩ := hp
  exact .paged (hp.modifyPins ofs _)

theorem Mirrors.define (hp : p.Mirrors image q) (pageCount pageSize : UInt32) :
    Alike (Mirrors image) (p.define pageCount pageSize) (q.define pageCount pageSize) := by
  obtain ⟨hp⟩ := hp
  exact (hp.define pageCount pageSize).map fun _ _ hp => .paged hp

theorem Mirrors.addPage {bs : Bytes} {offset length : Nat} (hp : p.Mirrors image q) (index : UInt32)
    (hwhole : offset + length ≤ image.size)
    (hbs : image.extract offset (offset + length) = bs.toArray) :
    Alike (Mirrors image) (p.addPage index 0 (.deferred offset length))
      (q.addPage index 0 (.bytes bs)) := by
  obtain ⟨hp⟩ := hp
  exact (hp.addPage index hwhole hbs).map fun _ _ hp => .paged hp

theorem Mirrors.loadedPages (hp : p.Mirrors image q) :
    (p.loadedPages == 0) = (q.loadedPages == 0) := by
  obtain ⟨hp⟩ := hp
  rw [Bool.eq_iff_iff, beq_iff_eq, beq_iff_eq]
  exact hp.countP_eq_zero_iff

theorem Mirrors.isPaged (hp : p.Mirrors image q) : p.isPaged = true ∧ q.isPaged = false := by
  obtain ⟨-⟩ := hp
  exact ⟨rfl, rfl⟩

theorem isSimulation_mirrors (image : Array UInt8) : IsSimulation (Mirrors image) :=
  ⟨fun hp ofs => hp.slice ofs, fun hp ofs => hp.pin ofs, fun hp ofs => hp.unpin ofs⟩

/-! ## Reading again -/

/-- A pool after some of it has been read. -/
inductive Later (p : Pool) : Pool → Prop
  | refl : Later p p
  | slice {q : Pool} (hq : p.Later q) (ofs : UInt32) : Later p (q.slice ofs).2

theorem Later.trans {r : Pool} (hq : p.Later q) (hr : q.Later r) : p.Later r := by
  induction hr with
  | refl => exact hq
  | slice _ ofs ih => exact .slice ih ofs

/-- What is read from the pool stays what it is, however much is read. -/
def Steady (p : Pool) : Prop := ∀ q, p.Later q → ∀ ofs, (q.slice ofs).1 = (p.slice ofs).1

/-- A pool in memory does not change when it is read. -/
theorem steady_of_isPaged (hp : p.isPaged = false) : p.Steady := by
  intro q hq ofs
  suffices q = p by rw [this]
  cases p with
  | paged p => cases hp
  | memory p =>
    induction hq with
    | refl => rfl
    | slice _ ofs ih => rw [ih]; rfl

/-- A pool that is read on demand has the same pages all the time. -/
theorem Mirrors.steady (hp : p.Mirrors image q) : p.Steady := by
  obtain ⟨hp⟩ := hp
  rename_i p q
  have hlater (r : Pool) (hr : (Pool.paged p).Later r) :
      ∃ p' : PagedPool, r = .paged p' ∧ p'.Mirrors image q := by
    induction hr with
    | refl => exact ⟨p, rfl, hp⟩
    | slice _ ofs ih =>
      obtain ⟨p', rfl, hp'⟩ := ih
      exact ⟨_, rfl, (hp'.slice_eq ofs).2⟩
  intro r hr ofs
  obtain ⟨p', rfl, hp'⟩ := hlater r hr
  exact (hp'.slice_eq ofs).1.trans (hp.slice_eq ofs).1.symm

end Pool

namespace Pools

variable {image : Array UInt8} {ps qs : Pools} {p q : Pool} {α : Type}

/-- Pools after some of them has been read. -/
structure Later (ps qs : Pools) : Prop where
  /-- Code has been read. -/
  code : ps.code.Later qs.code
  /-- So have constants. -/
  constant : ps.constant.Later qs.constant

theorem Later.refl (ps : Pools) : ps.Later ps := ⟨.refl, .refl⟩

theorem Later.trans {rs : Pools} (hq : ps.Later qs) (hr : qs.Later rs) : ps.Later rs :=
  ⟨hq.code.trans hr.code, hq.constant.trans hr.constant⟩

theorem later_codeSlice (ps : Pools) (ofs : UInt32) : ps.Later (ps.codeSlice ofs).2 :=
  ⟨.slice .refl ofs, .refl⟩

theorem later_readCode (ps : Pools) (ofs : UInt32) (n : Nat) : ps.Later (ps.readCode ofs n).2 :=
  ps.later_codeSlice ofs

theorem later_readString (ps : Pools) (ofs : UInt32) : ps.Later (ps.readString ofs).2 :=
  ⟨.refl, .slice .refl ofs⟩

theorem later_readList (ps : Pools) (ofs : UInt32) : ps.Later (ps.readList ofs).2 :=
  ⟨.refl, .slice .refl ofs⟩

/-- The results agree, and so do the pools afterwards. -/
def Agree (image : Array UInt8) (r r' : Except Failure α × Pools) : Prop :=
  Alike (· = ·) r.1 r'.1 ∧ r.2.Mirrors image r'.2

theorem mirrors_new (image : Array UInt8) (maxResident : Nat) :
    (new (.paged maxResident) image).Mirrors image (new .inMemory image) where
  code := .paged (PagedPool.mirrors_new ..)
  constant := .paged (PagedPool.mirrors_new ..)
  codeDefined := rfl
  constantDefined := rfl

theorem mirrors_iff_both : ps.Mirrors image qs ↔ ps.Both (Pool.Mirrors image) qs :=
  ⟨fun ⟨hcode, hconstant, hcodes, hconstants⟩ => ⟨hcode, hconstant, hcodes, hconstants⟩,
    fun ⟨hcode, hconstant, hcodes, hconstants⟩ => ⟨hcode, hconstant, hcodes, hconstants⟩⟩

/-- The same code is read. -/
theorem Mirrors.readCode (hp : ps.Mirrors image qs) (ofs : UInt32) (n : Nat) :
    Agree image (ps.readCode ofs n) (qs.readCode ofs n) := by
  obtain ⟨hsame, hboth⟩ :=
    (mirrors_iff_both.1 hp).readCode (Pool.isSimulation_mirrors image) ofs n
  exact ⟨hsame, mirrors_iff_both.2 hboth⟩

/-- Pools that are read on demand answer as those in memory do. -/
theorem Mirrors.answers_eq (hp : ps.Mirrors image qs) (cs : List PoolCall) :
    ps.answers cs = qs.answers cs :=
  (mirrors_iff_both.1 hp).answers_eq (Pool.isSimulation_mirrors image) cs

end Pools

end StoryMachine
