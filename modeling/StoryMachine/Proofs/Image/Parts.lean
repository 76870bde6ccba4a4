import StoryMachine.Image.Loader
import StoryMachine.Proofs.Bytes
import StoryMachine.Proofs.Pool.Bounds
import StoryMachine.Proofs.Pool.Calls

/-!
# The parts of an image

An image that is being loaded has parts, and a block is about one of them: it reads that part,
and changes no other. Runs of objects read the table of metaclasses besides. So what a block does
is the same wherever its own part is the same, whatever the others are.

* `Loader.Takes`, `Loader.Takes.block_eq`: what takes in the payload of a block;
* `Loader.Part`, `Loader.graft`: the parts, and an image with a part of another one;
* `Block.part?`: the part that a block is about;
* `Loader.block_graft`: what a block does does not depend on the other parts;
* `Loader.block_comm`: blocks about different parts can be exchanged;
* `Loader.Both`: images that are the same but for the pools, which are related;
* `Loader.Both.block`: what a block adds to both;
* `Image.LoadedFrom`: what an image that has been loaded comes from.
-/

namespace StoryMachine

theorem Except.bind_eq_map_bind_of_ok {ε α β γ : Type} {x : Except ε α} {f : α → Except ε β}
    {g : α → Except ε γ} {h : β → γ} (hf : ∀ a, x = .ok a → g a = (f a).map h) :
    x >>= g = (x >>= f).map h := by
  cases x with
  | error e => rfl
  | ok a => exact hf a rfl

theorem Except.bind_eq_map_bind {ε α β γ : Type} {x : Except ε α} {f : α → Except ε β}
    {g : α → Except ε γ} {h : β → γ} (hf : ∀ a, g a = (f a).map h) :
    x >>= g = (x >>= f).map h :=
  bind_eq_map_bind_of_ok fun a _ => hf a

/-- A check that is made of both. -/
theorem Except.guard_eq_map_guard {ε α β : Type} {c : Prop} [Decidable c] {e : ε}
    {f : Unit → Except ε α} {g : Unit → Except ε β} {h : α → β}
    (hf : ¬c → g () = (f ()).map h) :
    (if c then throw e >>= g else g ()) = (if c then throw e >>= f else f ()).map h := by
  split
  · rfl
  · next hc => exact hf hc

/-- What comes first of three parts stands at the front. -/
theorem Reader.exists_of_triple {α β γ : Type} {r : Reader α} {r' : Reader β} {r'' : Reader γ}
    {bs rest : Bytes} {a : α} {b : β} {c : γ}
    (hok : (do return (← r, ← r', ← r'') : Reader (α × β × γ)) bs = some ((a, b, c), rest)) :
    ∃ mid, r bs = some (a, mid) := by
  obtain ⟨a', mid, ha, hok⟩ := Reader.bind_eq_some.1 hok
  obtain ⟨_, _, -, hok⟩ := Reader.bind_eq_some.1 hok
  obtain ⟨_, _, -, hok⟩ := Reader.bind_eq_some.1 hok
  obtain ⟨heq, -⟩ := Reader.pure_eq_some.1 hok
  exact ⟨mid, (Prod.mk.inj heq).1 ▸ ha⟩

/-! ## Payloads -/

namespace Loader

/-- What takes in the payload of a block, by the tag of the block. -/
inductive Takes : Bytes → (Loader → Bytes → Except Failure Loader) → Prop where
  /-- The table of metaclasses. -/
  | metaclasses : Takes Block.metaclasses metaclassTable
  /-- The table of function sets. -/
  | functionSets : Takes Block.functionSets functionSetTable
  /-- The definition of a pool. -/
  | poolDefinition : Takes Block.poolDefinition poolDefinition
  /-- A run of objects. -/
  | objects : Takes Block.objects objectRun
  /-- Exported values. -/
  | symbols : Takes Block.symbols symbols
  /-- The entry point. -/
  | entryPoint : Takes Block.entryPoint entryPoint

/-- The tag decides what takes in the payload. The cases are those of the tags, in the order in
    which the tags are looked for. -/
theorem Takes.block_eq {tag : Bytes} {take : Loader → Bytes → Except Failure Loader} {b : Block}
    (htake : Takes tag take) (htag : b.tag = tag) (l : Loader) :
    l.block b = (payload b >>= take l) := by
  rw [block, htag]
  cases htake with
  | metaclasses => rw [if_neg (by decide +kernel), if_pos rfl]
  | functionSets => rw [if_neg (by decide +kernel), if_neg (by decide +kernel), if_pos rfl]
  | poolDefinition =>
    rw [if_neg (by decide +kernel), if_neg (by decide +kernel), if_neg (by decide +kernel),
      if_pos rfl]
  | objects =>
    rw [if_neg (by decide +kernel), if_neg (by decide +kernel), if_neg (by decide +kernel),
      if_neg (by decide +kernel), if_neg (by decide +kernel), if_pos rfl]
  | symbols =>
    rw [if_neg (by decide +kernel), if_neg (by decide +kernel), if_neg (by decide +kernel),
      if_neg (by decide +kernel), if_neg (by decide +kernel), if_neg (by decide +kernel),
      if_pos rfl]
  | entryPoint =>
    rw [if_neg (by decide +kernel), if_neg (by decide +kernel), if_neg (by decide +kernel),
      if_neg (by decide +kernel), if_neg (by decide +kernel), if_neg (by decide +kernel),
      if_neg (by decide +kernel), if_pos rfl]

theorem block_of_poolPage {b : Block} (htag : b.tag = Block.poolPage) (l : Loader) :
    l.block b = l.poolPage b := by
  rw [block, htag, if_neg (by decide +kernel), if_neg (by decide +kernel),
    if_neg (by decide +kernel), if_neg (by decide +kernel), if_pos rfl]

theorem eq_of_payload {b : Block} {bs : Bytes} (hbs : payload b = .ok bs) : bs = b.payload := by
  rw [payload] at hbs
  split at hbs
  · exact (Except.ok.inj hbs).symm
  · cases hbs

end Loader

/-! ## Parts -/

/-- Pools with one pool of others. -/
def Pools.graft (ps : Pools) (pool : UInt16) (qs : Pools) : Pools :=
  if pool = codePool then { ps with code := qs.code, codeDefined := qs.codeDefined }
  else if pool = constantPool then
    { ps with constant := qs.constant, constantDefined := qs.constantDefined }
  else ps

/-- A part of an image that is being loaded. -/
inductive Loader.Part where
  /-- The table of metaclasses. -/
  | metaclasses
  /-- The table of function sets. -/
  | functionSets
  /-- The pool with a number. -/
  | pool (pool : UInt16)
  /-- The objects. -/
  | objects
  /-- The exported values. -/
  | exports
  /-- The entry point. -/
  | entry
deriving DecidableEq, Repr

namespace Loader

/-- What has been loaded, with a part of something else. -/
def graft (l : Loader) (part? : Option Part) (l' : Loader) : Loader :=
  match part? with
  | none => l
  | some .metaclasses => { l with metaclasses? := l'.metaclasses? }
  | some .functionSets => { l with functionSets? := l'.functionSets? }
  | some (.pool pool) => { l with pools := l.pools.graft pool l'.pools }
  | some .objects => { l with heap := l'.heap, objects := l'.objects }
  | some .exports => { l with exports := l'.exports }
  | some .entry => { l with entry? := l'.entry? }

end Loader

/-- The number of the pool with which a payload starts. -/
def Block.pool? (b : Block) : Option UInt16 := (Reader.u16 b.payload).map Prod.fst

/-- The part that a block is about. -/
def Block.part? (b : Block) : Option Loader.Part :=
  if b.tag = metaclasses then some .metaclasses
  else if b.tag = functionSets then some .functionSets
  else if b.tag = poolDefinition then b.pool?.map .pool
  else if b.tag = poolPage then b.pool?.map .pool
  else if b.tag = objects then some .objects
  else if b.tag = symbols then some .exports
  else if b.tag = entryPoint then some .entry
  else none

/-- The block is one of those about a part. -/
def Loader.Part.IsOf (b : Block) : Loader.Part → Prop
  | .metaclasses => b.tag = Block.metaclasses
  | .functionSets => b.tag = Block.functionSets
  | .pool n => (b.tag = Block.poolDefinition ∨ b.tag = Block.poolPage) ∧ b.pool? = some n
  | .objects => b.tag = Block.objects
  | .exports => b.tag = Block.symbols
  | .entry => b.tag = Block.entryPoint

theorem Block.isOf_of_part? {b : Block} {p : Loader.Part} (hb : b.part? = some p) : p.IsOf b := by
  unfold part? at hb
  split_ifs at hb with hmetaclasses hfunctionSets hdefinition hpage hobjects hsymbols hentry
  · exact Option.some.inj hb ▸ hmetaclasses
  · exact Option.some.inj hb ▸ hfunctionSets
  · obtain ⟨pool, hpool, rfl⟩ := Option.map_eq_some_iff.1 hb
    exact ⟨.inl hdefinition, hpool⟩
  · obtain ⟨pool, hpool, rfl⟩ := Option.map_eq_some_iff.1 hb
    exact ⟨.inr hpage, hpool⟩
  · exact Option.some.inj hb ▸ hobjects
  · exact Option.some.inj hb ▸ hsymbols
  · exact Option.some.inj hb ▸ hentry

namespace Pools

variable {ps qs rs : Pools} {pool other : UInt16}

theorem graft_self (ps : Pools) (pool : UInt16) : ps.graft pool ps = ps := by
  unfold graft
  split_ifs <;> rfl

theorem graft_comm (hne : pool ≠ other) (ps qs rs : Pools) :
    (ps.graft pool qs).graft other rs = (ps.graft other rs).graft pool qs := by
  have hcodes : ¬(pool = codePool ∧ other = codePool) := fun h => hne (h.1.trans h.2.symm)
  have hconstants : ¬(pool = constantPool ∧ other = constantPool) := fun h =>
    hne (h.1.trans h.2.symm)
  unfold graft
  split_ifs <;> first | rfl | tauto

theorem get_graft (qs ps : Pools) (pool : UInt16) : (qs.graft pool ps).get pool = ps.get pool := by
  unfold get get? graft
  split_ifs <;> rfl

theorem isDefined_graft (qs ps : Pools) (pool : UInt16) :
    (qs.graft pool ps).isDefined pool = ps.isDefined pool := by
  unfold isDefined graft
  by_cases hcode : pool = codePool
  · subst hcode
    rfl
  by_cases hconstant : pool = constantPool
  · subst hconstant
    rfl
  · rw [beq_eq_false_iff_ne.2 hcode, beq_eq_false_iff_ne.2 hconstant]
    rfl

theorem set_graft (qs ps : Pools) (pool : UInt16) (p : Pool) :
    (qs.graft pool ps).set pool p = qs.graft pool (ps.set pool p) := by
  unfold set graft
  split_ifs <;> rfl

/-- A pool is defined in the same way whatever the other pool is. -/
theorem define_graft (qs ps : Pools) (pool : UInt16) (pageCount pageSize : UInt32) :
    (qs.graft pool ps).define pool pageCount pageSize =
      (ps.define pool pageCount pageSize).map (qs.graft pool) := by
  unfold define
  rw [isDefined_graft, get_graft]
  by_cases hdefined : ps.isDefined pool = true
  · rw [if_pos hdefined, if_pos hdefined]
    rfl
  rw [if_neg hdefined, if_neg hdefined]
  cases hget : ps.get pool with
  | error e => rfl
  | ok p =>
    refine Except.bind_eq_map_bind (x := p.define pageCount pageSize) fun p' => ?_
    rw [set_graft]
    rcases eq_of_get?_eq_some (get_eq_ok_iff.1 hget) with ⟨rfl, -⟩ | ⟨rfl, -⟩ <;> rfl

/-- A page is added in the same way whatever the other pool is. -/
theorem addPage_graft (qs ps : Pools) (pool : UInt16) (index : UInt32) (mask : UInt8)
    (data : PageData) : (qs.graft pool ps).addPage pool index mask data =
      (ps.addPage pool index mask data).map (qs.graft pool) := by
  unfold addPage
  rw [get_graft]
  refine Except.bind_eq_map_bind fun p => Except.bind_eq_map_bind fun p' => ?_
  rw [set_graft]
  rfl

end Pools

namespace Loader

/-- The parts are not the same. -/
def Apart (p? q? : Option Part) : Prop := ∀ p ∈ p?, p ∉ q?

theorem Apart.symm {p? q? : Option Part} (happart : Apart p? q?) : Apart q? p? :=
  fun p hq hp => happart p hp hq

section Graft

variable {p? q? : Option Part} {l l' : Loader}

theorem graft_self (l : Loader) (p? : Option Part) : l.graft p? l = l := by
  rcases p? with _ | p
  · rfl
  cases p with
  | pool pool =>
    dsimp only [graft]
    rw [Pools.graft_self]
  | _ => rfl

theorem graft_comm (hapart : Apart p? q?) (l k k' : Loader) :
    (l.graft p? k).graft q? k' = (l.graft q? k').graft p? k := by
  rcases p? with _ | p
  · rfl
  rcases q? with _ | q
  · rfl
  have hne : p ≠ q := fun heq => hapart p rfl (congrArg some heq.symm)
  cases p with
  | pool pool =>
    cases q with
    | pool other =>
      dsimp only [graft]
      rw [Pools.graft_comm fun heq => hne (congrArg Part.pool heq)]
    | _ => rfl
  | _ => cases q <;> first | rfl | exact absurd rfl hne

/-- A part that has not been changed is the one there was. -/
theorem graft_of_eq_graft (hl : l' = l.graft p? l') (hapart : Apart p? q?) :
    l'.graft q? l = l' := by
  rw [hl, graft_comm hapart, graft_self]

theorem metaclasses?_of_eq_graft (hl : l' = l.graft p? l') (hp : p? ≠ some .metaclasses) :
    l'.metaclasses? = l.metaclasses? := by
  rw [hl]
  rcases p? with _ | p
  · rfl
  cases p with
  | metaclasses => exact absurd rfl hp
  | _ => rfl

theorem pools_of_eq_graft (hl : l' = l.graft p? l') (hp : ∀ pool, p? ≠ some (.pool pool)) :
    l'.pools = l.pools := by
  rw [hl]
  rcases p? with _ | p
  · rfl
  cases p with
  | pool pool => exact absurd rfl (hp pool)
  | _ => rfl

end Graft

section Blocks

variable (k l : Loader) (bs : Bytes)

/-! ## What a block is about -/

theorem metaclassTable_graft : (k.graft (some .metaclasses) l).metaclassTable bs =
    (l.metaclassTable bs).map (k.graft (some .metaclasses)) := by
  unfold metaclassTable
  refine Except.guard_eq_map_guard (c := l.metaclasses?.isSome = true) fun _ => ?_
  exact Except.bind_eq_map_bind fun _ => Except.bind_eq_map_bind fun _ => rfl

theorem functionSetTable_graft : (k.graft (some .functionSets) l).functionSetTable bs =
    (l.functionSetTable bs).map (k.graft (some .functionSets)) := by
  unfold functionSetTable
  refine Except.guard_eq_map_guard (c := l.functionSets?.isSome = true) fun _ => ?_
  exact Except.bind_eq_map_bind fun _ => Except.bind_eq_map_bind fun _ => rfl

theorem symbols_graft : (k.graft (some .exports) l).symbols bs =
    (l.symbols bs).map (k.graft (some .exports)) :=
  Except.bind_eq_map_bind fun _ => Except.bind_eq_map_bind fun _ => rfl

theorem entryPoint_graft : (k.graft (some .entry) l).entryPoint bs =
    (l.entryPoint bs).map (k.graft (some .entry)) := by
  unfold entryPoint
  refine Except.guard_eq_map_guard (c := l.entry?.isSome = true) fun _ => ?_
  refine Except.bind_eq_map_bind fun (entry, _) => ?_
  exact Except.guard_eq_map_guard fun _ => Except.guard_eq_map_guard fun _ => rfl

/-- The definition of a pool: its number, the number of pages and their size. -/
def definitionFields : Reader (UInt16 × UInt32 × UInt32) := do
  return (← Reader.u16, ← Reader.u32, ← Reader.u32)

/-- A definition starts with the number of the pool. -/
theorem u16_of_definitionFields {bs rest : Bytes} {pool : UInt16} {pageCount pageSize : UInt32}
    (hfields : definitionFields bs = some ((pool, pageCount, pageSize), rest)) :
    (Reader.u16 bs).map Prod.fst = some pool := by
  obtain ⟨mid, hpool⟩ := Reader.exists_of_triple hfields
  rw [hpool]
  rfl

theorem poolDefinition_graft : (k.graft (((Reader.u16 bs).map Prod.fst).map .pool) l).poolDefinition
    bs = (l.poolDefinition bs).map (k.graft (((Reader.u16 bs).map Prod.fst).map .pool)) := by
  refine Except.bind_eq_map_bind_of_ok fun ((pool, pageCount, pageSize), rest) hfields => ?_
  have hdefine := Pools.define_graft k.pools l.pools pool pageCount pageSize
  rw [u16_of_definitionFields (Parser.of_eq_ok.1 hfields)]
  dsimp only [graft, Option.map_some]
  rw [hdefine]
  cases l.pools.define pool pageCount pageSize <;> rfl

/-- So does a page. -/
theorem pool?_of_pageFields {b : Block} {pool : UInt16} {index : UInt32} {mask : UInt8}
    {page : Bytes} (hfields : pageFields b.payload = some ((pool, index, mask), page)) :
    b.pool? = some pool := by
  obtain ⟨mid, hpool⟩ := Reader.exists_of_triple hfields
  rw [Block.pool?, hpool]
  rfl

theorem poolPage_graft (b : Block) : (k.graft (b.pool?.map .pool) l).poolPage b =
    (l.poolPage b).map (k.graft (b.pool?.map .pool)) := by
  unfold poolPage
  refine Except.guard_eq_map_guard fun _ => ?_
  cases hfields : pageFields b.payload with
  | none => rfl
  | some read =>
    obtain ⟨⟨pool, index, mask⟩, page⟩ := read
    have hget := Pools.get_graft k.pools l.pools pool
    rw [pool?_of_pageFields hfields]
    dsimp only [graft, Option.map_some]
    rw [hget]
    have hadd (data : Except Failure PageData) :
        (data >>= fun data => (k.pools.graft pool l.pools).addPage pool index mask data >>=
          fun pools => pure { k with pools }) =
        (data >>= fun data => l.pools.addPage pool index mask data >>= fun pools =>
          pure { l with pools }).map (k.graft (some (.pool pool))) := by
      refine Except.bind_eq_map_bind fun data => ?_
      rw [Pools.addPage_graft]
      cases l.pools.addPage pool index mask data <;> rfl
    -- The data is left in the image, or is taken as it is, or is not all there.
    refine Except.bind_eq_map_bind fun p => ?_
    split_ifs
    · exact hadd _
    · exact hadd _
    · exact hadd _

theorem objectEntries_graft (metaclass : MetaclassId) (kind : Kind) (large : Bool) (n : Nat) :
    objectEntries metaclass kind large n (k.graft (some .objects) l) bs =
      (objectEntries metaclass kind large n l bs).map
        (Prod.map (k.graft (some .objects)) id) := by
  induction n generalizing l bs with
  | zero => rfl
  | succ n ih =>
    refine Except.bind_eq_map_bind fun (id, bs) => Except.bind_eq_map_bind fun (length, bs) =>
      Except.bind_eq_map_bind fun (data, bs) => ?_
    dsimp only
    cases ObjectData.load kind data with
    | error e => rfl
    | ok body =>
      obtain ⟨pools, heap, metaclasses?, functionSets?, entry?, exports, objects⟩ := l
      dsimp only [graft, bind, StateT.bind, pure, StateT.pure, Except.bind, Except.pure]
      cases Heap.define id ⟨metaclass, body⟩ heap with
      | error e h => rfl
      | ok _ h =>
        have hrest := ih ⟨pools, h, metaclasses?, functionSets?, entry?, exports,
          objects.push (id, ⟨metaclass, body⟩)⟩ bs
        exact hrest

/-- The kind of the objects is looked up in the table of metaclasses. -/
theorem objectRun_graft (htable : k.metaclasses? = l.metaclasses?) :
    (k.graft (some .objects) l).objectRun bs =
      (l.objectRun bs).map (k.graft (some .objects)) := by
  have hsame : (k.graft (some .objects) l).metaclasses? = l.metaclasses? := htable
  unfold objectRun
  rw [hsame]
  cases l.metaclasses? with
  | none => rfl
  | some t =>
    refine Except.bind_eq_map_bind fun ((n, metaclass, flags), bs) => ?_
    dsimp only
    cases t.get? metaclass with
    | none => rfl
    | some entry =>
      dsimp only
      rw [objectEntries_graft]
      cases objectEntries metaclass entry.kind (flags &&& 1 != 0) n.toNat l bs with
      | error e => rfl
      | ok r =>
        obtain ⟨l', rest⟩ := r
        cases rest <;> rfl

/-- What a block does depends on the part that it is about, and on the table of metaclasses if it
    is a run of objects. No other part is changed. -/
theorem block_graft {b : Block} (htable : b.tag = Block.objects → k.metaclasses? = l.metaclasses?) :
    (k.graft b.part? l).block b = (l.block b).map (k.graft b.part?) := by
  unfold block
  by_cases heof : b.tag = Block.eof
  · rw [if_pos heof, if_pos heof]
    rfl
  rw [if_neg heof, if_neg heof]
  unfold Block.part?
  split_ifs with _ _ _ _ hobjects
  · exact Except.bind_eq_map_bind fun bs => metaclassTable_graft k l bs
  · exact Except.bind_eq_map_bind fun bs => functionSetTable_graft k l bs
  · refine Except.bind_eq_map_bind_of_ok fun bs hbs => ?_
    rw [Block.pool?, ← eq_of_payload hbs]
    exact poolDefinition_graft k l bs
  · exact poolPage_graft k l b
  · exact Except.bind_eq_map_bind fun bs => objectRun_graft k l bs (htable hobjects)
  · exact Except.bind_eq_map_bind fun bs => symbols_graft k l bs
  · exact Except.bind_eq_map_bind fun bs => entryPoint_graft k l bs
  · rfl
  · rfl

end Blocks

/-! ## Blocks about different parts -/

variable {l l₁ l₂ : Loader} {a b : Block}

/-- A block changes the part that it is about. -/
theorem eq_graft_of_block (hok : l.block b = .ok l') : l' = l.graft b.part? l' := by
  have hself := block_graft l l (b := b) fun _ => rfl
  rw [graft_self, hok] at hself
  exact Except.ok.inj hself

/-- Blocks about different parts can be exchanged, unless one of them is the table of metaclasses
    and the other one a run of objects. -/
theorem block_comm (hapart : Apart a.part? b.part?)
    (hafter : b.tag = Block.objects → a.part? ≠ some .metaclasses)
    (hbefore : a.tag = Block.objects → b.part? ≠ some .metaclasses)
    (ha : l.block a = .ok l₁) (hb : l₁.block b = .ok l₂) :
    ∃ l', l.block b = .ok l' ∧ l'.block a = .ok l₂ := by
  have hl₁ := eq_graft_of_block ha
  -- The second block finds its own part as it was at first.
  have hfirst := block_graft l₁ l (b := b) fun htag => metaclasses?_of_eq_graft hl₁ (hafter htag)
  rw [graft_of_eq_graft hl₁ hapart, hb] at hfirst
  obtain ⟨l', hl', rfl⟩ := Except.map_eq_ok.1 hfirst.symm
  have hl₂ := eq_graft_of_block hl'
  have hsecond := block_graft l' l (b := a) fun htag => metaclasses?_of_eq_graft hl₂ (hbefore htag)
  rw [graft_of_eq_graft hl₂ hapart.symm, ha] at hsecond
  refine ⟨l', hl', hsecond.trans (congrArg Except.ok ?_)⟩
  calc l'.graft a.part? l₁
    _ = (l.graft b.part? l').graft a.part? l₁ := by rw [← hl₂]
    _ = (l.graft a.part? l₁).graft b.part? l' := graft_comm hapart.symm l l' l₁
    _ = l₁.graft b.part? l' := by rw [← hl₁]

/-! ## Images with other pools -/

/-- The same, with other pools. -/
def withPools (l : Loader) (pools : Pools) : Loader := { l with pools }

/-- All is the same but the pools, and these are related. -/
inductive Both (R : Pool → Pool → Prop) : Loader → Loader → Prop
  | withPools {l : Loader} {pools : Pools} (hp : l.pools.Both R pools) :
      Both R l (l.withPools pools)

variable {R : Pool → Pool → Prop} {b' : Block}

theorem graft_withPools {p? : Option Part} (hp : ∀ pool, p? ≠ some (.pool pool)) (l l₁ : Loader)
    (pools : Pools) : (l.withPools pools).graft p? l₁ = (l.graft p? l₁).withPools pools := by
  rcases p? with _ | p
  · rfl
  cases p with
  | pool pool => exact absurd rfl (hp pool)
  | _ => rfl

/-- Only a page has to know where it is. -/
theorem block_of_same (hb : b' = { b with offset := b'.offset }) (htag : b.tag ≠ Block.poolPage) :
    l.block b' = l.block b := by
  rw [hb]
  unfold block
  dsimp only
  rw [if_neg htag, if_neg htag]
  rfl

/-- A block that is not about a pool does not read the pools. -/
theorem Both.other (hl : l.Both R l') (hpart : ∀ pool, b.part? ≠ some (.pool pool)) :
    Alike (Both R) (l.block b) (l'.block b) := by
  obtain @⟨pools, hp⟩ := hl
  have hsame := block_graft (l.withPools pools) l (b := b) fun _ => rfl
  rw [graft_withPools hpart, graft_self] at hsame
  rw [hsame]
  cases hok : l.block b with
  | error e => exact .error rfl
  | ok l₁ =>
    have hl₁ := eq_graft_of_block hok
    have hpools : l₁.pools.Both R pools := by rwa [pools_of_eq_graft hl₁ hpart]
    refine .ok ?_
    rw [graft_withPools hpart, ← hl₁]
    exact .withPools hpools

/-- What one block adds, which may be elsewhere in another image. Only pages have to be looked
    at. -/
theorem Both.block (hdefine : ∀ p q pageCount pageSize, R p q →
      Alike R (p.define pageCount pageSize) (q.define pageCount pageSize))
    (hl : l.Both R l') (hb : b' = { b with offset := b'.offset })
    (hpage : b.tag = Block.poolPage → Alike (Both R) (l.poolPage b) (l'.poolPage b')) :
    Alike (Both R) (l.block b) (l'.block b') := by
  by_cases htag : b.tag = Block.poolPage
  · have htag' : b'.tag = Block.poolPage := by rw [hb, htag]
    rw [block_of_poolPage htag, block_of_poolPage htag']
    exact hpage htag
  rw [block_of_same hb htag]
  by_cases hdefinition : b.tag = Block.poolDefinition
  · rw [Takes.poolDefinition.block_eq hdefinition, Takes.poolDefinition.block_eq hdefinition]
    obtain @⟨pools, hp⟩ := hl
    refine .bindSame fun bs => .bindSame fun _ => ?_
    exact (Pools.Both.define (fun p q hpool => hdefine p q _ _ hpool) hp _).bind fun _ _ hp =>
      .ok (.withPools hp)
  · refine hl.other fun pool hpart => ?_
    rcases (Block.isOf_of_part? hpart).1 with hpool | hpool
    · exact hdefinition hpool
    · exact htag hpool

/-- The checks of the whole come out the same, if there are pages in both pools or in none. -/
theorem Both.finish (hpages : ∀ p q, R p q → (p.loadedPages == 0) = (q.loadedPages == 0))
    (hl : l.Both R l') : l.finish = l'.finish := by
  obtain @⟨pools, hp⟩ := hl
  have hcheck (pool : UInt16) : checkPool l.pools pool = checkPool pools pool := by
    rw [checkPool, checkPool, hp.isDefined, hp.loadedPages hpages]
  rw [Loader.finish, hcheck, hcheck, hp.isDefined]
  rfl

end Loader

/-! ## Whole images -/

namespace Image

variable {bs rest : Bytes} {version : UInt16} {mode : PoolMode} {settings : HeapSettings}
  {r : Image × Pools × Heap}

/-- The blocks stand after the signature and the version. -/
theorem eq_drop_of_start (hok : start bs = .ok (version, rest)) :
    rest = bs.drop (signature.length + 2) := by
  obtain ⟨⟨front, mid⟩, hfront, hok⟩ := Except.bind_eq_ok.1 hok
  obtain ⟨-, hok⟩ := Except.guard_eq_ok.1 hok
  obtain ⟨⟨version', rest'⟩, hversion, hok⟩ := Except.bind_eq_ok.1 hok
  obtain ⟨-, hok⟩ := Except.guard_eq_ok.1 hok
  obtain ⟨rfl, rfl⟩ := Prod.mk.inj (Except.ok.inj hok)
  rw [(Reader.takes_u16 _ _ _ (Parser.of_eq_ok.1 hversion)).2,
    (Reader.takes_bytes _ _ _ _ (Parser.of_eq_ok.1 hfront)).2, List.drop_drop]

/-- An image with its pools and its object table is what all of its blocks have added up
    to. -/
structure LoadedFrom (bs : Bytes) (mode : PoolMode) (settings : HeapSettings)
    (r : Image × Pools × Heap) (l : Loader) : Prop where
  /-- The bytes do not break off, and nothing comes after the last block. -/
  blocks : Blocks.ofBytes (signature.length + 2) (bs.drop (signature.length + 2)) =
    ⟨r.1.blocks, .eof⟩
  /-- The blocks have been taken in one after the other. -/
  taken : r.1.blocks.foldlM Loader.block
    { pools := .new mode bs.toArray, heap := .new settings } = .ok l
  /-- What they add up to has passed the checks of the whole. -/
  finish : ∃ t f, l.finish = .ok (t, f, r.1.entry) ∧ r.1.metaclasses = t.ensureRequired
  /-- The exported values are theirs. -/
  exports : r.1.exports = l.exports
  /-- So are the objects. -/
  objects : r.1.objects = l.objects
  /-- The image is known by all of its bytes. -/
  identity : r.1.identity = Sha256.digest bs
  /-- The pools have been defined by the blocks. -/
  pools : r.2.1 = l.pools
  /-- The numbers that no object has can be given to new ones. -/
  heap : r.2.2 = l.heap.openHoles

theorem exists_loadedFrom (hok : load bs mode settings = .ok r) :
    ∃ l, LoadedFrom bs mode settings r l := by
  obtain ⟨⟨version, rest⟩, hstart, hok⟩ := Except.bind_eq_ok.1 hok
  obtain rfl := eq_drop_of_start hstart
  obtain ⟨l, htaken, hok⟩ := Except.bind_eq_ok.1 hok
  obtain ⟨_, hend, hok⟩ := Except.bind_eq_ok.1 hok
  obtain ⟨⟨t, f, entry⟩, hfinish, hok⟩ := Except.bind_eq_ok.1 hok
  obtain rfl := Except.ok.inj hok
  refine ⟨l, ?_, htaken, ⟨t, f, hfinish, rfl⟩, rfl, rfl, rfl, rfl, rfl⟩
  -- Only one way in which blocks can end is accepted.
  cases hending :
      (Blocks.ofBytes (signature.length + 2) (bs.drop (signature.length + 2))).ending with
  | eof => rw [← hending]
  | trailing | truncated =>
    rw [hending] at hend
    cases hend

end Image

end StoryMachine
