import StoryMachine.Proofs.Heap.Filling
import StoryMachine.Proofs.Image.Elsewhere
import StoryMachine.Proofs.Image.RoundTrip
import StoryMachine.Proofs.Pool.Order

/-!
# The order of blocks

Two blocks of an image that stand next to each other may change places, unless the second one needs
the first: objects come after the table of metaclasses, pages after the definition of their pool,
and of two blocks of symbols the second one may replace what the first one exports. The image holds
the same, but for the order in which its objects are listed.

* `Loader.Entered`: objects that a run adds, whatever else has been loaded;
* `Loader.Rearranged`: the same objects in another order;
* `Segment.Precedes`: a block that has to come before another one;
* `Loader.exists_exchanged`: two blocks in the other order;
* `Image.load_exchange`: an image with two of its blocks exchanged.
-/

namespace StoryMachine

namespace Loader

variable {l l₁ l₂ l' k k' : Loader} {a b : Block} {ds ds' : List (UInt32 × Object)}
  {bs rest : Bytes}

/-! ## Objects -/

/-- Objects are added to the table and to the list of objects. -/
structure Entered (l : Loader) (ds : List (UInt32 × Object)) (l' : Loader) : Prop where
  /-- They are put into the table. -/
  fills : l.heap.Fills ds l'.heap
  /-- Nothing else changes but the list. -/
  same : l' = { l with heap := l'.heap, objects := l.objects ++ ds.toArray }

theorem entered_nil (l : Loader) : l.Entered [] l := ⟨.nil, by rw [Array.append_empty]⟩

theorem Entered.eq_of_nil (hl : l.Entered [] l') : l' = l := by
  obtain ⟨hfills, hsame⟩ := hl
  rw [Array.append_empty] at hsame
  rw [hsame]
  generalize l'.heap = heap at hfills
  cases hfills
  rfl

theorem entered_cons {d : UInt32 × Object} {id : ObjectId} {heap : Heap}
    (hdefine : Heap.define d.1 d.2 l.heap = .ok id heap)
    (hrest : Entered { l with heap, objects := l.objects.push d } ds l') :
    l.Entered (d :: ds) l' := by
  refine ⟨.cons hdefine hrest.fills, hrest.same.trans ?_⟩
  have hobjects : l.objects.push d ++ ds.toArray = l.objects ++ (d :: ds).toArray := by simp
  rw [hobjects]

theorem Entered.of_cons {d : UInt32 × Object} (hd : l.Entered (d :: ds) l') : ∃ id heap,
    Heap.define d.1 d.2 l.heap = .ok id heap ∧
      Entered { l with heap, objects := l.objects.push d } ds l' := by
  obtain ⟨hfills, hsame⟩ := hd
  obtain ⟨⟩ | ⟨hdefine, hrest⟩ := hfills
  refine ⟨_, _, hdefine, hrest, hsame.trans ?_⟩
  have hobjects : l.objects ++ (d :: ds).toArray = l.objects.push d ++ ds.toArray := by simp
  rw [hobjects]

/-- What is read for objects does not depend on what has been loaded. -/
theorem exists_entered_of_objectEntries {metaclass : MetaclassId} {kind : Kind} {large : Bool}
    {n : Nat} (hok : objectEntries metaclass kind large n l bs = .ok (l', rest)) :
    ∃ ds, l.Entered ds l' ∧
      ∀ k k', Entered k ds k' → objectEntries metaclass kind large n k bs = .ok (k', rest) := by
  induction n generalizing l bs with
  | zero =>
    obtain ⟨rfl, rfl⟩ := Parser.pure_eq_ok.1 hok
    refine ⟨[], entered_nil l, fun k k' hk => ?_⟩
    rw [hk.eq_of_nil]
    rfl
  | succ n ih =>
    obtain ⟨id, mid, length, mid₁, data, mid₂, body, id', heap, hid, hlength, hdata, hload, hdefine,
      hok⟩ := objectEntries_succ_eq_ok.1 hok
    obtain ⟨ds, hds, hall⟩ := ih hok
    refine ⟨(id, ⟨metaclass, body⟩) :: ds, entered_cons hdefine hds, fun k k' hk => ?_⟩
    -- The bytes are the same, so only the table is another one.
    obtain ⟨id₁, heap₁, hdefine₁, hrest⟩ := hk.of_cons
    exact objectEntries_succ_eq_ok.2 ⟨id, mid, length, mid₁, data, mid₂, body, id₁, heap₁, hid,
      hlength, hdata, hload, hdefine₁, hall _ _ hrest⟩

theorem exists_entered_of_objectRun (hok : objectRun l bs = .ok l') :
    l.metaclasses? ≠ none ∧ ∃ ds, l.Entered ds l' ∧ ∀ k k', k.metaclasses? = l.metaclasses? →
      Entered k ds k' → objectRun k bs = .ok k' := by
  rw [objectRun.eq_def] at hok
  cases htable : l.metaclasses? with
  | none =>
    rw [htable] at hok
    cases hok
  | some t =>
    rw [htable] at hok
    obtain ⟨⟨⟨n, metaclass, flags⟩, mid⟩, hfields, hok⟩ := Except.bind_eq_ok.1 hok
    dsimp only at hok
    cases hentry : t.get? metaclass with
    | none =>
      rw [hentry] at hok
      cases hok
    | some entry =>
      rw [hentry] at hok
      obtain ⟨⟨l₁, rest⟩, hentries, hok⟩ := Except.bind_eq_ok.1 hok
      obtain ⟨hrest, hok⟩ := Except.guard_eq_ok.1 hok
      obtain rfl := Except.ok.inj hok
      obtain ⟨ds, hds, hall⟩ := exists_entered_of_objectEntries hentries
      refine ⟨nofun, ds, hds, fun k k' hk hds' => ?_⟩
      rw [objectRun.eq_def, hk]
      refine Except.bind_eq_ok.2 ⟨_, hfields, ?_⟩
      dsimp only
      rw [hentry]
      exact Except.bind_eq_ok.2 ⟨_, hall k k' hds', Except.guard_eq_ok.2 ⟨hrest, rfl⟩⟩

/-- A block of objects adds the same ones wherever the table of metaclasses is the same. -/
theorem exists_entered_of_block (htag : b.tag = Block.objects) (hok : l.block b = .ok l') :
    l.metaclasses? ≠ none ∧ ∃ ds, l.Entered ds l' ∧ ∀ k k', k.metaclasses? = l.metaclasses? →
      Entered k ds k' → k.block b = .ok k' := by
  rw [Takes.objects.block_eq htag] at hok
  obtain ⟨bs, hbs, hok⟩ := Except.bind_eq_ok.1 hok
  obtain ⟨htable, ds, hds, hall⟩ := exists_entered_of_objectRun hok
  refine ⟨htable, ds, hds, fun k k' hk hds' => ?_⟩
  rw [Takes.objects.block_eq htag]
  exact Except.bind_eq_ok.2 ⟨bs, hbs, hall k k' hk hds'⟩

/-! ## Objects in another order -/

/-- The same objects are listed in another order. -/
structure Rearranged (l l' : Loader) : Prop where
  /-- Nothing else is changed. -/
  same : l' = { l with objects := l'.objects }
  /-- The objects are the same. -/
  perm : l.objects.toList.Perm l'.objects.toList

theorem Rearranged.refl (l : Loader) : l.Rearranged l := ⟨rfl, .rfl⟩

theorem graft_withObjects {p? : Option Part} (hp : p? ≠ some .objects) (l l₁ : Loader)
    (objects : Array (UInt32 × Object)) :
    { l with objects }.graft p? l₁ = { l.graft p? l₁ with objects } := by
  rcases p? with _ | p
  · rfl
  cases p with
  | objects => exact absurd rfl hp
  | _ => rfl

/-- What one block adds does not depend on the order of the objects before it. -/
theorem Rearranged.block (hl : l.Rearranged k) (hok : l.block b = .ok l') :
    ∃ k', k.block b = .ok k' ∧ l'.Rearranged k' := by
  obtain ⟨hsame, hperm⟩ := hl
  by_cases htag : b.tag = Block.objects
  · obtain ⟨-, ds, ⟨hfills, hl'⟩, hall⟩ := exists_entered_of_block htag hok
    have hmetaclasses : k.metaclasses? = l.metaclasses? := by rw [hsame]
    have hheap : k.heap = l.heap := by rw [hsame]
    have hk : k.Entered ds { k with heap := l'.heap, objects := k.objects ++ ds.toArray } :=
      ⟨hheap ▸ hfills, rfl⟩
    refine ⟨_, hall k _ hmetaclasses hk, ?_, ?_⟩
    · rw [hsame, hl']
    · rw [hl', Array.toList_append, Array.toList_append]
      exact hperm.append_right ds
  · have hpart : b.part? ≠ some .objects := fun hpart => htag (Block.isOf_of_part? hpart)
    have hblock := block_graft { l with objects := k.objects } l (b := b) fun hobjects =>
      absurd hobjects htag
    rw [graft_withObjects hpart, graft_self, ← hsame, hok] at hblock
    have hl' := eq_graft_of_block hok
    have hk : k.graft b.part? l' = { l' with objects := k.objects } := by
      rw [hsame, graft_withObjects hpart, ← hl']
    have hkeeps := congrArg Loader.objects (graft_withObjects hpart l l' l.objects)
    have hobjects : l'.objects = l.objects := (congrArg Loader.objects hl').trans hkeeps
    have hperm' : l'.objects.toList.Perm k.objects.toList := by rwa [hobjects]
    exact ⟨_, hblock.trans (congrArg Except.ok hk), rfl, hperm'⟩

theorem Rearranged.foldlM {blocks : List Block} (hl : l.Rearranged k)
    (hok : blocks.foldlM Loader.block l = .ok l') :
    ∃ k', blocks.foldlM Loader.block k = .ok k' ∧ l'.Rearranged k' := by
  induction blocks generalizing l k with
  | nil =>
    obtain rfl := Except.ok.inj hok
    exact ⟨k, rfl, hl⟩
  | cons b blocks ih =>
    rw [List.foldlM_cons] at hok
    obtain ⟨l₁, hb, hok⟩ := Except.bind_eq_ok.1 hok
    obtain ⟨k₁, hb', hl₁⟩ := hl.block hb
    obtain ⟨k', hok', hl'⟩ := ih hl₁ hok
    exact ⟨k', by rw [List.foldlM_cons]; exact Except.bind_eq_ok.2 ⟨k₁, hb', hok'⟩, hl'⟩

/-- The checks of the whole do not depend on the order either. -/
theorem Rearranged.finish {r : MetaclassTable × FunctionSetTable × EntryPoint}
    (hl : l.Rearranged k) (hok : l.finish = .ok r) : k.finish = .ok r := by
  obtain ⟨hsame, hperm⟩ := hl
  have hempty : k.objects.isEmpty = l.objects.isEmpty := by
    rw [Bool.eq_iff_iff, Array.isEmpty_iff_size_eq_zero, Array.isEmpty_iff_size_eq_zero,
      ← Array.length_toList, ← Array.length_toList, hperm.length_eq]
  have hsupers (f : UInt32 × Object → Except Failure Unit) (hf : l.objects.forM f = .ok ()) :
      k.objects.forM f = .ok () := by
    rw [forM_eq_ok] at hf ⊢
    exact fun d hd => hf d (hperm.mem_iff.2 hd)
  rw [hsame]
  unfold Loader.finish at hok ⊢
  dsimp only
  split at hok
  swap
  · cases hok
  next t _ =>
  split at hok
  swap
  · cases hok
  next f _ =>
  obtain ⟨hcode, hok⟩ := Except.guard_eq_ok.1 hok
  obtain ⟨_, hcodePages, hok⟩ := Except.bind_eq_ok.1 hok
  obtain ⟨_, hconstantPages, hok⟩ := Except.bind_eq_ok.1 hok
  obtain ⟨hsome, hok⟩ := Except.guard_eq_ok.1 hok
  split at hok
  swap
  · cases hok
  next e _ =>
  obtain ⟨_, hchecked, hok⟩ := Except.bind_eq_ok.1 hok
  refine Except.guard_eq_ok.2 ⟨hcode, Except.bind_eq_ok.2 ⟨_, hcodePages, Except.bind_eq_ok.2
    ⟨_, hconstantPages, Except.guard_eq_ok.2 ⟨hempty ▸ hsome, ?_⟩⟩⟩⟩
  exact Except.bind_eq_ok.2 ⟨(), hsupers _ hchecked, hok⟩

/-! ## Two blocks -/

/-- What is kept of a page: where it is if the pool is paged, and its bytes if it is not. -/
def pageData (b : Block) (paged : Bool) (page : Bytes) : Except Failure PageData :=
  if paged then .ok (.deferred (b.offset + pageFieldsSize) (b.size.toNat - pageFieldsSize))
  else if b.isComplete then .ok (.bytes page)
  else .error truncated

theorem block_of_pageFields {pool : UInt16} {index : UInt32} {mask : UInt8} {page : Bytes}
    {p : Pool} (htag : b.tag = Block.poolPage) (hsize : ¬b.size.toNat < pageFieldsSize)
    (hfields : pageFields b.payload = some ((pool, index, mask), page))
    (hp : l.pools.get pool = .ok p) :
    l.block b = pageData b p.isPaged page >>= fun data =>
      l.pools.addPage pool index mask data >>= fun pools => pure { l with pools } := by
  rw [block_of_poolPage htag, poolPage, if_neg hsize, hfields]
  dsimp only
  rw [hp, pageData]
  dsimp only [bind, Except.bind]
  split_ifs <;> rfl

/-- A page is added to the pool with its number, whatever else has been loaded. -/
theorem exists_page_of_block (htag : b.tag = Block.poolPage) (hok : l.block b = .ok l') :
    ∃ pool index mask data p pools, b.pool? = some pool ∧ l.pools.get pool = .ok p ∧
      l.pools.addPage pool index mask data = .ok pools ∧ l' = { l with pools } ∧
      ∀ (k : Loader) q pools', k.pools.get pool = .ok q → q.isPaged = p.isPaged →
        k.pools.addPage pool index mask data = .ok pools' →
          k.block b = .ok { k with pools := pools' } := by
  have hpage := hok
  rw [block_of_poolPage htag, poolPage] at hpage
  by_cases hsize : b.size.toNat < pageFieldsSize
  · rw [if_pos hsize] at hpage
    cases hpage
  rw [if_neg hsize] at hpage
  cases hfields : pageFields b.payload with
  | none =>
    rw [hfields] at hpage
    cases hpage
  | some read =>
    obtain ⟨⟨pool, index, mask⟩, page⟩ := read
    rw [hfields] at hpage
    obtain ⟨p, hp, -⟩ := Except.bind_eq_ok.1 hpage
    rw [block_of_pageFields htag hsize hfields hp] at hok
    obtain ⟨data, hdata, hok⟩ := Except.bind_eq_ok.1 hok
    obtain ⟨pools, hadd, hok⟩ := Except.bind_eq_ok.1 hok
    refine ⟨pool, index, mask, data, p, pools, pool?_of_pageFields hfields, hp, hadd,
      (Except.ok.inj hok).symm, fun k q pools' hq hpaged hadd' => ?_⟩
    rw [block_of_pageFields htag hsize hfields hq, hpaged]
    exact Except.bind_eq_ok.2 ⟨data, hdata, Except.bind_eq_ok.2 ⟨pools', hadd', rfl⟩⟩

/-- A pool that a block defines was not defined before. -/
theorem isDefined_of_block {pool : UInt16} (htag : b.tag = Block.poolDefinition)
    (hpool : b.pool? = some pool) (hok : l.block b = .ok l') :
    l.pools.isDefined pool = false ∧ l'.pools.isDefined pool = true := by
  rw [Takes.poolDefinition.block_eq htag] at hok
  obtain ⟨bs, hbs, hok⟩ := Except.bind_eq_ok.1 hok
  obtain rfl := eq_of_payload hbs
  obtain ⟨⟨⟨pool', pageCount, pageSize⟩, rest⟩, hfields, hok⟩ := Except.bind_eq_ok.1 hok
  obtain rfl : pool' = pool := Option.some.inj
    ((u16_of_definitionFields (Parser.of_eq_ok.1 hfields)).symm.trans hpool)
  obtain ⟨pools, hdefine, hok⟩ := Except.bind_eq_ok.1 hok
  obtain rfl := Except.ok.inj hok
  obtain ⟨hnew, hdefined⟩ := Pools.defined_of_define hdefine
  exact ⟨hnew, (hdefined pool').2 (.inl rfl)⟩

/-- A pool to which a block adds a page is defined. -/
theorem isDefined_of_page {pool : UInt16} (hl : l.pools.Blank) (htag : b.tag = Block.poolPage)
    (hpool : b.pool? = some pool) (hok : l.block b = .ok l') : l'.pools.isDefined pool = true := by
  obtain ⟨pool', index, mask, data, p, pools, hb, -, hadd, rfl, -⟩ := exists_page_of_block htag hok
  obtain rfl : pool' = pool := Option.some.inj (hb.symm.trans hpool)
  exact (Pools.isDefined_of_addPage hadd pool').trans (hl.isDefined_of_addPage hadd)

/-- Two pages of one pool may be exchanged. -/
theorem exists_exchanged_pages (ha : a.tag = Block.poolPage) (hb : b.tag = Block.poolPage)
    (hpool : a.pool? = b.pool?) (hfirst : l.block a = .ok l₁) (hsecond : l₁.block b = .ok l₂) :
    ∃ l', l.block b = .ok l' ∧ l'.block a = .ok l₂ := by
  obtain ⟨pool, index, mask, data, p, pools, hpa, hp, hadd, rfl, hall⟩ :=
    exists_page_of_block ha hfirst
  obtain ⟨pool', index', mask', data', p', pools', hpb, hp', hadd', rfl, hall'⟩ :=
    exists_page_of_block hb hsecond
  obtain rfl : pool' = pool := Option.some.inj (hpb.symm.trans (hpool.symm.trans hpa))
  obtain ⟨q, hq, hq'⟩ := Pools.addPage_comm hadd hadd'
  obtain ⟨p₁, hp₁, hpaged⟩ := Pools.exists_get_of_addPage hp hadd
  obtain rfl := Except.ok.inj (hp₁.symm.trans hp')
  obtain ⟨p', hp', hpaged'⟩ := Pools.exists_get_of_addPage hp hq
  exact ⟨_, hall' l p q hp hpaged.symm hq, hall { l with pools := q } p' pools' hp' hpaged' hq'⟩

/-- Two runs of objects may be exchanged, and so are the objects in the list. -/
theorem exists_exchanged_objects (ha : a.tag = Block.objects) (hb : b.tag = Block.objects)
    (hfirst : l.block a = .ok l₁) (hsecond : l₁.block b = .ok l₂) :
    ∃ l' l₂', l.block b = .ok l' ∧ l'.block a = .ok l₂' ∧ l₂.Rearranged l₂' := by
  obtain ⟨-, ds, ⟨hds, hl₁⟩, hall⟩ := exists_entered_of_block ha hfirst
  obtain ⟨-, ds', ⟨hds', hl₂⟩, hall'⟩ := exists_entered_of_block hb hsecond
  -- The table is filled with the objects of the second run first.
  obtain ⟨heap, hfill', hfill⟩ :=
    ((hds.append hds').perm List.perm_append_comm).of_append
  have hmetaclasses : l₁.metaclasses? = l.metaclasses? := by rw [hl₁]
  have hobjects : l₁.objects = l.objects ++ ds.toArray := by rw [hl₁]
  refine ⟨{ l with heap, objects := l.objects ++ ds'.toArray },
    { l with heap := l₂.heap, objects := l.objects ++ ds'.toArray ++ ds.toArray },
    hall' l _ hmetaclasses.symm ⟨hfill', rfl⟩, hall _ _ rfl ⟨hfill, rfl⟩, ?_, ?_⟩
  · rw [hl₂, hl₁]
  · rw [hl₂, hobjects]
    simp only [Array.toList_append, List.append_assoc]
    exact List.perm_append_comm.append_left l.objects.toList

end Loader

/-- A block has to come before another one: a table of metaclasses before objects, the definition of
    a pool before its pages, and symbols before other symbols. -/
inductive Block.Precedes (a b : Block) : Prop
  | table (ha : a.tag = metaclasses) (hb : b.tag = objects)
  | pool (ha : a.tag = poolDefinition) (hb : b.tag = poolPage) (hpool : a.pool? = b.pool?)
  | symbols (ha : a.tag = symbols) (hb : b.tag = symbols)

namespace Loader

variable {l l₁ l₂ : Loader} {a b : Block} {seen : List Block}

/-- Tables and entry points are not given twice. -/
theorem Tabled.ne_of_tag {tag : Bytes} (hl : l.Tabled (seen ++ [a] ++ [b]))
    (htag : tag ∈ [Block.metaclasses, Block.functionSets, Block.entryPoint]) (ha : a.tag = tag) :
    b.tag ≠ tag := by
  have hone {α : Type} (o : Option α) : o.toList.length ≤ 1 := by cases o <;> simp
  have honce : ((seen ++ [a] ++ [b]).map Block.tag).count tag ≤ 1 := by
    simp only [List.mem_cons, List.not_mem_nil, or_false] at htag
    rcases htag with rfl | rfl | rfl
    · rw [hl.metaclasses]
      exact hone _
    · rw [hl.functionSets]
      exact hone _
    · rw [hl.entryPoints]
      exact hone _
  intro heq
  rw [Block.count_tag_append, Block.count_tag_append, if_pos ha, if_pos heq] at honce
  omega

/-- Objects need the table of metaclasses, so no such table comes after them. -/
theorem Tabled.ne_metaclasses (hl : l.Tabled seen) (ha : a.tag = Block.objects)
    (hfirst : l.block a = .ok l₁) (hsecond : l₁.block b = .ok l₂) : b.tag ≠ Block.metaclasses := by
  intro hb
  have hl₁ := hl.step (step_of_block hfirst)
  have hl₂ := (hl₁.step (step_of_block hsecond)).metaclasses
  have hne : a.tag ≠ Block.metaclasses := ha ▸ by decide +kernel
  rw [Block.count_tag_append, Block.count_tag_append, if_neg hne, if_pos hb, hl.metaclasses] at hl₂
  have hsome := (exists_entered_of_block ha hfirst).1
  cases htable : l.metaclasses? with
  | none => exact hsome htable
  | some t =>
    rw [htable] at hl₂
    cases htable₂ : l₂.metaclasses? with
    | none => simp [htable₂] at hl₂
    | some t₂ => simp [htable₂] at hl₂

/-- Two blocks of which the second one does not need the first may be exchanged. Blocks about
    different parts do not touch each other. Of the blocks about one part only pages of a pool and
    runs of objects come one after the other. -/
theorem exists_exchanged (hl : l.Tabled seen) (hblank : l.pools.Blank) (hfree : ¬a.Precedes b)
    (hfirst : l.block a = .ok l₁) (hsecond : l₁.block b = .ok l₂) :
    ∃ l' l₂', l.block b = .ok l' ∧ l'.block a = .ok l₂' ∧ l₂.Rearranged l₂' := by
  have hl₂ := (hl.step (step_of_block hfirst)).step (step_of_block hsecond)
  have hsame (hcomm : ∃ l', l.block b = .ok l' ∧ l'.block a = .ok l₂) :
      ∃ l' l₂', l.block b = .ok l' ∧ l'.block a = .ok l₂' ∧ l₂.Rearranged l₂' := by
    obtain ⟨l', hb, ha⟩ := hcomm
    exact ⟨l', l₂, hb, ha, .refl l₂⟩
  by_cases hapart : Apart a.part? b.part?
  · refine hsame (block_comm hapart (fun hb hpart => ?_) (fun ha hpart => ?_) hfirst hsecond)
    · exact hfree (.table (Block.isOf_of_part? hpart) hb)
    · exact hl.ne_metaclasses ha hfirst hsecond (Block.isOf_of_part? hpart)
  · simp only [Apart, not_forall, not_not] at hapart
    obtain ⟨p, hpa, hpb⟩ := hapart
    have ha := Block.isOf_of_part? hpa
    have hb := Block.isOf_of_part? hpb
    cases p with
    | metaclasses => exact absurd hb (hl₂.ne_of_tag (by simp) ha)
    | functionSets => exact absurd hb (hl₂.ne_of_tag (by simp) ha)
    | entry => exact absurd hb (hl₂.ne_of_tag (by simp) ha)
    | exports => exact absurd (.symbols ha hb) hfree
    | objects => exact exists_exchanged_objects ha hb hfirst hsecond
    | pool pool =>
      obtain ⟨ha, hpa⟩ := ha
      obtain ⟨hb, hpb⟩ := hb
      rcases hb with hb | hb
      · -- After either block about it, the pool is defined.
        have hdefined : l₁.pools.isDefined pool = true := by
          rcases ha with ha | ha
          · exact (isDefined_of_block ha hpa hfirst).2
          · exact isDefined_of_page hblank ha hpa hfirst
        rw [(isDefined_of_block hb hpb hsecond).1] at hdefined
        cases hdefined
      · rcases ha with ha | ha
        · exact absurd (.pool ha hb (hpa.trans hpb.symm)) hfree
        · exact hsame (exists_exchanged_pages ha hb (hpa.trans hpb.symm) hfirst hsecond)

theorem blank_of_step (hl : l.pools.Blank) (hb : Step b l l₁) : l₁.pools.Blank := by
  cases hb with
  | pool _ _ hdefine => exact hl.define hdefine
  | page _ hadd => exact hl.addPage hadd
  | objects _ _ _ _ _ hdefines =>
    obtain ⟨-, -, -, hpools⟩ := hdefines.frame
    rwa [hpools]
  | _ => exact hl

theorem blank_of_foldlM {blocks : List Block} (hl : l.pools.Blank)
    (hok : blocks.foldlM Loader.block l = .ok l₁) : l₁.pools.Blank := by
  induction blocks generalizing l with
  | nil =>
    obtain rfl := Except.ok.inj hok
    exact hl
  | cons b blocks ih =>
    rw [List.foldlM_cons] at hok
    obtain ⟨l', hb, hok⟩ := Except.bind_eq_ok.1 hok
    exact ih (blank_of_step hl (step_of_block hb)) hok

/-- Two blocks among others in the other order. -/
theorem exists_exchanged_foldlM {before after : List Block} {source : Array UInt8}
    {mode : PoolMode} {settings : HeapSettings} (hfree : ¬a.Precedes b)
    (hok : (before ++ a :: b :: after).foldlM Loader.block
      { pools := .new mode source, heap := .new settings } = .ok l) :
    ∃ l', (before ++ b :: a :: after).foldlM Loader.block
      { pools := .new mode source, heap := .new settings } = .ok l' ∧ l.Rearranged l' := by
  rw [List.foldlM_append] at hok
  obtain ⟨l₀, hbefore, hok⟩ := Except.bind_eq_ok.1 hok
  rw [List.foldlM_cons] at hok
  obtain ⟨l₁, hfirst, hok⟩ := Except.bind_eq_ok.1 hok
  rw [List.foldlM_cons] at hok
  obtain ⟨l₂, hsecond, hafter⟩ := Except.bind_eq_ok.1 hok
  obtain ⟨htabled, -, -⟩ := gathered_foldlM (tabled_nil rfl rfl rfl) (pooled_nil rfl)
    (populated_nil rfl rfl) hbefore
  obtain ⟨l₁', l₂', hb, ha, hl₂⟩ := exists_exchanged htabled
    (blank_of_foldlM (Pools.blank_new mode source) hbefore) hfree hfirst hsecond
  obtain ⟨l', hafter', hl'⟩ := hl₂.foldlM hafter
  refine ⟨l', ?_, hl'⟩
  rw [List.foldlM_append]
  refine Except.bind_eq_ok.2 ⟨l₀, hbefore, ?_⟩
  rw [List.foldlM_cons]
  refine Except.bind_eq_ok.2 ⟨l₁', hb, ?_⟩
  rw [List.foldlM_cons]
  exact Except.bind_eq_ok.2 ⟨l₂', ha, hafter'⟩

end Loader

/-! ## Streams -/

/-- A block has to come before another one, wherever they are. -/
def Segment.Precedes (a b : Segment) : Prop := (a.block 0).Precedes (b.block 0)

theorem Segment.precedes_of_block {a b : Segment} {place place' : Nat}
    (hab : (a.block place).Precedes (b.block place')) : a.Precedes b := by
  cases hab with
  | table ha hb => exact .table ha hb
  | pool ha hb hpool => exact .pool ha hb hpool
  | symbols ha hb => exact .symbols ha hb

/-- Two blocks of a stream are each in the place of the other in another stream. -/
theorem Segment.exists_moved_exchange {before after : List Segment} {a b : Segment}
    {image image' rest rest' : Bytes} {place : Nat}
    (hwhole : ∀ s ∈ before ++ a :: b :: after, s.IsWhole)
    (himage : image.drop place = (before ++ a :: b :: after).flatMap bytes ++ rest)
    (himage' : image'.drop place = (before ++ b :: a :: after).flatMap bytes ++ rest') :
    ∃ front back x y, blocks place (before ++ a :: b :: after) =
        front ++ a.block x :: b.block y :: back ∧
      List.Forall₂ (Block.Moved image image') (front ++ b.block y :: a.block x :: back)
        (blocks place (before ++ b :: a :: after)) := by
  obtain ⟨hbefore, hwhole⟩ := List.forall_mem_append.1 hwhole
  obtain ⟨ha, hwhole⟩ := List.forall_mem_cons.1 hwhole
  obtain ⟨hb, hafter⟩ := List.forall_mem_cons.1 hwhole
  rw [List.flatMap_append, List.append_assoc] at himage himage'
  have hfront := moved_blocks hbefore himage himage'
  have hx := drop_of_drop himage
  have hx' := drop_of_drop himage'
  rw [List.flatMap_cons, List.append_assoc] at hx hx'
  have hy := drop_of_drop hx
  have hy' := drop_of_drop hx'
  rw [List.flatMap_cons, List.append_assoc] at hy hy'
  refine ⟨_, _, _, _, blocks_append place before (a :: b :: after), ?_⟩
  rw [blocks_append]
  exact List.rel_append hfront (.cons (hb.moved hy hx')
    (.cons (ha.moved hx hy') (moved_blocks hafter (drop_of_drop hy) (drop_of_drop hy'))))

namespace Image

variable {bs bs' body : Bytes} {before after : List Segment} {a b last : Segment} {mode : PoolMode}
  {settings : HeapSettings} {r : Image × Pools × Heap}

/-- In the stream of an image that is accepted, nothing ends the image before its last block. -/
theorem tag_ne_eof {front : List Segment} {place : Nat} (hfront : ∀ s ∈ front, s.IsWhole)
    (hlast : last.tag.length = 4)
    (hend : (Blocks.ofBytes place (front.flatMap Segment.bytes ++ last.bytes)).ending = .eof) :
    ∀ s ∈ front, s.IsWhole ∧ s.tag ≠ Block.eof := by
  induction front generalizing place with
  | nil => exact List.forall_mem_nil _
  | cons s front ih =>
    obtain ⟨hs, hfront⟩ := List.forall_mem_cons.1 hfront
    have hlength : Block.headerSize + (s.block place).size.toNat = s.bytes.length :=
      hs.length_bytes.symm
    -- Another block follows this one.
    have hmore : front.flatMap Segment.bytes ++ last.bytes ≠ [] := fun hnil =>
      Segment.bytes_append_ne_nil hlast []
        ((List.append_nil _).trans (List.append_eq_nil_iff.1 hnil).2)
    rw [List.flatMap_cons, List.append_assoc, Blocks.ofBytes, hs.first?_bytes] at hend
    dsimp only at hend
    rw [hlength, List.drop_left, if_neg hmore] at hend
    by_cases htag : (s.block place).tag = Block.eof
    · rw [if_pos htag] at hend
      cases hend
    · rw [if_neg htag] at hend
      rw [if_neg (Segment.bytes_append_ne_nil hs.1 _)] at hend
      exact List.forall_mem_cons.2 ⟨⟨hs, htag⟩, ih hfront hend⟩

/-- What it takes for an image to be accepted. -/
theorem load_eq_ok_iff (hbs : bs = signature ++ Bytes.u16 formatVersion ++ body) :
    load bs mode settings = .ok r ↔ ∃ l metaclasses functionSets entry,
      (Blocks.ofBytes (signature.length + 2) body).list.foldlM Loader.block
          { pools := .new mode bs.toArray, heap := .new settings } = .ok l ∧
        (Blocks.ofBytes (signature.length + 2) body).ending = .eof ∧
        l.finish = .ok (metaclasses, functionSets, entry) ∧
        r = ({ version := formatVersion, identity := Sha256.digest bs,
               blocks := (Blocks.ofBytes (signature.length + 2) body).list,
               metaclasses := metaclasses.ensureRequired, functionSets, entry,
               exports := l.exports, objects := l.objects }, l.pools, l.heap.openHoles) := by
  have hstart := start_eq_ok body
  rw [← hbs] at hstart
  constructor
  · intro hok
    obtain ⟨_, hread, hok⟩ := Except.bind_eq_ok.1 hok
    obtain rfl := Except.ok.inj (hstart.symm.trans hread)
    obtain ⟨l, hl, hok⟩ := Except.bind_eq_ok.1 hok
    obtain ⟨_, hend, hok⟩ := Except.bind_eq_ok.1 hok
    obtain ⟨⟨metaclasses, functionSets, entry⟩, hfinish, hok⟩ := Except.bind_eq_ok.1 hok
    refine ⟨l, metaclasses, functionSets, entry, hl, ?_, hfinish, (Except.ok.inj hok).symm⟩
    cases hending : (Blocks.ofBytes (signature.length + 2) body).ending with
    | eof => rfl
    | trailing | truncated =>
      rw [hending] at hend
      cases hend
  · rintro ⟨l, metaclasses, functionSets, entry, hl, hend, hfinish, rfl⟩
    refine Except.bind_eq_ok.2 ⟨_, hstart, Except.bind_eq_ok.2 ⟨l, hl, Except.bind_eq_ok.2
      ⟨(), ?_, Except.bind_eq_ok.2 ⟨_, hfinish, rfl⟩⟩⟩⟩
    rw [hend]
    rfl

/-- **The order of blocks is free.** Two blocks of an image that is accepted may be exchanged if
    they stand next to each other and the second one does not need the first. The image is accepted
    in the new order as well, and holds the same. -/
theorem load_exchange (hbs : Divides bs (before ++ a :: b :: after) last)
    (hbs' : Divides bs' (before ++ b :: a :: after) last) (hfree : ¬a.Precedes b)
    (hok : load bs mode settings = .ok r) : ∃ r', load bs' mode settings = .ok r' ∧
      SameContents r r' ∧ r.1.objects.toList.Perm r'.1.objects.toList := by
  obtain ⟨l, metaclasses, functionSets, entry, hl, hend, hfinish, rfl⟩ :=
    (load_eq_ok_iff hbs.bytes).1 hok
  have hwhole := tag_ne_eof hbs.whole hbs.length_tag hend
  have hwhole' : ∀ s ∈ before ++ b :: a :: after, s.IsWhole ∧ s.tag ≠ Block.eof := by
    intro s hs
    refine hwhole s ?_
    simp only [List.mem_append, List.mem_cons] at hs ⊢
    tauto
  have hdrop := drop_of_eq hbs.bytes
  have hdrop' := drop_of_eq hbs'.bytes
  obtain ⟨front, back, x, y, hblocks, hmoved⟩ :=
    Segment.exists_moved_exchange (fun s hs => (hwhole s hs).1) hdrop hdrop'
  obtain ⟨hmore, hmoreEnd⟩ := Blocks.moved_ofBytes (drop_of_drop hdrop).symm
    (drop_of_drop hdrop').symm
  rw [Blocks.ofBytes_segments hwhole] at hl hend
  dsimp only at hl hend
  rw [hblocks, List.append_assoc, List.cons_append, List.cons_append] at hl
  -- The blocks are exchanged where they are, and then each is read in its new place.
  obtain ⟨l₁, hl₁, hrearranged⟩ :=
    Loader.exists_exchanged_foldlM (fun h => hfree (Segment.precedes_of_block h)) hl
  have hnew := (Loader.moved_new bs bs' mode settings).foldlM (List.rel_append hmoved hmore)
  dsimp only at hnew
  rw [List.append_assoc, List.cons_append, List.cons_append] at hnew
  obtain ⟨l', hl', hmovedTo⟩ := hnew.exists_ok hl₁
  have hfinish' : l'.finish = .ok (metaclasses, functionSets, entry) :=
    hmovedTo.finish ▸ hrearranged.finish hfinish
  obtain ⟨hp⟩ := hmovedTo
  obtain ⟨hsame, hperm⟩ := hrearranged
  refine ⟨_, (load_eq_ok_iff hbs'.bytes).2 ⟨_, metaclasses, functionSets, entry, ?_, ?_, hfinish',
    rfl⟩, ⟨rfl, rfl, rfl, rfl, ?_, ?_, ?_⟩, hperm⟩
  · rw [Blocks.ofBytes_segments hwhole']
    exact hl'
  · rw [Blocks.ofBytes_segments hwhole']
    exact hmoreEnd ▸ hend
  · exact (congrArg Loader.exports hsame).symm
  · exact (congrArg (fun l => l.heap.openHoles) hsame).symm
  · have hpools := Pools.Moved.answers_eq hp
    rwa [hsame] at hpools

/-- The blocks of `Machine.threePages` before the last one. -/
def threePagesBlocks : List Segment :=
  (Blocks.ofBytes 13 (Machine.threePages.drop 13)).list.map fun b =>
    ⟨b.tag, b.size, if b.mandatory then 1 else 0, b.payload⟩

/-- A block with one of the two pages for constants among them. -/
def constantPage (index : UInt32) (page : Bytes) : Segment :=
  ⟨Block.poolPage, .ofNat (Loader.pageFieldsSize + page.length), 1,
    Bytes.u16 constantPool ++ Bytes.u32 index ++ 0 :: page⟩

/-- The page with a text. -/
def textPage : Segment := constantPage 0 (3 :: 0 :: Bytes.ofText "hey" ++ List.replicate 11 0)

/-- The page with a list without elements. -/
def listPage : Segment := constantPage 1 [0, 0]

/-- The image with its two pages for constants exchanged. -/
def exchangedPages : Bytes :=
  Machine.threePages.take 123 ++ ((Machine.threePages.drop 156).take 19 ++
    (Machine.threePages.drop 123).take 33) ++ Machine.threePages.drop 175

/-- The pages are read on demand from where they are now. -/
theorem load_exchange_constantPage : ∃ r r', load Machine.threePages (.paged 1) {} = .ok r ∧
    load exchangedPages (.paged 1) {} = .ok r' ∧ SameContents r r' := by
  have hbs : Divides Machine.threePages
      (threePagesBlocks.take 5 ++ textPage :: listPage :: (threePagesBlocks.drop 7).take 2)
      ⟨Block.eof, 0, 1, []⟩ := ⟨by decide +kernel, by decide +kernel, rfl, by decide⟩
  have hbs' : Divides exchangedPages
      (threePagesBlocks.take 5 ++ listPage :: textPage :: (threePagesBlocks.drop 7).take 2)
      ⟨Block.eof, 0, 1, []⟩ := ⟨by decide +kernel, by decide +kernel, rfl, by decide⟩
  have hfree : ¬textPage.Precedes listPage := by
    rintro (⟨ha, -⟩ | ⟨ha, -, -⟩ | ⟨ha, -⟩) <;> exact absurd ha (by decide +kernel)
  have hok : (load Machine.threePages (.paged 1) {}).isOk = true := by decide +kernel
  cases hload : load Machine.threePages (.paged 1) {} with
  | error e =>
    rw [hload] at hok
    cases hok
  | ok r =>
    obtain ⟨r', hload', hsame, -⟩ := load_exchange hbs hbs' hfree hload
    exact ⟨r, r', rfl, hload', hsame⟩

end Image

end StoryMachine
