import StoryMachine.Proofs.Image.Accepted
import StoryMachine.Proofs.Pool.Moved

/-!
# Adding pages in another order

No page is added twice, so two pages that are added to a pool are different ones. Added in the
other order they make the same pool. And no page is added to a pool that is not defined.

* `MemoryPool.addPage_eq_ok_iff`, `PagedPool.addPage_eq_ok_iff`: what it takes to add a page;
* `Pools.addPage_comm`: two pages in either order;
* `Pools.Blank`: pools have no room for pages before they are defined.
-/

namespace StoryMachine

theorem Array.ext_getD {α : Type} {xs ys : Array α} (a : α) (hsize : xs.size = ys.size)
    (hget : ∀ i : Nat, xs[i]?.getD a = ys[i]?.getD a) : xs = ys := by
  refine Array.ext hsize fun i hi hi' => ?_
  have hget := hget i
  rwa [Array.getElem?_eq_getElem hi, Array.getElem?_eq_getElem hi'] at hget

theorem size_reaching {α : Type} (xs : Array α) (i : Nat) (a : α) :
    (reaching xs i a).size = max xs.size (i + 1) := by
  rw [reaching]
  split
  · omega
  · rw [Array.size_append, Array.size_replicate]
    omega

variable {index index' : UInt32} {mask mask' : UInt8} {data data' : PageData}

namespace MemoryPool

variable {p p' p₁ p₂ : MemoryPool}

/-- The pool with a page. -/
def put (p : MemoryPool) (i : Nat) (page : Array UInt8) : MemoryPool :=
  { p with pages := (reaching p.pages i none).setIfInBounds i (some page) }

theorem page?_put (p : MemoryPool) (i j : Nat) (page : Array UInt8) :
    (p.put i page).page? j = if i = j then some page else p.page? j :=
  p.page?_setIfInBounds i j page

theorem put_comm (p : MemoryPool) {i j : Nat} (hne : i ≠ j) (page page' : Array UInt8) :
    (p.put i page).put j page' = (p.put j page').put i page := by
  have hpages : ((p.put i page).put j page').pages = ((p.put j page').put i page).pages := by
    refine Array.ext_getD none ?_ fun k => ?_
    · simp only [put, Array.size_setIfInBounds, size_reaching]
      omega
    · change ((p.put i page).put j page').page? k = ((p.put j page').put i page).page? k
      simp only [page?_put]
      split_ifs <;> first | rfl | omega
  exact congrArg (MemoryPool.mk p.geometry) hpages

theorem addPage_eq_ok_iff : p.addPage index mask data = .ok p' ↔
    ∃ bs, data = .bytes bs ∧ p.page? index.toNat = none ∧
      p.geometry.checkNewPage index bs.length false = .ok () ∧
      p' = p.put index.toNat (bs.map (· ^^^ mask)).toArray := by
  cases data with
  | deferred offset length =>
    refine ⟨fun hok => (nomatch hok), fun ⟨_, hdata, _⟩ => (nomatch hdata)⟩
  | bytes bs =>
    rw [MemoryPool.addPage, any_isSome]
    constructor
    · intro hok
      obtain ⟨_, hcheck, hok⟩ := Except.bind_eq_ok.1 hok
      have hnew := Geometry.checkNewPage_eq_ok hcheck
      rw [hnew] at hcheck
      exact ⟨bs, rfl, Option.isSome_eq_false_iff.1 hnew |> Option.isNone_iff_eq_none.1, hcheck,
        (Except.ok.inj hok).symm⟩
    · rintro ⟨_, ⟨rfl⟩, hnew, hcheck, rfl⟩
      rw [hnew, Option.isSome_none]
      exact Except.bind_eq_ok.2 ⟨(), hcheck, rfl⟩

theorem addPage_comm (hfirst : p.addPage index mask data = .ok p₁)
    (hsecond : p₁.addPage index' mask' data' = .ok p₂) :
    ∃ p', p.addPage index' mask' data' = .ok p' ∧ p'.addPage index mask data = .ok p₂ := by
  obtain ⟨bs, rfl, hnew, hcheck, rfl⟩ := addPage_eq_ok_iff.1 hfirst
  obtain ⟨bs', rfl, hnew', hcheck', rfl⟩ := addPage_eq_ok_iff.1 hsecond
  rw [page?_put] at hnew'
  have hne : index.toNat ≠ index'.toNat := fun heq => by
    rw [if_pos heq] at hnew'
    cases hnew'
  rw [if_neg hne] at hnew'
  refine ⟨_, addPage_eq_ok_iff.2 ⟨bs', rfl, hnew', hcheck', rfl⟩,
    addPage_eq_ok_iff.2 ⟨bs, rfl, ?_, hcheck, put_comm p hne _ _⟩⟩
  rw [page?_put, if_neg hne.symm, hnew]

end MemoryPool

namespace PagedPool

variable {p p' p₁ p₂ : PagedPool}

theorem modifyPage_comm (p : PagedPool) {i j : Nat} (hne : i ≠ j) (f g : PageSlot → PageSlot) :
    (p.modifyPage i f).modifyPage j g = (p.modifyPage j g).modifyPage i f := by
  have hpages : ((p.modifyPage i f).modifyPage j g).pages =
      ((p.modifyPage j g).modifyPage i f).pages := by
    refine Array.ext_getD {} ?_ fun k => ?_
    · simp only [size_modifyPage]
      omega
    · change ((p.modifyPage i f).modifyPage j g).page k = ((p.modifyPage j g).modifyPage i f).page k
      simp only [page_modifyPage]
      split_ifs <;> first | rfl | omega
  exact congrArg (fun pages => { p with pages }) hpages

/-- The place of a page in the image is set. -/
def locate (place : Nat × Nat) (s : PageSlot) : PageSlot := { s with location? := some place }

theorem addPage_eq_ok_iff : p.addPage index mask data = .ok p' ↔
    mask = 0 ∧ ∃ offset length, data = .deferred offset length ∧
      (p.page index.toNat).location? = none ∧
      p.geometry.checkNewPage index length false = .ok () ∧
      p' = p.modifyPage index.toNat (locate (offset, length)) := by
  rw [PagedPool.addPage.eq_def]
  constructor
  · intro hok
    obtain ⟨hmask, hok⟩ := Except.guard_eq_ok.1 hok
    cases data with
    | bytes bs => cases hok
    | deferred offset length =>
      obtain ⟨_, hcheck, hok⟩ := Except.bind_eq_ok.1 hok
      have hnew := Geometry.checkNewPage_eq_ok hcheck
      rw [hnew] at hcheck
      rw [any_isSome_location?, Option.isSome_eq_false_iff, Option.isNone_iff_eq_none] at hnew
      exact ⟨not_not.1 hmask, offset, length, rfl, hnew, hcheck, (Except.ok.inj hok).symm⟩
  · rintro ⟨rfl, offset, length, rfl, hnew, hcheck, rfl⟩
    refine Except.guard_eq_ok.2 ⟨not_not.2 rfl, ?_⟩
    dsimp only
    rw [any_isSome_location?, hnew, Option.isSome_none]
    exact Except.bind_eq_ok.2 ⟨(), hcheck, rfl⟩

theorem addPage_comm (hfirst : p.addPage index mask data = .ok p₁)
    (hsecond : p₁.addPage index' mask' data' = .ok p₂) :
    ∃ p', p.addPage index' mask' data' = .ok p' ∧ p'.addPage index mask data = .ok p₂ := by
  obtain ⟨rfl, offset, length, rfl, hnew, hcheck, rfl⟩ := addPage_eq_ok_iff.1 hfirst
  obtain ⟨rfl, offset', length', rfl, hnew', hcheck', rfl⟩ := addPage_eq_ok_iff.1 hsecond
  rw [page_modifyPage] at hnew'
  have hne : index.toNat ≠ index'.toNat := fun heq => by
    rw [if_pos heq] at hnew'
    cases hnew'
  rw [if_neg hne] at hnew'
  refine ⟨_, addPage_eq_ok_iff.2 ⟨rfl, offset', length', rfl, hnew', hcheck', rfl⟩,
    addPage_eq_ok_iff.2 ⟨rfl, offset, length, rfl, ?_, hcheck, modifyPage_comm p hne _ _⟩⟩
  rw [page_modifyPage, if_neg hne.symm, hnew]

end PagedPool

namespace Pool

variable {p p' p₁ p₂ : Pool}

/-- Two pages make the same pool in either order. -/
theorem addPage_comm (hfirst : p.addPage index mask data = .ok p₁)
    (hsecond : p₁.addPage index' mask' data' = .ok p₂) :
    ∃ p', p.addPage index' mask' data' = .ok p' ∧ p'.addPage index mask data = .ok p₂ := by
  cases p with
  | memory p =>
    obtain ⟨q₁, hq₁, rfl⟩ := Except.map_eq_ok.1 hfirst
    obtain ⟨q₂, hq₂, rfl⟩ := Except.map_eq_ok.1 hsecond
    obtain ⟨q, hq, hq'⟩ := MemoryPool.addPage_comm hq₁ hq₂
    exact ⟨.memory q, Except.map_eq_ok.2 ⟨q, hq, rfl⟩, Except.map_eq_ok.2 ⟨q₂, hq', rfl⟩⟩
  | paged p =>
    obtain ⟨q₁, hq₁, rfl⟩ := Except.map_eq_ok.1 hfirst
    obtain ⟨q₂, hq₂, rfl⟩ := Except.map_eq_ok.1 hsecond
    obtain ⟨q, hq, hq'⟩ := PagedPool.addPage_comm hq₁ hq₂
    exact ⟨.paged q, Except.map_eq_ok.2 ⟨q, hq, rfl⟩, Except.map_eq_ok.2 ⟨q₂, hq', rfl⟩⟩

/-- There is room for a page that is added, and there still is afterwards. -/
theorem geometry_of_addPage (hok : p.addPage index mask data = .ok p') :
    p'.geometry = p.geometry ∧ p'.isPaged = p.isPaged ∧ p.geometry.pageSize ≠ 0 := by
  have hroom {g : Geometry} {length : Nat} (hcheck : g.checkNewPage index length false = .ok ()) :
      g.pageSize ≠ 0 := by
    rw [Geometry.checkNewPage] at hcheck
    intro hzero
    rw [if_pos hzero] at hcheck
    cases hcheck
  cases p with
  | memory p =>
    obtain ⟨q, hq, rfl⟩ := Except.map_eq_ok.1 hok
    obtain ⟨_, -, -, hcheck, rfl⟩ := MemoryPool.addPage_eq_ok_iff.1 hq
    exact ⟨rfl, rfl, hroom hcheck⟩
  | paged p =>
    obtain ⟨q, hq, rfl⟩ := Except.map_eq_ok.1 hok
    obtain ⟨-, _, _, -, -, hcheck, rfl⟩ := PagedPool.addPage_eq_ok_iff.1 hq
    exact ⟨rfl, rfl, hroom hcheck⟩

end Pool

namespace Pools

variable {ps ps' ps₁ ps₂ : Pools} {pool : UInt16} {pageCount pageSize : UInt32}

theorem get_set {p q : Pool} (hp : ps.get pool = .ok p) : (ps.set pool q).get pool = .ok q := by
  rcases eq_of_get?_eq_some (get_eq_ok_iff.1 hp) with ⟨rfl, -⟩ | ⟨rfl, -⟩ <;> rfl

theorem set_set (ps : Pools) (pool : UInt16) (p q : Pool) :
    (ps.set pool p).set pool q = ps.set pool q := by
  rw [set, set, set]
  split_ifs <;> rfl

/-- A page is added to the pool with its number. -/
theorem addPage_eq_ok_iff : ps.addPage pool index mask data = .ok ps' ↔
    ∃ p p', ps.get pool = .ok p ∧ p.addPage index mask data = .ok p' ∧ ps' = ps.set pool p' := by
  constructor
  · intro hok
    obtain ⟨p, hp, hok⟩ := Except.bind_eq_ok.1 hok
    obtain ⟨p', hp', hok⟩ := Except.bind_eq_ok.1 hok
    exact ⟨p, p', hp, hp', (Except.ok.inj hok).symm⟩
  · rintro ⟨p, p', hp, hp', rfl⟩
    exact Except.bind_eq_ok.2 ⟨p, hp, Except.bind_eq_ok.2 ⟨p', hp', rfl⟩⟩

/-- Two pages of one pool make the same pools in either order. -/
theorem addPage_comm (hfirst : ps.addPage pool index mask data = .ok ps₁)
    (hsecond : ps₁.addPage pool index' mask' data' = .ok ps₂) :
    ∃ ps', ps.addPage pool index' mask' data' = .ok ps' ∧
      ps'.addPage pool index mask data = .ok ps₂ := by
  obtain ⟨p, p₁, hp, hp₁, rfl⟩ := addPage_eq_ok_iff.1 hfirst
  obtain ⟨_, p₂, hget, hp₂, rfl⟩ := addPage_eq_ok_iff.1 hsecond
  obtain rfl := Except.ok.inj ((get_set hp).symm.trans hget)
  obtain ⟨p', hp', hp₂'⟩ := Pool.addPage_comm hp₁ hp₂
  refine ⟨_, addPage_eq_ok_iff.2 ⟨p, p', hp, hp', rfl⟩,
    addPage_eq_ok_iff.2 ⟨p', p₂, get_set hp, hp₂', ?_⟩⟩
  rw [set_set, set_set]

/-- A pool is read as it was, in memory or on demand. -/
theorem exists_get_of_addPage {p : Pool} (hp : ps.get pool = .ok p)
    (hok : ps.addPage pool index mask data = .ok ps') :
    ∃ p', ps'.get pool = .ok p' ∧ p'.isPaged = p.isPaged := by
  obtain ⟨p₀, p', hp₀, hp', rfl⟩ := addPage_eq_ok_iff.1 hok
  obtain rfl := Except.ok.inj (hp.symm.trans hp₀)
  exact ⟨p', get_set hp, (Pool.geometry_of_addPage hp').2.1⟩

/-- A pool has no room for pages as long as it is not defined. -/
def Blank (ps : Pools) : Prop := ∀ pool p, ps.get pool = .ok p → ps.isDefined pool = false →
  p.geometry.pageSize = 0

theorem blank_new (mode : PoolMode) (source : Array UInt8) : (new mode source).Blank := by
  intro pool p hp _
  rcases eq_of_get?_eq_some (get_eq_ok_iff.1 hp) with ⟨-, rfl⟩ | ⟨-, rfl⟩ <;> cases mode <;> rfl

/-- A page is added to a pool that is defined. -/
theorem Blank.isDefined_of_addPage (hps : ps.Blank)
    (hok : ps.addPage pool index mask data = .ok ps') : ps.isDefined pool = true := by
  obtain ⟨p, p', hp, hp', -⟩ := addPage_eq_ok_iff.1 hok
  by_contra hno
  exact (Pool.geometry_of_addPage hp').2.2 (hps pool p hp (Bool.eq_false_iff.2 hno))

theorem get_set_of_ne {other : UInt16} (hne : other ≠ pool) (p : Pool) :
    (ps.set pool p).get other = ps.get other := by
  have hcodes (hother : other = codePool) : pool ≠ codePool := fun hpool =>
    hne (hother.trans hpool.symm)
  have hconstants (hother : other = constantPool) : pool ≠ constantPool := fun hpool =>
    hne (hother.trans hpool.symm)
  unfold get get? set
  split_ifs <;> first | rfl | exact absurd ‹_› (hcodes ‹_›) | exact absurd ‹_› (hconstants ‹_›)

theorem Blank.addPage (hps : ps.Blank) (hok : ps.addPage pool index mask data = .ok ps') :
    ps'.Blank := by
  intro other q hq hno
  rw [Pools.isDefined_of_addPage hok] at hno
  obtain ⟨p, p', hp, hp', rfl⟩ := addPage_eq_ok_iff.1 hok
  by_cases hother : other = pool
  · subst hother
    obtain rfl := Except.ok.inj ((get_set hp).symm.trans hq)
    rw [(Pool.geometry_of_addPage hp').1]
    exact hps other p hp hno
  · rw [get_set_of_ne hother] at hq
    exact hps other q hq hno

theorem Blank.define (hps : ps.Blank) (hok : ps.define pool pageCount pageSize = .ok ps') :
    ps'.Blank := by
  obtain ⟨-, hdefined⟩ := defined_of_define hok
  intro other q hq hno
  have hother : other ≠ pool := fun heq => by
    rw [(hdefined other).2 (.inl heq)] at hno
    cases hno
  have hget : ps'.get other = ps.get other := by
    rcases (define_eq_ok hok).2 with ⟨p, rfl, -, rfl⟩ | ⟨p, rfl, -, rfl⟩
    · exact get_set_of_ne hother p
    · exact get_set_of_ne hother p
  rw [hget] at hq
  refine hps other q hq (Bool.eq_false_iff.2 fun hbefore => ?_)
  rw [(hdefined other).2 (.inr hbefore)] at hno
  cases hno

end Pools

end StoryMachine
