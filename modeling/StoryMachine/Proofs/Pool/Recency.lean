import StoryMachine.Proofs.Pool.Eviction
import StoryMachine.Proofs.Pool.Pins

/-!
# Pages in order of their use

What a pool keeps and gives up depends on how it has been used since it was defined: on
which pages have been pinned and unpinned, and on when each of them was last read. The
pool does not remember its uses but counts, for each page and for the whole. These counts
are compared with the uses themselves.

* `PageUse`: what can be done to a pool that is defined;
* `PageUse.pinned`, `PageUse.lastSlice`: what the uses so far say of a page;
* `PagedPool.Recalls`: the counts agree with the uses, which is so after every use;
* `PagedPool.CachesRecent`: what is kept is what is pinned and what was used last;
* `PagedPool.cachesRecent_afterAll`: so it is after any uses.
-/

namespace StoryMachine

/-- What can be done to a pool that is defined. -/
inductive PageUse where
  /-- A page is added. -/
  | addPage (index : UInt32) (mask : UInt8) (data : PageData)
  /-- The bytes at an offset are read. -/
  | slice (ofs : UInt32)
  /-- The page of an offset is pinned. -/
  | pin (ofs : UInt32)
  /-- One pin is taken back. -/
  | unpin (ofs : UInt32)
  /-- The image that is read from is another one, or has changed. -/
  | withSource (source : Array UInt8)

/-- The pool after a use. One that fails to add a page changes nothing. -/
def PagedPool.after (p : PagedPool) : PageUse → PagedPool
  | .addPage index mask data => (p.addPage index mask data).toOption.getD p
  | .slice ofs => (p.slice ofs).2
  | .pin ofs => p.modifyPins ofs (· + 1)
  | .unpin ofs => p.modifyPins ofs (· - 1)
  | .withSource source => p.withSource source

/-- The pool after several uses, of which the last one comes first. -/
def PagedPool.afterAll (p : PagedPool) : List PageUse → PagedPool
  | [] => p
  | u :: us => (p.afterAll us).after u

namespace PageUse

variable {g : Geometry} {i j : Nat} {u : PageUse} {us : List PageUse}

/-- Page `i` is read. -/
def Slices (g : Geometry) (i : Nat) : PageUse → Prop
  | slice ofs => g.pageOf? ofs = some i
  | _ => False

/-- Page `i` is pinned. -/
def Pins (g : Geometry) (i : Nat) : PageUse → Prop
  | pin ofs => g.pageOf? ofs = some i
  | _ => False

/-- A pin of page `i` is taken back. -/
def Unpins (g : Geometry) (i : Nat) : PageUse → Prop
  | unpin ofs => g.pageOf? ofs = some i
  | _ => False

instance (g : Geometry) (i : Nat) : DecidablePred (Slices g i) := fun u => by
  cases u <;> unfold Slices <;> infer_instance

instance (g : Geometry) (i : Nat) : DecidablePred (Pins g i) := fun u => by
  cases u <;> unfold Pins <;> infer_instance

instance (g : Geometry) (i : Nat) : DecidablePred (Unpins g i) := fun u => by
  cases u <;> unfold Unpins <;> infer_instance

/-- How many pins of page `i` have not been taken back. To take one back where there is
    none does nothing. -/
def pinned (g : Geometry) (i : Nat) : List PageUse → Nat
  | [] => 0
  | u :: us =>
    if u.Pins g i then pinned g i us + 1
    else if u.Unpins g i then pinned g i us - 1
    else pinned g i us

/-- When page `i` was last read, where the uses are counted from one. It is zero if there
    was no such use. -/
def lastSlice (g : Geometry) (i : Nat) : List PageUse → Nat
  | [] => 0
  | u :: us => if u.Slices g i then us.length + 1 else lastSlice g i us

theorem Pins.not_unpins (hu : u.Pins g i) : ¬u.Unpins g i := by
  cases u <;> first | exact hu.elim | exact id

/-- Pins that outnumber the times one was taken back are not all taken back. -/
theorem countP_le_pinned (g : Geometry) (i : Nat) (us : List PageUse) :
    us.countP (·.Pins g i) ≤ pinned g i us + us.countP (·.Unpins g i) := by
  induction us with
  | nil => exact le_rfl
  | cons u us ih =>
    rw [pinned, List.countP_cons, List.countP_cons]
    simp only [decide_eq_true_eq]
    split_ifs with hpins hunpins
    · exact absurd hunpins hpins.not_unpins
    all_goals omega

theorem lastSlice_le (g : Geometry) (i : Nat) (us : List PageUse) :
    lastSlice g i us ≤ us.length := by
  induction us with
  | nil => exact le_rfl
  | cons u us ih =>
    rw [lastSlice, List.length_cons]
    split
    · exact le_rfl
    · exact ih.trans (Nat.le_succ _)

/-- A use reads one page at most. -/
theorem Slices.unique (hi : u.Slices g i) (hj : u.Slices g j) : i = j := by
  cases u with
  | slice ofs => exact Option.some.inj (hi.symm.trans hj)
  | _ => exact hi.elim

/-- A use that reads leaves the pins as they are. -/
theorem Slices.pinned_cons (hu : u.Slices g i) : pinned g j (u :: us) = pinned g j us := by
  cases u with
  | slice ofs => rfl
  | _ => exact hu.elim

/-- No two pages were last read by the same use. -/
theorem lastSlice_inj (hi : 0 < lastSlice g i us) (heq : lastSlice g i us = lastSlice g j us) :
    i = j := by
  induction us with
  | nil => exact absurd hi (lt_irrefl 0)
  | cons u us ih =>
    have hile := lastSlice_le g i us
    have hjle := lastSlice_le g j us
    rw [lastSlice, lastSlice] at heq
    rw [lastSlice] at hi
    split_ifs at heq hi with hui huj huj
    · exact hui.unique huj
    · omega
    · omega
    · exact ih hi heq

end PageUse

namespace PagedPool

variable {p : PagedPool} {g : Geometry} {limit i j : Nat} {u : PageUse} {us : List PageUse}

/-- What a pool counts agrees with how it has been used. -/
structure Recalls (p : PagedPool) (g : Geometry) (limit : Nat) (us : List PageUse) : Prop where
  /-- There is room for the same pages. -/
  geometry : p.geometry = g
  /-- As many pages are to be kept. -/
  maxResident : p.maxResident = limit
  /-- The pages that are kept are counted. -/
  tallied : p.Tallied
  /-- So are the pins of each page. -/
  pins : ∀ i, (p.page i).pins = PageUse.pinned g i us
  /-- No page has been used after the last use. -/
  clock : ∀ i, (p.page i).lastUse ≤ p.clock
  /-- A page that is kept has been read. -/
  sliced : ∀ i, p.Held i → 0 < PageUse.lastSlice g i us
  /-- Of two pages that are kept, the one that was read first is taken for less recently
      used. -/
  older : ∀ i j, p.Held i → p.Held j → PageUse.lastSlice g i us < PageUse.lastSlice g j us →
    (p.page i).lastUse < (p.page j).lastUse

/-- What only uses that read pages change is the same in both pools. -/
structure Quiet (p q : PagedPool) : Prop where
  /-- There is room for the same pages. -/
  geometry : q.geometry = p.geometry
  /-- As many of them are to be kept. -/
  maxResident : q.maxResident = p.maxResident
  /-- As many uses are counted. -/
  clock : q.clock = p.clock
  /-- The pages that are kept are counted in one if they are in the other. -/
  tallied : p.Tallied → q.Tallied
  /-- The same bytes of each page are kept. -/
  data : ∀ i, (q.page i).data? = (p.page i).data?
  /-- Each page was used last at the same time. -/
  lastUse : ∀ i, (q.page i).lastUse = (p.page i).lastUse

theorem Quiet.refl (p : PagedPool) : p.Quiet p := ⟨rfl, rfl, rfl, id, fun _ => rfl, fun _ => rfl⟩

theorem quiet_modifyPage (p : PagedPool) (i : Nat) {f : PageSlot → PageSlot}
    (hdata : ∀ s, (f s).data? = s.data?) (hlastUse : ∀ s, (f s).lastUse = s.lastUse) :
    p.Quiet (p.modifyPage i f) := by
  refine ⟨rfl, rfl, rfl, fun hp => hp.modifyPage (hdata _), fun j => ?_, fun j => ?_⟩
  · rw [page_modifyPage]
    split
    · exact hdata _
    · rfl
  · rw [page_modifyPage]
    split
    · exact hlastUse _
    · rfl

theorem quiet_modifyPins (p : PagedPool) (ofs : UInt32) (f : Nat → Nat) :
    p.Quiet (p.modifyPins ofs f) := by
  unfold modifyPins
  split
  · exact .refl p
  · exact p.quiet_modifyPage _ (fun _ => rfl) (fun _ => rfl)

/-- A page that is added is somewhere in the image. -/
theorem after_addPage (p : PagedPool) (index : UInt32) (mask : UInt8) (data : PageData) :
    p.after (.addPage index mask data) = p ∨ ∃ place, p.after (.addPage index mask data) =
      p.modifyPage index.toNat fun s => { s with location? := some place } := by
  rw [after]
  cases hadd : p.addPage index mask data with
  | error e => exact .inl rfl
  | ok q =>
    unfold addPage at hadd
    obtain ⟨-, hadd⟩ := Except.guard_eq_ok.1 hadd
    cases data with
    | bytes bs => cases hadd
    | deferred offset length =>
      obtain ⟨_, -, hadd⟩ := Except.bind_eq_ok.1 hadd
      exact .inr ⟨(offset, length), (Except.ok.inj hadd).symm⟩

/-- Only reading changes which pages are kept. -/
theorem quiet_after (p : PagedPool) (hu : ∀ ofs, u ≠ .slice ofs) : p.Quiet (p.after u) := by
  cases u with
  | slice ofs => exact absurd rfl (hu ofs)
  | pin ofs => exact p.quiet_modifyPins ofs (· + 1)
  | unpin ofs => exact p.quiet_modifyPins ofs (· - 1)
  | withSource source => exact ⟨rfl, rfl, rfl, id, fun _ => rfl, fun _ => rfl⟩
  | addPage index mask data =>
    rcases p.after_addPage index mask data with hsame | ⟨place, hplaced⟩
    · rw [hsame]
      exact .refl p
    · rw [hplaced]
      exact p.quiet_modifyPage _ (fun _ => rfl) (fun _ => rfl)

namespace Recalls

variable {q : PagedPool}

/-- Pages that are given up are not remembered. -/
theorem evictFor (hp : p.Recalls g limit us) (wanted tries : Nat) :
    (p.evictFor wanted tries).Recalls g limit us := by
  have hkeeps := p.keeps_evictFor wanted tries
  obtain ⟨pages, resident, hrest⟩ := p.evictFor_eq wanted tries
  have hlastUse (i : Nat) : ((p.evictFor wanted tries).page i).lastUse = (p.page i).lastUse := by
    rcases p.page_evictFor wanted tries i with hpage | hpage <;> rw [hpage]
  refine ⟨hkeeps.geometry.trans hp.geometry, ?_, hp.tallied.evictFor wanted tries,
    fun i => (hkeeps.pins i).trans (hp.pins i), fun i => ?_,
    fun i hi => hp.sliced i (held_of_evictFor hi), fun i j hi hj hlt => ?_⟩
  · rw [hrest]
    exact hp.maxResident
  · rw [hlastUse, hrest]
    exact hp.clock i
  · rw [hlastUse, hlastUse]
    exact hp.older i j (held_of_evictFor hi) (held_of_evictFor hj) hlt

/-- A use that reads no page. -/
theorem quiet (hp : p.Recalls g limit us) (hu : ∀ i, ¬u.Slices g i) (hq : p.Quiet q)
    (hpins : ∀ i, (q.page i).pins = PageUse.pinned g i (u :: us)) : q.Recalls g limit (u :: us) := by
  have hheld (i : Nat) (hi : q.Held i) : p.Held i := by rwa [Held, hq.data] at hi
  have hslice (i : Nat) : PageUse.lastSlice g i (u :: us) = PageUse.lastSlice g i us :=
    if_neg (hu i)
  refine ⟨hq.geometry.trans hp.geometry, hq.maxResident.trans hp.maxResident, hq.tallied hp.tallied,
    hpins, fun i => ?_, fun i hi => ?_, fun i j hi hj hlt => ?_⟩
  · rw [hq.lastUse, hq.clock]
    exact hp.clock i
  · rw [hslice]
    exact hp.sliced i (hheld i hi)
  · rw [hslice, hslice] at hlt
    rw [hq.lastUse, hq.lastUse]
    exact hp.older i j (hheld i hi) (hheld j hj) hlt

/-- Pins are those of the uses, unless it is one that reads. -/
theorem pins_after (hp : p.Recalls g limit us) (hu : ∀ ofs, u ≠ .slice ofs) (i : Nat) :
    ((p.after u).page i).pins = PageUse.pinned g i (u :: us) := by
  cases u with
  | slice ofs => exact absurd rfl (hu ofs)
  | pin ofs =>
    rw [PagedPool.after, page_modifyPins, hp.geometry, hp.pins, PageUse.pinned,
      if_neg (c := PageUse.Unpins g i (.pin ofs)) id]
    rfl
  | unpin ofs =>
    rw [PagedPool.after, page_modifyPins, hp.geometry, hp.pins, PageUse.pinned,
      if_neg (c := PageUse.Pins g i (.unpin ofs)) id]
    rfl
  | withSource source => exact hp.pins i
  | addPage index mask data =>
    refine Eq.trans ?_ (hp.pins i)
    rcases p.after_addPage index mask data with hsame | ⟨place, hplaced⟩
    · rw [hsame]
    · rw [hplaced, page_modifyPage]
      split <;> rfl

/-- A page that is not kept has not been read, in spite of the use. -/
theorem missed (hp : p.Recalls g limit us) (hu : u.Slices g i) (hi : ¬p.Held i) :
    p.Recalls g limit (u :: us) := by
  have hslice (j : Nat) (hj : p.Held j) :
      PageUse.lastSlice g j (u :: us) = PageUse.lastSlice g j us :=
    if_neg fun huj => hi (hu.unique huj ▸ hj)
  refine ⟨hp.geometry, hp.maxResident, hp.tallied, fun j => ?_, hp.clock, fun j hj => ?_,
    fun j k hj hk hlt => ?_⟩
  · rw [hp.pins, hu.pinned_cons]
  · rw [hslice j hj]
    exact hp.sliced j hj
  · rw [hslice j hj, hslice k hk] at hlt
    exact hp.older j k hj hk hlt

/-- A page that has been read is the one that was used last. -/
theorem used (hp : p.Recalls g limit us) (hu : u.Slices g i)
    (hgeometry : q.geometry = p.geometry) (hmax : q.maxResident = p.maxResident)
    (hclock : q.clock = p.clock + 1) (htallied : q.Tallied)
    (hpins : ∀ j, (q.page j).pins = (p.page j).pins)
    (hlastUse : (q.page i).lastUse = p.clock + 1) (hpage : ∀ j, i ≠ j → q.page j = p.page j) :
    q.Recalls g limit (u :: us) := by
  have hslice : PageUse.lastSlice g i (u :: us) = us.length + 1 := if_pos hu
  have hother (j : Nat) (hj : i ≠ j) :
      PageUse.lastSlice g j (u :: us) = PageUse.lastSlice g j us :=
    if_neg fun huj => hj (hu.unique huj)
  have hheld (j : Nat) (hne : i ≠ j) (hj : q.Held j) : p.Held j := by
    rwa [Held, hpage j hne] at hj
  refine ⟨hgeometry.trans hp.geometry, hmax.trans hp.maxResident, htallied, fun j => ?_, fun j => ?_,
    fun j hj => ?_, fun j k hj hk hlt => ?_⟩
  · rw [hpins, hp.pins, hu.pinned_cons]
  · rw [hclock]
    rcases eq_or_ne i j with rfl | hne
    · exact hlastUse.le
    · rw [hpage j hne]
      exact (hp.clock j).trans (Nat.le_succ _)
  · rcases eq_or_ne i j with rfl | hne
    · rw [hslice]
      exact Nat.succ_pos _
    · rw [hother j hne]
      exact hp.sliced j (hheld j hne hj)
  · rcases eq_or_ne i j with rfl | hij
    · -- Nothing is read after the last use.
      have hle := PageUse.lastSlice_le g k (u :: us)
      rw [hslice] at hlt
      exact absurd hle (not_le.2 hlt)
    · rw [hpage j hij]
      rcases eq_or_ne i k with rfl | hik
      · rw [hlastUse]
        exact Nat.lt_succ_of_le (hp.clock j)
      · rw [hother j hij, hother k hik] at hlt
        rw [hpage k hik]
        exact hp.older j k (hheld j hij hj) (hheld k hik hk) hlt

theorem touch (hp : p.Recalls g limit us) (hu : u.Slices g i) :
    (p.touch i).Recalls g limit (u :: us) := by
  refine hp.used hu rfl rfl rfl (hp.tallied.touch i) (fun j => ?_) ?_ fun j hj => ?_
  · rw [page_touch]
    split <;> rfl
  · rw [page_touch, if_pos rfl]
  · rw [page_touch, if_neg hj]

theorem fill_touch (hp : p.Recalls g limit us) (hu : u.Slices g i) (hi : ¬p.Held i)
    (bytes : Array UInt8) : ((p.fill i bytes).touch i).Recalls g limit (u :: us) := by
  refine hp.used hu rfl rfl rfl ((hp.tallied.fill hi bytes).touch i) (fun j => ?_) ?_ fun j hj => ?_
  · rw [page_touch, page_fill]
    split <;> rfl
  · rw [page_touch, if_pos rfl]
    rfl
  · rw [page_touch, if_neg hj, page_fill, if_neg hj]

theorem slice (hp : p.Recalls g limit us) (ofs : UInt32) :
    (p.slice ofs).2.Recalls g limit (.slice ofs :: us) := by
  have hpage {i start : Nat} (hsplit : p.geometry.split ofs = .ok (i, start)) :
      (PageUse.slice ofs).Slices g i := by
    rw [PageUse.Slices, Geometry.pageOf?, ← hp.geometry, hsplit]
    rfl
  have hsliced := p.sliced ofs
  generalize (p.slice ofs).2 = q at hsliced
  cases hsliced with
  | outside hno =>
    refine hp.quiet (fun i hi => ?_) (.refl p) hp.pins
    rw [PageUse.Slices, Geometry.pageOf?, ← hp.geometry, hno] at hi
    cases hi
  | held hsplit _ => exact hp.touch (hpage hsplit)
  | missing hsplit hi _ => exact hp.missed (hpage hsplit) hi
  | unread hsplit hi => exact (hp.evictFor _ _).missed (hpage hsplit) fun hq => hi (held_of_evictFor hq)
  | read hsplit hi bytes =>
    exact (hp.evictFor _ _).fill_touch (hpage hsplit) (fun hq => hi (held_of_evictFor hq)) bytes

/-- The counts are right after a use if they were before. -/
theorem after (hp : p.Recalls g limit us) (u : PageUse) : (p.after u).Recalls g limit (u :: us) := by
  cases u with
  | slice ofs => exact hp.slice ofs
  | addPage index mask data => exact hp.quiet (fun _ => nofun) (p.quiet_after nofun) (hp.pins_after nofun)
  | pin ofs => exact hp.quiet (fun _ => nofun) (p.quiet_after nofun) (hp.pins_after nofun)
  | unpin ofs => exact hp.quiet (fun _ => nofun) (p.quiet_after nofun) (hp.pins_after nofun)
  | withSource source =>
    exact hp.quiet (fun _ => nofun) (p.quiet_after nofun) (hp.pins_after nofun)

end Recalls

/-! ## What is kept and what is given up -/

/-- A page that is lost has been given up at some point. -/
theorem exists_given_up {wanted tries : Nat} (hp : p.Held i)
    (hq : ¬(p.evictFor wanted tries).Held i) :
    ∃ n, (p.evictFor wanted n).Held i ∧ ¬(p.evictFor wanted (n + 1)).Held i := by
  induction tries with
  | zero => exact absurd hp hq
  | succ tries ih =>
    by_cases hheld : (p.evictFor wanted tries).Held i
    · exact ⟨tries, hheld, hq⟩
    · exact ih hheld

/-- A page that is lost is given up to make room for one that is read. -/
theorem lost_after (hp : p.Held i) (hq : ¬(p.after u).Held i) : ∃ wanted,
    u.Slices p.geometry wanted ∧ ¬p.Held wanted ∧
      ¬(p.evictFor wanted (p.pages.size + 1)).Held i := by
  by_cases hu : ∀ ofs, u ≠ .slice ofs
  · rw [Held, (p.quiet_after hu).data] at hq
    exact absurd hp hq
  · push Not at hu
    obtain ⟨ofs, rfl⟩ := hu
    have hpage {k start : Nat} (hsplit : p.geometry.split ofs = .ok (k, start)) :
        (PageUse.slice ofs).Slices p.geometry k := by
      rw [PageUse.Slices, Geometry.pageOf?, hsplit]
      rfl
    rw [after] at hq
    have hsliced := p.sliced ofs
    generalize (p.slice ofs).2 = q at hsliced hq
    cases hsliced with
    | outside _ => exact absurd hp hq
    | missing _ _ _ => exact absurd hp hq
    | @held k _ _ _ =>
      refine absurd ?_ hq
      rw [Held, page_touch]
      split <;> exact hp
    | @unread k _ hsplit hk => exact ⟨k, hpage hsplit, hk, hq⟩
    | @read k _ hsplit hk bytes =>
      refine ⟨k, hpage hsplit, hk, fun hheld => hq ?_⟩
      rw [Held, page_touch, page_fill]
      split
      · rfl
      · exact hheld

/-- What is kept is what is pinned, and of the rest what was used last. The pool has room
    for `limit` pages, and it has been used in this way since it was defined. -/
structure CachesRecent (p : PagedPool) (g : Geometry) (limit : Nat) (us : List PageUse) : Prop where
  /-- The pages that are kept are counted. -/
  resident : p.resident = p.pages.countP (·.data?.isSome)
  /-- A page that is kept stays, whatever comes next, as long as more pins of it were taken
      than taken back. -/
  stays : ∀ u i, us.countP (·.Unpins g i) < us.countP (·.Pins g i) → p.Held i →
    ((p.after u).page i).data? = (p.page i).data?
  /-- A page that is lost is given up to make room for one that is read. When it is given
      up, it is not pinned, and of the pages that are kept then and not pinned it is the one
      that was read longest ago. -/
  oldest : ∀ u i, p.Held i → ¬(p.after u).Held i → ∃ wanted n, u.Slices g wanted ∧
    ¬p.Held wanted ∧ (p.evictFor wanted n).Held i ∧ ¬(p.evictFor wanted (n + 1)).Held i ∧
    PageUse.pinned g i us = 0 ∧ ∀ j, j ≠ i → (p.evictFor wanted n).Held j →
      PageUse.pinned g j us = 0 → PageUse.lastSlice g i us < PageUse.lastSlice g j us
  /-- When a page has been read in, no more are kept than there is room for, or all others
      are pinned. -/
  room : ∀ u i, u.Slices g i → ¬p.Held i → (p.after u).Held i →
    (p.after u).resident ≤ limit ∨ ∀ j, j ≠ i → (p.after u).Held j → 0 < PageUse.pinned g j us

namespace Recalls

theorem stays (hp : p.Recalls g limit us) (u : PageUse)
    (hi : us.countP (·.Unpins g i) < us.countP (·.Pins g i)) (hheld : p.Held i) :
    ((p.after u).page i).data? = (p.page i).data? := by
  have hpins : 0 < (p.page i).pins := by
    have hle := PageUse.countP_le_pinned g i us
    rw [hp.pins]
    omega
  by_cases hu : ∀ ofs, u ≠ .slice ofs
  · exact (p.quiet_after hu).data i
  · push Not at hu
    obtain ⟨ofs, rfl⟩ := hu
    exact data?_slice_of_pinned hpins hheld ofs

/-- A page that is given up is the one that was read longest ago. -/
theorem oldest (hp : p.Recalls g limit us) {wanted n : Nat} (hwanted : ¬p.Held wanted)
    (hi : (p.evictFor wanted n).Held i) (hlost : ¬(p.evictFor wanted (n + 1)).Held i) :
    PageUse.pinned g i us = 0 ∧ ∀ j, j ≠ i → (p.evictFor wanted n).Held j →
      PageUse.pinned g j us = 0 → PageUse.lastSlice g i us < PageUse.lastSlice g j us := by
  have hq := hp.evictFor wanted n
  rw [evictFor_succ] at hlost
  obtain ⟨⟨-, -, hpins⟩, hleast⟩ := victim?_eq_some (victim?_of_evictFor_one hi hlost)
  refine ⟨(hq.pins i).symm.trans hpins, fun j hne hj hjpins => ?_⟩
  have hjwanted : j ≠ wanted := fun heq => hwanted (heq ▸ held_of_evictFor hj)
  have hle := hleast j hjwanted hj ((hq.pins j).trans hjpins)
  rcases lt_trichotomy (PageUse.lastSlice g i us) (PageUse.lastSlice g j us) with hlt | heq | hgt
  · exact hlt
  · exact absurd (PageUse.lastSlice_inj (hq.sliced i hi) heq).symm hne
  · exact absurd hle (not_le.2 (hq.older j i hj hi hgt))

theorem room (hp : p.Recalls g limit us) {ofs : UInt32} (hi : (PageUse.slice ofs).Slices g i)
    (hheld : ¬p.Held i) (hread : (p.slice ofs).2.Held i) :
    (p.slice ofs).2.resident ≤ limit ∨
      ∀ j, j ≠ i → (p.slice ofs).2.Held j → 0 < PageUse.pinned g j us := by
  have hpage {k start : Nat} (hsplit : p.geometry.split ofs = .ok (k, start)) : k = i := by
    rw [PageUse.Slices, Geometry.pageOf?, ← hp.geometry, hsplit] at hi
    exact Option.some.inj hi
  have hsliced := p.sliced ofs
  generalize (p.slice ofs).2 = q at hsliced hread
  cases hsliced with
  | outside _ => exact absurd hread hheld
  | missing _ _ _ => exact absurd hread hheld
  | held hsplit hk => exact absurd (hpage hsplit ▸ hk) hheld
  | unread _ _ => exact absurd (held_of_evictFor hread) hheld
  | @read k _ hsplit hk bytes =>
    obtain rfl := hpage hsplit
    have hfew : p.resident < p.pages.size + 1 := by
      rw [hp.tallied]
      exact Nat.lt_succ_of_le Array.countP_le_size
    have hroom := room_of_evictFor hp.tallied k hfew
    refine hroom.imp (fun hless => ?_) fun hpinned j hne hj => ?_
    · rw [hp.maxResident] at hless
      exact hless
    · rw [Held, page_touch, if_neg hne.symm, page_fill, if_neg hne.symm] at hj
      exact hp.pins j ▸ hpinned j hne hj

theorem cachesRecent (hp : p.Recalls g limit us) : p.CachesRecent g limit us where
  resident := hp.tallied
  stays u _ hi hheld := hp.stays u hi hheld
  oldest u i hheld hlost := by
    obtain ⟨wanted, hu, hwanted, hgone⟩ := lost_after hheld hlost
    obtain ⟨n, hi, hn⟩ := exists_given_up hheld hgone
    exact ⟨wanted, n, hp.geometry ▸ hu, hwanted, hi, hn, hp.oldest hwanted hi hn⟩
  room u i hu hheld hread := by
    cases u with
    | slice ofs => exact hp.room hu hheld hread
    | _ => exact hu.elim

theorem afterAll (hp : p.Recalls g limit []) (us : List PageUse) :
    (p.afterAll us).Recalls g limit us := by
  induction us with
  | nil => exact hp
  | cons u us ih => exact ih.after u

end Recalls

/-- A pool that has just been defined keeps nothing. -/
theorem recalls_of_define {pool : UInt16} {source : Array UInt8} {maxResident : Nat}
    {pageCount pageSize : UInt32}
    (hok : (new pool source maxResident).define pageCount pageSize = .ok p) :
    p.Recalls p.geometry (max maxResident 1) [] := by
  obtain ⟨geometry, -, hok⟩ := Except.bind_eq_ok.1 hok
  obtain rfl := Except.ok.inj hok
  exact ⟨rfl, rfl, rfl, fun _ => rfl, fun _ => le_rfl, nofun, nofun⟩

end PagedPool

end StoryMachine
