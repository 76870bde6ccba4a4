import StoryMachine.Proofs.Pool.Bounds

/-!
# Pages that are given up

To make room for a page, a pool gives up others, one at a time. Each of them is kept and
not pinned, and of those that are it is the one that has gone unused for longest. This
goes on until there is room, or all the pages that are left are pinned.

* `PagedPool.victim?_eq_some`, `PagedPool.victim?_eq_none`: the page that is given up next;
* `PagedPool.evictFor_succ`: one page at a time;
* `PagedPool.Tallied`: pages that are kept are counted;
* `PagedPool.room_of_evictFor`: what has been gained in the end;
* `PagedPool.Sliced`: all that a read can do to a pool.
-/

namespace StoryMachine

theorem Array.countP_modify {α : Type} (f : α → Bool) (g : α → α) {xs : Array α} {i : Nat}
    (hi : i < xs.size) : (xs.modify i g).countP f + (f xs[i]).toNat =
      xs.countP f + (f (g xs[i])).toNat := by
  have hset : xs.modify i g = xs.set i (g xs[i]) := by
    refine Array.ext_getElem? fun j => ?_
    rw [Array.getElem?_modify, Array.getElem?_set]
    split
    · next heq => rw [← heq, Array.getElem?_eq_getElem hi, Option.map_some]
    · rfl
  have hpos : f xs[i] = true → 0 < xs.countP f := fun hf =>
    Array.countP_pos_iff.2 ⟨_, Array.getElem_mem hi, hf⟩
  rw [hset, Array.countP_set]
  cases hf : f xs[i] <;> cases f (g xs[i]) <;> grind

namespace PagedPool

variable {p q : PagedPool} {i j wanted : Nat}

/-- Page `i` is kept. -/
def Held (p : PagedPool) (i : Nat) : Prop := (p.page i).data?.isSome = true

instance (p : PagedPool) (i : Nat) : Decidable (p.Held i) :=
  inferInstanceAs (Decidable ((p.page i).data?.isSome = true))

/-- The pages that are kept are counted. -/
def Tallied (p : PagedPool) : Prop := p.resident = p.pages.countP (·.data?.isSome)

theorem Held.lt_size (hp : p.Held i) : i < p.pages.size := by
  by_contra hi
  rw [Held, page, Array.getElem?_eq_none (not_lt.1 hi)] at hp
  cases hp

theorem isEvictable_iff : p.isEvictable i = true ↔ p.Held i ∧ (p.page i).pins = 0 := by
  unfold isEvictable Held page
  cases p.pages[i]? <;> simp

theorem lastUse_eq (p : PagedPool) (i : Nat) : p.lastUse i = (p.page i).lastUse := by
  unfold lastUse page
  cases p.pages[i]? <;> rfl

/-- One page is changed, so the number of those that are kept changes by what that page
    counts for. -/
theorem countP_modifyPage (p : PagedPool) (i : Nat) (f : PageSlot → PageSlot) :
    (p.modifyPage i f).pages.countP (·.data?.isSome) + (p.page i).data?.isSome.toNat =
      p.pages.countP (·.data?.isSome) + (f (p.page i)).data?.isSome.toNat := by
  have hlt := lt_size_reaching p.pages i {}
  have hreach : (reaching p.pages i {}).countP (·.data?.isSome) =
      p.pages.countP (·.data?.isSome) := by
    unfold reaching
    split
    · rfl
    · rw [Array.countP_append, Array.countP_replicate]
      rfl
  have hpage : (reaching p.pages i {})[i] = p.page i := by
    have hget := getD_reaching p.pages i i {}
    rwa [Array.getElem?_eq_getElem hlt] at hget
  have hmodify := Array.countP_modify (·.data?.isSome) f hlt
  rw [hreach, hpage] at hmodify
  exact hmodify

/-! ## The page that goes next -/

/-- The first of the least elements is found. -/
theorem foldl_least (f : Nat → Nat) (l : List Nat) (b : Nat) : ∃ c, l.foldl (fun best i =>
      match best with
      | none => some i
      | some b => if f i < f b then some i else some b) (some b) = some c ∧
    c ∈ b :: l ∧ ∀ j ∈ b :: l, f c ≤ f j := by
  induction l generalizing b with
  | nil => exact ⟨b, rfl, List.mem_singleton_self b, by simp⟩
  | cons a l ih =>
    rw [List.foldl_cons]
    dsimp only
    split
    · next hlt =>
      obtain ⟨c, hc, hmem, hle⟩ := ih a
      refine ⟨c, hc, List.mem_cons_of_mem b hmem, List.forall_mem_cons.2 ⟨?_, hle⟩⟩
      exact (hle a List.mem_cons_self).trans hlt.le
    · next hlt =>
      obtain ⟨c, hc, hmem, hle⟩ := ih b
      obtain ⟨hb, hl⟩ := List.forall_mem_cons.1 hle
      refine ⟨c, hc, ?_, List.forall_mem_cons.2 ⟨hb, List.forall_mem_cons.2 ⟨?_, hl⟩⟩⟩
      · rcases List.mem_cons.1 hmem with rfl | hmem
        · exact List.mem_cons_self
        · exact List.mem_cons_of_mem b (List.mem_cons_of_mem a hmem)
      · exact hb.trans (not_lt.1 hlt)

/-- The pages among which one is chosen. -/
theorem mem_candidates (p : PagedPool) (wanted i : Nat) : i ∈ (List.range p.pages.size).filter
    (fun i => i != wanted && p.isEvictable i) ↔ i ≠ wanted ∧ p.Held i ∧ (p.page i).pins = 0 := by
  rw [List.mem_filter, List.mem_range, Bool.and_eq_true, isEvictable_iff, bne_iff_ne]
  exact ⟨fun h => h.2, fun h => ⟨h.2.1.lt_size, h⟩⟩

/-- The page that is given up is kept and not pinned, and of those that are it has gone
    unused for longest. -/
theorem victim?_eq_some (hi : p.victim? wanted = some i) :
    (i ≠ wanted ∧ p.Held i ∧ (p.page i).pins = 0) ∧ ∀ j, j ≠ wanted → p.Held j →
      (p.page j).pins = 0 → (p.page i).lastUse ≤ (p.page j).lastUse := by
  unfold victim? at hi
  dsimp only at hi
  have hcandidates (j : Nat) := mem_candidates p wanted j
  generalize (List.range p.pages.size).filter (fun i => i != wanted && p.isEvictable i) = l
    at hi hcandidates
  cases l with
  | nil => cases hi
  | cons b l =>
    obtain ⟨c, hc, hmem, hle⟩ := foldl_least p.lastUse l b
    obtain rfl := Option.some.inj (hc.symm.trans hi)
    refine ⟨(hcandidates c).1 hmem, fun j hj hheld hpins => ?_⟩
    have hle := hle j ((hcandidates j).2 ⟨hj, hheld, hpins⟩)
    rwa [lastUse_eq, lastUse_eq] at hle

/-- No page is given up because all of them are pinned. -/
theorem victim?_eq_none (hnone : p.victim? wanted = none) (hj : j ≠ wanted) (hheld : p.Held j) :
    0 < (p.page j).pins := by
  refine Nat.pos_of_ne_zero fun hpins => ?_
  have hmem := (mem_candidates p wanted j).2 ⟨hj, hheld, hpins⟩
  unfold victim? at hnone
  dsimp only at hnone
  generalize (List.range p.pages.size).filter (fun i => i != wanted && p.isEvictable i) = l
    at hnone hmem
  cases l with
  | nil => cases hmem
  | cons b l =>
    obtain ⟨c, hc, -⟩ := foldl_least p.lastUse l b
    exact nomatch hc.symm.trans hnone

/-! ## One page at a time -/

/-- The pool without the bytes of page `i`. -/
def giveUp (p : PagedPool) (i : Nat) : PagedPool :=
  { p.modifyPage i fun s => { s with data? := none } with resident := p.resident - 1 }

theorem page_giveUp (p : PagedPool) (i j : Nat) : (p.giveUp i).page j =
    if i = j then { p.page j with data? := none } else p.page j :=
  p.page_modifyPage i j _

theorem held_giveUp : (p.giveUp i).Held j ↔ i ≠ j ∧ p.Held j := by
  unfold Held
  rw [page_giveUp]
  split
  · next heq => simp [heq]
  · next hne => simp [hne]

theorem Tallied.giveUp (hp : p.Tallied) (hi : p.Held i) : (p.giveUp i).Tallied := by
  have hcount := p.countP_modifyPage i fun s => { s with data? := none }
  have hone : (p.page i).data?.isSome.toNat = 1 := by rw [hi, Bool.toNat_true]
  rw [hone, Option.isSome_none, Bool.toNat_false] at hcount
  have hresident : (p.giveUp i).resident = p.resident - 1 := rfl
  have hpages : (p.giveUp i).pages = (p.modifyPage i fun s => { s with data? := none }).pages := rfl
  rw [Tallied] at hp ⊢
  rw [hresident, hpages, hp]
  omega

theorem evictFor_of_lt (hroom : p.resident < p.maxResident) (tries : Nat) :
    p.evictFor wanted tries = p := by
  cases tries with
  | zero => rfl
  | succ tries => rw [evictFor, if_neg (not_le.2 hroom)]

theorem evictFor_of_none (hnone : p.victim? wanted = none) (tries : Nat) :
    p.evictFor wanted tries = p := by
  cases tries with
  | zero => rfl
  | succ tries =>
    rw [evictFor, hnone]
    split <;> rfl

theorem evictFor_of_some (hfull : p.maxResident ≤ p.resident) (hi : p.victim? wanted = some i)
    (tries : Nat) : p.evictFor wanted (tries + 1) = (p.giveUp i).evictFor wanted tries := by
  rw [evictFor, if_pos hfull, hi]
  rfl

/-- More tries go on where fewer of them have stopped. -/
theorem evictFor_succ (p : PagedPool) (wanted tries : Nat) :
    p.evictFor wanted (tries + 1) = (p.evictFor wanted tries).evictFor wanted 1 := by
  induction tries generalizing p with
  | zero => rfl
  | succ tries ih =>
    rcases lt_or_ge p.resident p.maxResident with hroom | hfull
    · simp only [evictFor_of_lt hroom]
    · cases hvictim : p.victim? wanted with
      | none => simp only [evictFor_of_none hvictim]
      | some i => rw [evictFor_of_some hfull hvictim, evictFor_of_some hfull hvictim, ih]

/-- What is lost with one try is the page that goes next. -/
theorem victim?_of_evictFor_one (hp : p.Held i) (hq : ¬(p.evictFor wanted 1).Held i) :
    p.victim? wanted = some i := by
  rcases lt_or_ge p.resident p.maxResident with hroom | hfull
  · rw [evictFor_of_lt hroom] at hq
    exact absurd hp hq
  · cases hvictim : p.victim? wanted with
    | none =>
      rw [evictFor_of_none hvictim] at hq
      exact absurd hp hq
    | some k =>
      rw [evictFor_of_some hfull hvictim, evictFor, held_giveUp] at hq
      by_contra hne
      exact hq ⟨fun heq => hne (congrArg some heq), hp⟩

/-- What is so at first, and stays so when a page is given up, is so in the end. -/
theorem evictFor_induct {motive : PagedPool → Prop} (tries : Nat) (hp : motive p)
    (hstep : ∀ q i, motive q → q.victim? wanted = some i → motive (q.giveUp i)) :
    motive (p.evictFor wanted tries) := by
  induction tries generalizing p with
  | zero => exact hp
  | succ tries ih =>
    rcases lt_or_ge p.resident p.maxResident with hroom | hfull
    · rwa [evictFor_of_lt hroom]
    · cases hvictim : p.victim? wanted with
      | none => rwa [evictFor_of_none hvictim]
      | some i =>
        rw [evictFor_of_some hfull hvictim]
        exact ih (hstep p i hp hvictim)

theorem Tallied.evictFor (hp : p.Tallied) (wanted tries : Nat) :
    (p.evictFor wanted tries).Tallied :=
  evictFor_induct tries hp fun _ _ hq hi => hq.giveUp (victim?_eq_some hi).1.2.1

/-- Nothing changes but the pages and how many are kept. -/
theorem evictFor_eq (p : PagedPool) (wanted tries : Nat) :
    ∃ pages resident, p.evictFor wanted tries = { p with pages, resident } :=
  evictFor_induct (motive := fun q => ∃ pages resident, q = { p with pages, resident }) tries
    ⟨_, _, rfl⟩ fun q i ⟨_, _, hq⟩ _ => ⟨(q.giveUp i).pages, (q.giveUp i).resident, by subst hq; rfl⟩

/-- A page is as it was, but for its bytes if it has been given up. -/
theorem page_evictFor (p : PagedPool) (wanted tries i : Nat) :
    (p.evictFor wanted tries).page i = p.page i ∨
      (p.evictFor wanted tries).page i = { p.page i with data? := none } := by
  refine evictFor_induct (motive := fun q => q.page i = p.page i ∨
    q.page i = { p.page i with data? := none }) tries (.inl rfl) fun q k hq _ => ?_
  rw [page_giveUp]
  split
  · rcases hq with hq | hq <;> exact .inr (by rw [hq])
  · exact hq

/-- A page stays if it is pinned, or the one that is wanted. -/
theorem page_evictFor_of_stays (hi : i = wanted ∨ 0 < (p.page i).pins) (tries : Nat) :
    (p.evictFor wanted tries).page i = p.page i := by
  refine evictFor_induct (motive := fun q => q.page i = p.page i) tries rfl fun q k hq hk => ?_
  obtain ⟨⟨hne, -, hpins⟩, -⟩ := victim?_eq_some hk
  rw [page_giveUp, if_neg ?_, hq]
  rintro rfl
  rcases hi with hi | hi
  · exact hne hi
  · exact hi.ne' (hq ▸ hpins)

theorem held_of_evictFor {tries : Nat} (hq : (p.evictFor wanted tries).Held i) : p.Held i := by
  rcases p.page_evictFor wanted tries i with hpage | hpage <;> rw [Held, hpage] at hq
  · exact hq
  · cases hq

theorem Tallied.pos_of_held (hp : p.Tallied) (hi : p.Held i) : 0 < p.resident := by
  have hlt := hi.lt_size
  rw [hp, Array.countP_pos_iff]
  refine ⟨p.pages[i], Array.getElem_mem hlt, ?_⟩
  rwa [Held, page, Array.getElem?_eq_getElem hlt] at hi

/-- With tries enough there is room in the end, or every other page that is kept is
    pinned. -/
theorem room_of_evictFor (hp : p.Tallied) (wanted : Nat) {tries : Nat} (htries : p.resident < tries) :
    (p.evictFor wanted tries).resident < p.maxResident ∨
      ∀ j, j ≠ wanted → (p.evictFor wanted tries).Held j → 0 < (p.page j).pins := by
  induction tries generalizing p with
  | zero => cases htries
  | succ tries ih =>
    rcases lt_or_ge p.resident p.maxResident with hroom | hfull
    · rw [evictFor_of_lt hroom]
      exact .inl hroom
    · cases hvictim : p.victim? wanted with
      | none =>
        rw [evictFor_of_none hvictim]
        exact .inr fun j => victim?_eq_none hvictim
      | some i =>
        obtain ⟨⟨-, hheld, -⟩, -⟩ := victim?_eq_some hvictim
        have hpos := hp.pos_of_held hheld
        have hless : (p.giveUp i).resident < tries := by
          have hresident : (p.giveUp i).resident = p.resident - 1 := rfl
          omega
        have hpins (j : Nat) : ((p.giveUp i).page j).pins = (p.page j).pins := by
          rw [page_giveUp]
          split <;> rfl
        have hrest := ih (hp.giveUp hheld) hless
        simp only [hpins] at hrest
        rwa [evictFor_of_some hfull hvictim]

/-! ## Reading -/

/-- The pool with page `i` read in. -/
def fill (p : PagedPool) (i : Nat) (bytes : Array UInt8) : PagedPool :=
  { p.modifyPage i fun s => { s with data? := some bytes } with resident := p.resident + 1 }

/-- The pool with page `i` used one time more. -/
def touch (p : PagedPool) (i : Nat) : PagedPool :=
  { p with clock := p.clock + 1 }.modifyPage i fun s => { s with lastUse := p.clock + 1 }

theorem page_fill (p : PagedPool) (i j : Nat) (bytes : Array UInt8) : (p.fill i bytes).page j =
    if i = j then { p.page j with data? := some bytes } else p.page j :=
  p.page_modifyPage i j _

theorem page_touch (p : PagedPool) (i j : Nat) : (p.touch i).page j =
    if i = j then { p.page j with lastUse := p.clock + 1 } else p.page j :=
  { p with clock := p.clock + 1 }.page_modifyPage i j _

theorem Tallied.modifyPage (hp : p.Tallied) {f : PageSlot → PageSlot}
    (hf : (f (p.page i)).data? = (p.page i).data?) : (p.modifyPage i f).Tallied := by
  have hcount := p.countP_modifyPage i f
  rw [hf] at hcount
  exact Eq.trans hp (Nat.add_right_cancel hcount).symm

theorem Tallied.touch (hp : p.Tallied) (i : Nat) : (p.touch i).Tallied := by
  have hclock : { p with clock := p.clock + 1 }.Tallied := hp
  exact hclock.modifyPage rfl

theorem Tallied.fill (hp : p.Tallied) (hi : ¬p.Held i) (bytes : Array UInt8) :
    (p.fill i bytes).Tallied := by
  have hcount := p.countP_modifyPage i fun s => { s with data? := some bytes }
  rw [Bool.eq_false_iff.2 hi, Option.isSome_some, Bool.toNat_false, Bool.toNat_true] at hcount
  exact (congrArg (· + 1) hp).trans hcount.symm

/-- What reading at an offset can do to a pool. -/
inductive Sliced (p : PagedPool) (ofs : UInt32) : PagedPool → Prop
  /-- The offset falls on no page. -/
  | outside {e : Failure} (hno : p.geometry.split ofs = .error e) : Sliced p ofs p
  /-- The page is kept. -/
  | held {i start : Nat} (hsplit : p.geometry.split ofs = .ok (i, start)) (hi : p.Held i) :
      Sliced p ofs (p.touch i)
  /-- There is no such page in the image. -/
  | missing {i start : Nat} (hsplit : p.geometry.split ofs = .ok (i, start)) (hi : ¬p.Held i)
      (hno : (p.page i).location? = none) : Sliced p ofs p
  /-- The page cannot be read, though room has been made for it. -/
  | unread {i start : Nat} (hsplit : p.geometry.split ofs = .ok (i, start)) (hi : ¬p.Held i) :
      Sliced p ofs (p.evictFor i (p.pages.size + 1))
  /-- The page is read. -/
  | read {i start : Nat} (hsplit : p.geometry.split ofs = .ok (i, start)) (hi : ¬p.Held i)
      (bytes : Array UInt8) :
      Sliced p ofs (((p.evictFor i (p.pages.size + 1)).fill i bytes).touch i)

/-- A page that is not kept is read, if it can be. -/
theorem load_cases (p : PagedPool) (i : Nat) :
    (∃ e, p.load i = (.error e, p) ∧ (p.page i).location? = none) ∨
    (∃ e, p.load i = (.error e, p.evictFor i (p.pages.size + 1))) ∨
    ∃ bytes, p.load i = (.ok (), (p.evictFor i (p.pages.size + 1)).fill i bytes) := by
  rw [load, bind_location?]
  split
  · next hno => exact .inl ⟨_, rfl, hno⟩
  · dsimp only
    split
    · exact .inr (.inl ⟨_, rfl⟩)
    · exact .inr (.inr ⟨_, rfl⟩)

theorem sliced (p : PagedPool) (ofs : UInt32) : p.Sliced ofs (p.slice ofs).2 := by
  rw [slice]
  cases hsplit : p.geometry.split ofs with
  | error e => exact .outside hsplit
  | ok place =>
    obtain ⟨i, start⟩ := place
    dsimp only
    rw [any_isSome_data?]
    by_cases hi : (p.page i).data?.isSome = true
    · rw [if_pos hi]
      dsimp only
      split <;> exact .held hsplit hi
    · rw [if_neg hi]
      rcases p.load_cases i with ⟨e, hload, hno⟩ | ⟨e, hload⟩ | ⟨bytes, hload⟩ <;> rw [hload]
      · exact .missing hsplit hi hno
      · exact .unread hsplit hi
      · dsimp only
        split <;> exact .read hsplit hi bytes

/-- A page that is pinned is not given up. -/
theorem data?_slice_of_pinned (hpins : 0 < (p.page i).pins) (hi : p.Held i) (ofs : UInt32) :
    ((p.slice ofs).2.page i).data? = (p.page i).data? := by
  have hevict (wanted tries : Nat) : (p.evictFor wanted tries).page i = p.page i :=
    page_evictFor_of_stays (.inr hpins) tries
  have hsliced := p.sliced ofs
  generalize (p.slice ofs).2 = q at hsliced
  cases hsliced with
  | outside _ => rfl
  | missing _ _ _ => rfl
  | held _ _ =>
    rw [page_touch]
    split <;> rfl
  | unread _ _ => rw [hevict]
  | read _ hk _ =>
    rw [page_touch, page_fill, hevict]
    split
    · next heq => exact absurd (heq ▸ hi) hk
    · rfl

end PagedPool

end StoryMachine
