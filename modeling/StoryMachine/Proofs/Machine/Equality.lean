import StoryMachine.Code.Assembler
import StoryMachine.Image.Draft
import StoryMachine.Proofs.Image.Loader
import StoryMachine.Proofs.Machine.Outcome

/-!
# When comparisons end

To compare two lists is to compare their elements, which may be lists again. A list of
an image can contain itself, and two of them can contain each other. The comparison of
such lists may come back to a pair that it has not finished with, and then it has no
end. In all other cases it has one, and the machine goes deep enough to find it.

* `Machine.Asks`: the pairs that are compared in order to compare a pair;
* `Machine.Circles`: the comparison comes back to a pair;
* `valuesEqual_ends_iff`: comparisons end unless they come back to a pair, as they may
  only for lists that contain themselves;
* `hangs_compareBy_iff`, `Hangs.of_positionOf`, `Hangs.of_subtractValues`: the
  operations that compare values.
-/

namespace StoryMachine

/-! ## Checks of all elements -/

section All

variable {ε α : Type} {f g : α → Except ε Bool} {x : α} {xs before after : List α} {e : ε}

/-- A check of all elements fails where that of the first one fails that does not pass. -/
theorem allM_eq_error (hx : xs.allM f = .error e) :
    ∃ before x after, xs = before ++ x :: after ∧ (∀ y ∈ before, f y = .ok true) ∧
      f x = .error e := by
  induction xs with
  | nil => cases hx
  | cons x xs ih =>
    cases hfirst : f x with
    | error e' =>
      have heq : (x :: xs).allM f = .error e' := by rw [List.allM, hfirst]; rfl
      obtain rfl := Except.error.inj (heq.symm.trans hx)
      exact ⟨[], x, xs, rfl, by simp, hfirst⟩
    | ok passed =>
      cases passed with
      | false =>
        have heq : (x :: xs).allM f = .ok false := by rw [List.allM, hfirst]; rfl
        cases heq.symm.trans hx
      | true =>
        have heq : (x :: xs).allM f = xs.allM f := by rw [List.allM, hfirst]; rfl
        obtain ⟨before, y, after, rfl, hbefore, hy⟩ := ih (heq.symm.trans hx)
        exact ⟨x :: before, y, after, rfl, by simpa [hfirst] using hbefore, hy⟩

theorem allM_eq_error_of_mem (hx : f x = .error e)
    (hbefore : ∀ y ∈ before, f y = .ok true ∨ f y = .error e) :
    (before ++ x :: after).allM f = .error e := by
  induction before with
  | nil => rw [List.nil_append, List.allM, hx]; rfl
  | cons y before ih =>
    rw [List.forall_mem_cons] at hbefore
    rw [List.cons_append, List.allM]
    rcases hbefore.1 with hy | hy
    · rw [hy]
      exact ih hbefore.2
    · rw [hy]
      rfl

/-- Checks that agree where one does not fail agree on all elements. -/
theorem allM_congr_of_ne (hfg : ∀ x, f x ≠ .error e → g x = f x) (hx : xs.allM f ≠ .error e) :
    xs.allM g = xs.allM f := by
  induction xs with
  | nil => rfl
  | cons x xs ih =>
    have hfirst : f x ≠ .error e := fun he => hx (by rw [List.allM, he]; rfl)
    rw [List.allM, List.allM, hfg x hfirst]
    cases hr : f x with
    | error e' => rfl
    | ok passed =>
      cases passed with
      | false => rfl
      | true =>
        refine ih fun he => hx ?_
        rw [List.allM, hr]
        exact he

end All

/-- What is known of two values before their elements are compared. -/
inductive Comparison where
  /-- Whether they are equal. -/
  | known (same : Bool)
  /-- They are lists, and are equal if these pairs of elements are. -/
  | inside (pairs : List (Value × Value))
deriving DecidableEq

/-- Brings a comparison to its end, where `f` compares elements. -/
def Comparison.settle {μ : Type → Type} [Monad μ] (f : Value × Value → μ Bool) : Comparison → μ Bool
  | known same => return same
  | inside pairs => pairs.allM f

/-- Compares two values, but not their elements. -/
def compareOutside (a b : Value) : MachineM Comparison :=
  match Numbers.of? a b with
  | some (.whole x y) => return .known (x == y)
  | some (.real x y) => return .known (Binary.eq x y)
  | none => do
    if a = b then return .known true
    let s ← stringValue a
    let t ← stringValue b
    if let (some s, some t) := (s, t) then return .known (s == t)
    let xs ← immutableItems a
    let ys ← immutableItems b
    match xs, ys with
    | some xs, some ys =>
      if xs.length = ys.length then return .inside (xs.zip ys) else return .known false
    | _, _ => return .known false

theorem valuesEqualTo_succ (depth : Nat) (a b : Value) :
    valuesEqualTo (depth + 1) a b =
      compareOutside a b >>= Comparison.settle fun p => valuesEqualTo depth p.1 p.2 := by
  rw [valuesEqualTo, compareOutside]
  cases Numbers.of? a b with
  | some numbers => cases numbers <;> rfl
  | none =>
    dsimp only
    split
    · rfl
    simp only [bind_assoc]
    refine bind_congr fun s => bind_congr fun t => ?_
    cases s <;> cases t
    case some.some => rfl
    all_goals
      dsimp only
      simp only [bind_assoc]
      refine bind_congr fun xs => bind_congr fun ys => ?_
      cases xs <;> cases ys
      case some.some => dsimp only; split <;> rfl
      all_goals rfl

namespace Machine

variable {m m' : Machine} {a b v w : Value} {p q : Value × Value} {depth depth' : Nat}

theorem compareOutside_looks (hm : m.pools.constant.Steady) (a b : Value) :
    m.Looks (· ≠ .endless) (compareOutside a b) := by
  unfold compareOutside
  split
  · exact .pure _
  · exact .pure _
  · split
    · exact .pure _
    refine (stringValue_looks hm a).bind fun s => (stringValue_looks hm b).bind fun t => ?_
    split
    · exact .pure _
    refine (immutableItems_looks hm a).bind fun xs => (immutableItems_looks hm b).bind fun ys => ?_
    split
    · split <;> exact .pure _
    · exact .pure _

theorem settle_looks {E : Fault → Prop} {f : Value × Value → MachineM Bool}
    (hf : ∀ p, m.Looks E (f p)) (c : Comparison) : m.Looks E (c.settle f) := by
  cases c with
  | known same => exact .pure same
  | inside pairs => exact .allM hf pairs

theorem outcome_settle {E : Fault → Prop} {f : Value × Value → MachineM Bool}
    (hf : ∀ p, m.Looks E (f p)) (c : Comparison) :
    m.outcome (c.settle f) = c.settle fun p => m.outcome (f p) := by
  cases c with
  | known same => rfl
  | inside pairs => exact outcome_allM hf pairs

/-! ## Comparisons -/

/-- What comes of comparing two values, but not their elements. -/
def comparison (m : Machine) (p : Value × Value) : Except Fault Comparison :=
  m.outcome (compareOutside p.1 p.2)

/-- What comes of comparing two values, with lists compared to a given depth. -/
def equalTo (m : Machine) (depth : Nat) (p : Value × Value) : Except Fault Bool :=
  m.outcome (valuesEqualTo depth p.1 p.2)

/-- In order to compare `p`, the machine compares `q`: these are elements in the same
    place of two lists, and all before them have been found equal. -/
def Asks (m : Machine) (p q : Value × Value) : Prop :=
  ∃ before after, m.comparison p = .ok (.inside (before ++ q :: after)) ∧
    ∀ r ∈ before, ∃ depth, m.equalTo depth r = .ok true

/-- In order to compare `p`, the machine comes to compare a pair for which it has to
    compare that same pair again. -/
def Circles (m : Machine) (p : Value × Value) : Prop :=
  ∃ q, Relation.ReflTransGen m.Asks p q ∧ Relation.TransGen m.Asks q q

theorem valuesEqualTo_looks (hm : m.pools.constant.Steady) (depth : Nat) (a b : Value) :
    m.Looks (fun _ => True) (valuesEqualTo depth a b) := by
  induction depth generalizing a b with
  | zero => exact .endless trivial
  | succ depth ih =>
    rw [valuesEqualTo_succ]
    have houtside := (compareOutside_looks hm a b).mono fun _ _ => trivial
    exact houtside.bind (settle_looks fun p => ih p.1 p.2)

theorem equalTo_zero (m : Machine) (p : Value × Value) : m.equalTo 0 p = .error .endless := rfl

/-- The elements of two lists are compared one less deep. -/
theorem equalTo_succ (hm : m.pools.constant.Steady) (depth : Nat) (p : Value × Value) :
    m.equalTo (depth + 1) p = m.comparison p >>= Comparison.settle (m.equalTo depth) := by
  have houtside := (compareOutside_looks hm p.1 p.2).mono fun _ _ => trivial
  have helements (q : Value × Value) := valuesEqualTo_looks hm depth q.1 q.2
  rw [equalTo, valuesEqualTo_succ, houtside.outcome_bind (settle_looks helements)]
  exact bind_congr (outcome_settle helements)

/-- A comparison that ends at some depth ends the same one deeper. -/
theorem equalTo_succ_of_ne (hm : m.pools.constant.Steady) (hp : m.equalTo depth p ≠ .error .endless) :
    m.equalTo (depth + 1) p = m.equalTo depth p := by
  induction depth generalizing p with
  | zero => exact absurd (m.equalTo_zero p) hp
  | succ depth ih =>
    rw [equalTo_succ hm] at hp ⊢
    rw [equalTo_succ hm depth]
    cases hc : m.comparison p with
    | error e => rfl
    | ok c =>
      cases c with
      | known same => rfl
      | inside pairs =>
        rw [hc] at hp
        exact allM_congr_of_ne (fun q hq => ih hq) hp

theorem equalTo_of_le (hm : m.pools.constant.Steady) (hle : depth ≤ depth')
    (hp : m.equalTo depth p ≠ .error .endless) : m.equalTo depth' p = m.equalTo depth p := by
  induction depth', hle using Nat.le_induction with
  | base => rfl
  | succ depth' _ ih => rw [equalTo_succ_of_ne hm (by rwa [ih]), ih]

/-- All depths at which a comparison ends agree. -/
theorem equalTo_eq_of_ne (hm : m.pools.constant.Steady) (hp : m.equalTo depth p ≠ .error .endless)
    (hp' : m.equalTo depth' p ≠ .error .endless) : m.equalTo depth p = m.equalTo depth' p := by
  rcases Nat.le_total depth depth' with hle | hle
  · exact (equalTo_of_le hm hle hp).symm
  · exact equalTo_of_le hm hle hp'

/-! ## Comparisons without end -/

/-- What has to be compared for a comparison that ends ends as well. -/
theorem Asks.equalTo_ne (hm : m.pools.constant.Steady) (hpq : m.Asks p q)
    (hp : m.equalTo (depth + 1) p ≠ .error .endless) : m.equalTo depth q ≠ .error .endless := by
  obtain ⟨before, after, hc, hbefore⟩ := hpq
  rw [equalTo_succ hm, hc] at hp
  refine fun hq => hp (allM_eq_error_of_mem hq fun r hr => ?_)
  obtain ⟨depth', htrue⟩ := hbefore r hr
  by_cases hends : m.equalTo depth r = .error .endless
  · exact .inr hends
  · exact .inl ((equalTo_eq_of_ne hm hends (by simp [htrue])).trans htrue)

/-- A comparison that has no end has to make one that has no end one less deep. -/
theorem exists_asks_of_endless (hm : m.pools.constant.Steady)
    (hp : m.equalTo (depth + 1) p = .error .endless) :
    ∃ q, m.Asks p q ∧ m.equalTo depth q = .error .endless := by
  rw [equalTo_succ hm] at hp
  cases hc : m.comparison p with
  | error e =>
    rw [hc] at hp
    obtain rfl := Except.error.inj hp
    exact absurd rfl ((compareOutside_looks hm p.1 p.2).fault hc)
  | ok c =>
    rw [hc] at hp
    cases c with
    | known same => cases hp
    | inside pairs =>
      obtain ⟨before, q, after, rfl, hbefore, hq⟩ := allM_eq_error hp
      exact ⟨q, ⟨before, after, hc, fun r hr => ⟨depth, hbefore r hr⟩⟩, hq⟩

/-- Who can come to a circle can make a step after which they still can. -/
theorem exists_step_of_circle {α : Type} {r : α → α → Prop} {p : α}
    (hp : ∃ q, Relation.ReflTransGen r p q ∧ Relation.TransGen r q q) :
    ∃ p', r p p' ∧ ∃ q, Relation.ReflTransGen r p' q ∧ Relation.TransGen r q q := by
  obtain ⟨q, hpq, hqq⟩ := hp
  rcases hpq.cases_head with rfl | ⟨p', hpp', hp'q⟩
  · obtain ⟨p', hpp', hp'p⟩ := Relation.TransGen.head'_iff.1 hqq
    exact ⟨p', hpp', p, hp'p, hqq⟩
  · exact ⟨p', hpp', q, hp'q, hqq⟩

/-- A comparison that comes back to a pair has no end, however deep it goes. -/
theorem Circles.equalTo_eq (hm : m.pools.constant.Steady) (hp : m.Circles p) (depth : Nat) :
    m.equalTo depth p = .error .endless := by
  induction depth generalizing p with
  | zero => rfl
  | succ depth ih =>
    obtain ⟨q, hpq, hq⟩ := exists_step_of_circle hp
    by_contra hends
    exact hpq.equalTo_ne hm hends (ih hq)

/-- A comparison that does not end before some depth leads through as many pairs. -/
theorem exists_path_of_endless (hm : m.pools.constant.Steady)
    (hp : m.equalTo depth p = .error .endless) :
    ∃ path : Nat → Value × Value, path 0 = p ∧ ∀ i < depth, m.Asks (path i) (path (i + 1)) := by
  induction depth generalizing p with
  | zero => exact ⟨fun _ => p, rfl, fun i hi => absurd hi (Nat.not_lt_zero i)⟩
  | succ depth ih =>
    obtain ⟨q, hpq, hq⟩ := exists_asks_of_endless hm hp
    obtain ⟨path, rfl, hpath⟩ := ih hq
    refine ⟨fun i => i.casesOn p path, rfl, fun i hi => ?_⟩
    cases i with
    | zero => exact hpq
    | succ i => exact hpath i (Nat.lt_of_succ_lt_succ hi)

/-! ## How many lists there are -/

/-- The value is a list with elements that can be compared. -/
def IsList (m : Machine) (v : Value) : Prop := ∃ items, m.outcome (immutableItems v) = .ok (some items)

/-- No fewer than there are lists. -/
def listCount (m : Machine) : Nat :=
  m.heap.slots.size + m.pools.constant.geometry.pageCount.toNat * m.pools.constant.geometry.pageSize.toNat

/-- A number for each list: those of objects are followed by those of constants. -/
def listNumber (m : Machine) : Value → Nat
  | .obj id => id.index.toNat
  | .listConst ofs => m.heap.slots.size + ofs.toNat
  | _ => 0

/-- A list is an object, or starts on one of the pages of constants. -/
theorem IsList.cases (hm : m.pools.constant.Steady) (hv : m.IsList v) :
    (∃ id, v = .obj id ∧ (m.heap.get? id).isSome = true) ∨
      ∃ ofs, v = .listConst ofs ∧ ofs.toNat <
        m.pools.constant.geometry.pageCount.toNat * m.pools.constant.geometry.pageSize.toNat := by
  obtain ⟨items, hitems⟩ := hv
  cases v with
  | obj id =>
    obtain ⟨o, -, ho, -, -⟩ := (deref_looks m id).exists_outcome_of_bind (.refl m) hitems
    exact .inl ⟨id, rfl, by rw [get?_of_deref ho]; rfl⟩
  | listConst ofs =>
    obtain ⟨items, -, hread, -, -⟩ := (readConstant_looks hm ofs _).exists_outcome_of_bind (.refl m) hitems
    refine .inr ⟨ofs, rfl, ?_⟩
    cases hs : (m.pools.constant.slice ofs).1 with
    | ok s => exact Pool.lt_of_slice hs
    | error e =>
      unfold outcome onPools Pools.constantSlice at hread
      dsimp only at hread
      rw [hs] at hread
      cases hread
  | _ => cases hitems

theorem IsList.listNumber_lt (hm : m.pools.constant.Steady) (hv : m.IsList v) : m.listNumber v < m.listCount := by
  unfold listCount
  rcases hv.cases hm with ⟨id, rfl, hid⟩ | ⟨ofs, rfl, hofs⟩
  · exact Nat.lt_add_right _ (Heap.index_lt_of_isSome_get? hid)
  · exact Nat.add_lt_add_left hofs _

theorem IsList.eq_of_listNumber_eq (hm : m.pools.constant.Steady) (hv : m.IsList v) (hw : m.IsList w)
    (heq : m.listNumber v = m.listNumber w) : v = w := by
  rcases hv.cases hm with ⟨id, rfl, hid⟩ | ⟨ofs, rfl, -⟩ <;>
    rcases hw.cases hm with ⟨id', rfl, hid'⟩ | ⟨ofs', rfl, -⟩
  · rw [Heap.eq_of_isSome_get? hid hid' heq]
  · have hlt := Heap.index_lt_of_isSome_get? hid
    change id.index.toNat = m.heap.slots.size + ofs'.toNat at heq
    omega
  · have hlt := Heap.index_lt_of_isSome_get? hid'
    change m.heap.slots.size + ofs.toNat = id'.index.toNat at heq
    omega
  · rw [UInt32.toNat_inj.1 (Nat.add_left_cancel heq)]

/-- Only lists of the same length have their elements compared, which are those in the
    same places. -/
theorem of_comparison_eq_inside (hm : m.pools.constant.Steady) {pairs : List (Value × Value)}
    (hp : m.comparison p = .ok (.inside pairs)) :
    ∃ xs ys, m.outcome (immutableItems p.1) = .ok (some xs) ∧
      m.outcome (immutableItems p.2) = .ok (some ys) ∧ pairs = xs.zip ys := by
  unfold comparison compareOutside at hp
  split at hp
  · cases hp
  · cases hp
  split at hp
  · cases hp
  obtain ⟨s, m₁, -, h₁, hp⟩ := (stringValue_looks hm p.1).exists_outcome_of_bind (.refl m) hp
  obtain ⟨t, m₂, -, h₂, hp⟩ := (stringValue_looks hm p.2).exists_outcome_of_bind h₁ hp
  split at hp
  · cases hp
  obtain ⟨xs?, m₃, hxs, h₃, hp⟩ := (immutableItems_looks hm p.1).exists_outcome_of_bind h₂ hp
  obtain ⟨ys?, m₄, hys, h₄, hp⟩ := (immutableItems_looks hm p.2).exists_outcome_of_bind h₃ hp
  cases xs? with
  | none => cases hp
  | some xs =>
    cases ys? with
    | none => cases hp
    | some ys =>
      dsimp only at hp
      split at hp
      · cases hp
        exact ⟨xs, ys, hxs, hys, rfl⟩
      · cases hp

/-- The value is an element of a list. -/
def Contains (m : Machine) (v w : Value) : Prop :=
  ∃ items, m.outcome (immutableItems v) = .ok (some items) ∧ w ∈ items

/-- The value is, or has somewhere inside, a list that contains itself. -/
def Cyclic (m : Machine) (v : Value) : Prop :=
  ∃ w, Relation.ReflTransGen m.Contains v w ∧ Relation.TransGen m.Contains w w

theorem Asks.contains (hm : m.pools.constant.Steady) (hpq : m.Asks p q) :
    m.Contains p.1 q.1 ∧ m.Contains p.2 q.2 := by
  obtain ⟨before, after, hc, -⟩ := hpq
  obtain ⟨xs, ys, hxs, hys, hzip⟩ := of_comparison_eq_inside hm hc
  have hmem : (q.1, q.2) ∈ xs.zip ys := by simp [← hzip]
  exact ⟨⟨xs, hxs, (List.of_mem_zip hmem).1⟩, ⟨ys, hys, (List.of_mem_zip hmem).2⟩⟩

theorem Asks.isList (hm : m.pools.constant.Steady) (hpq : m.Asks p q) : m.IsList p.1 ∧ m.IsList p.2 := by
  obtain ⟨⟨xs, hxs, -⟩, ⟨ys, hys, -⟩⟩ := hpq.contains hm
  exact ⟨⟨xs, hxs⟩, ⟨ys, hys⟩⟩

/-- A comparison comes back to a pair only inside of lists that contain themselves. -/
theorem Circles.cyclic (hm : m.pools.constant.Steady) (hp : m.Circles p) :
    m.Cyclic p.1 ∧ m.Cyclic p.2 := by
  obtain ⟨q, hpq, hqq⟩ := hp
  exact ⟨⟨q.1, hpq.lift Prod.fst fun _ _ h => (h.contains hm).1,
      hqq.lift Prod.fst fun _ _ h => (h.contains hm).1⟩,
    ⟨q.2, hpq.lift Prod.snd fun _ _ h => (h.contains hm).2,
      hqq.lift Prod.snd fun _ _ h => (h.contains hm).2⟩⟩

/-- A path through more pairs than there are of lists comes to one of them twice. -/
theorem circles_of_path (hm : m.pools.constant.Steady) {path : Nat → Value × Value}
    (hlong : m.listCount * m.listCount < depth)
    (hpath : ∀ i < depth, m.Asks (path i) (path (i + 1))) : m.Circles (path 0) := by
  have hreach {i j : Nat} (hij : i ≤ j) (hj : j ≤ depth) :
      Relation.ReflTransGen m.Asks (path i) (path j) := by
    induction j, hij using Nat.le_induction with
    | base => exact .refl
    | succ j _ ih => exact (ih (Nat.le_of_succ_le hj)).tail (hpath j hj)
  have hlists (i : Nat) (hi : i < depth) : m.IsList (path i).1 ∧ m.IsList (path i).2 :=
    (hpath i hi).isList hm
  -- There are not as many pairs of numbers of lists as there are pairs on the path.
  obtain ⟨i, hi, j, hj, hij, hsame⟩ := Finset.exists_ne_map_eq_of_card_lt_of_maps_to
    (s := Finset.range depth) (t := Finset.range m.listCount ×ˢ Finset.range m.listCount)
    (f := fun i => (m.listNumber (path i).1, m.listNumber (path i).2))
    (by simpa using hlong) (fun i hi => by
      have hlist := hlists i (by simpa using hi)
      simpa using ⟨hlist.1.listNumber_lt hm, hlist.2.listNumber_lt hm⟩)
  wlog hlt : i < j generalizing i j
  · exact this j hj i hi hij.symm hsame.symm (by omega)
  rw [Finset.mem_range] at hi hj
  have heq : path i = path j := Prod.ext
    ((hlists i hi).1.eq_of_listNumber_eq hm (hlists j hj).1 (congrArg Prod.fst hsame))
    ((hlists i hi).2.eq_of_listNumber_eq hm (hlists j hj).2 (congrArg Prod.snd hsame))
  refine ⟨path i, hreach (Nat.zero_le i) hi.le, ?_⟩
  have hround := Relation.TransGen.head' (hpath i hi) (hreach (Nat.succ_le_of_lt hlt) hj.le)
  rwa [← heq] at hround

/-! ## The machine's comparison -/

theorem valuesEqual_apply (m : Machine) (a b : Value) :
    valuesEqual a b m = valuesEqualTo m.comparisonDepth a b m :=
  bind_eq_of_ok (x := get) rfl

theorem outcome_valuesEqual (m : Machine) (a b : Value) :
    m.outcome (valuesEqual a b) = m.equalTo m.comparisonDepth (a, b) := by
  rw [equalTo, outcome, outcome, valuesEqual_apply]

theorem listCount_lt_comparisonDepth (m : Machine) :
    m.listCount * m.listCount < m.comparisonDepth := by
  have hdepth : m.comparisonDepth = (m.listCount + 1) * (m.listCount + 1) + 1 := rfl
  rw [hdepth]
  nlinarith

theorem hangs_valuesEqual_iff (hm : m.pools.constant.Steady) (a b : Value) :
    m.Hangs (valuesEqual a b) ↔ m.Circles (a, b) := by
  rw [Hangs, outcome_valuesEqual]
  refine ⟨fun hends => ?_, fun hcircles => hcircles.equalTo_eq hm m.comparisonDepth⟩
  obtain ⟨path, hstart, hpath⟩ := exists_path_of_endless hm hends
  rw [← hstart]
  exact circles_of_path hm m.listCount_lt_comparisonDepth hpath

/-- The machine's comparison of two values ends unless it comes back to a pair, and
    whatever depth is enough for it, the result is the same. It can come back to a pair
    only if there are lists that contain themselves on both sides. -/
theorem valuesEqual_ends_iff (hm : m.pools.constant.Steady) (a b : Value) :
    (m.Hangs (valuesEqual a b) ↔ m.Circles (a, b)) ∧
      (∀ depth, m.Hangs (valuesEqualTo depth a b) ∨
        m.outcome (valuesEqualTo depth a b) = m.outcome (valuesEqual a b)) ∧
      (m.Circles (a, b) → m.Cyclic a ∧ m.Cyclic b) := by
  refine ⟨hangs_valuesEqual_iff hm a b, fun depth => ?_, fun hcircles => hcircles.cyclic hm⟩
  by_cases hdepth : m.Hangs (valuesEqualTo depth a b)
  · exact .inl hdepth
  have hends : ¬m.Hangs (valuesEqual a b) := fun hhangs =>
    hdepth (((hangs_valuesEqual_iff hm a b).1 hhangs).equalTo_eq hm depth)
  rw [Hangs, outcome_valuesEqual] at hends
  rw [outcome_valuesEqual]
  exact .inr (equalTo_eq_of_ne (p := (a, b)) hm hdepth hends)

/-- An image with two lists that contain each other. -/
def knot : Bytes :=
  ImageDraft.encode {
    metaclasses := #[("list", [])]
    code := ([Instr.retNil].foldl Assembler.emit (Assembler.method {})).finish.toArray
    objects := #[⟨1, 0, ObjectData.items [.obj (.ofImage 2), .int 5]⟩,
      ⟨2, 0, ObjectData.items [.obj (.ofImage 1), .int 6]⟩]
    entry? := some 0 }

/-- To compare its lists is to compare them the other way round. -/
theorem exists_load_knot : ∃ m, load knot {} {} = .ok m ∧ m.pools.constant.Steady ∧
    m.Circles (.obj (.ofImage 1), .obj (.ofImage 2)) := by
  have hrun : (load knot {} {}).toOption.any (fun m => m.pools.constant.isPaged == false &&
      decide (m.comparison (.obj (.ofImage 1), .obj (.ofImage 2)) =
        .ok (.inside [(.obj (.ofImage 2), .obj (.ofImage 1)), (.int 5, .int 6)])) &&
      decide (m.comparison (.obj (.ofImage 2), .obj (.ofImage 1)) =
        .ok (.inside [(.obj (.ofImage 1), .obj (.ofImage 2)), (.int 6, .int 5)]))) = true := by
    decide +kernel
  obtain ⟨m, hload, hrun⟩ := exists_load_of_any hrun
  simp only [Bool.and_eq_true, decide_eq_true_eq, beq_iff_eq] at hrun
  obtain ⟨⟨hpaged, hthere⟩, hback⟩ := hrun
  have hasks : m.Asks (.obj (.ofImage 1), .obj (.ofImage 2)) (.obj (.ofImage 2), .obj (.ofImage 1)) :=
    ⟨[], _, hthere, by simp⟩
  have hasks' : m.Asks (.obj (.ofImage 2), .obj (.ofImage 1)) (.obj (.ofImage 1), .obj (.ofImage 2)) :=
    ⟨[], _, hback, by simp⟩
  exact ⟨m, hload, Pool.steady_of_isPaged hpaged, _, .refl, .head hasks (.single hasks')⟩

theorem valuesEqual_ends_iff_knot : ∃ m, load knot {} {} = .ok m ∧ m.pools.constant.Steady ∧
    m.Hangs (valuesEqual (.obj (.ofImage 1)) (.obj (.ofImage 2))) ∧
    m.Cyclic (.obj (.ofImage 1)) ∧ m.Cyclic (.obj (.ofImage 2)) := by
  obtain ⟨m, hload, hm, hcircles⟩ := exists_load_knot
  obtain ⟨hhangs, -, hcyclic⟩ := valuesEqual_ends_iff hm (.obj (.ofImage 1)) (.obj (.ofImage 2))
  exact ⟨m, hload, hm, hhangs.2 hcircles, hcyclic hcircles⟩

/-- The comparison of its lists has no end, to whatever depth it goes. -/
theorem not_valuesEqual_ends_knot : ∃ m, load knot {} {} = .ok m ∧
    m.Hangs (valuesEqual (.obj (.ofImage 1)) (.obj (.ofImage 2))) ∧
    ∀ depth, m.Hangs (valuesEqualTo depth (.obj (.ofImage 1)) (.obj (.ofImage 2))) := by
  obtain ⟨m, hload, hm, hcircles⟩ := exists_load_knot
  exact ⟨m, hload, (hangs_valuesEqual_iff hm _ _).2 hcircles, fun depth => hcircles.equalTo_eq hm depth⟩

/-! ## What compares values -/

theorem Later.comparisonDepth_eq (hm' : m.Later m') : m'.comparisonDepth = m.comparisonDepth := by
  obtain ⟨constant, hlater, rfl⟩ := hm'
  unfold comparisonDepth
  dsimp only
  rw [hlater.samePins.geometry]

theorem valuesEqual_looks (hm : m.pools.constant.Steady) (a b : Value) :
    m.Looks (fun e => e = .endless → m.Circles (a, b)) (valuesEqual a b) := by
  intro m' hm'
  rw [valuesEqual_apply, hm'.comparisonDepth_eq, outcome_valuesEqual]
  refine (valuesEqualTo_looks hm m.comparisonDepth a b m' hm').mono (fun _ _ hv => hv) fun e _ he => ?_
  refine ⟨he.1, he.2.1, fun hends => (hangs_valuesEqual_iff hm a b).1 ?_⟩
  rw [Hangs, outcome_valuesEqual, ← hends]
  exact he.1

/-- The operators for equal and unequal values compare them. -/
theorem hangs_compareBy_iff (hm : m.pools.constant.Steady) {rel : Relation}
    (hrel : rel = .eq ∨ rel = .ne) (a b : Value) : m.Hangs (compareBy rel a b) ↔ m.Circles (a, b) := by
  rw [← hangs_valuesEqual_iff hm]
  rcases hrel with rfl | rfl
  · exact hangs_bind_pure_iff _ _
  · exact hangs_bind_pure_iff _ _

/-- To look for a value is to compare it with items one after the other. -/
theorem Hangs.of_positionOf (hm : m.pools.constant.Steady) {items : List Value}
    (hhangs : m.Hangs (positionOf items v)) : ∃ item ∈ items, m.Circles (item, v) := by
  have hlooks (skipped : Nat) (rest : List Value) (hrest : ∀ item ∈ rest, item ∈ items) :
      m.Looks (fun e => e = .endless → ∃ item ∈ items, m.Circles (item, v))
        (positionAfter skipped v rest) := by
    induction rest generalizing skipped with
    | nil => exact .pure Value.nil
    | cons item rest ih =>
      rw [List.forall_mem_cons] at hrest
      refine ((valuesEqual_looks hm item v).mono fun e he hends =>
        ⟨item, hrest.1, he hends⟩).bind fun found => ?_
      cases found with
      | true => exact .pure _
      | false => exact ih _ hrest.2
  exact (hlooks 0 items fun _ hitem => hitem).fault hhangs rfl

/-- To take values out of a list is to compare its elements with them. -/
theorem Hangs.of_subtractValues (hm : m.pools.constant.Steady) {items : List Value}
    {more? : Option (List Value)} (hitems : m.outcome (listItems a) = .ok (some items))
    (hmore : m.outcome (listItems b) = .ok more?) (hhangs : m.Hangs (subtractValues a b)) :
    ∃ v ∈ items, ∃ w ∈ more?.getD [b], m.Circles (v, w) := by
  obtain ⟨m₁, h₁, hx₁⟩ := (listItems_looks hm a).exists_later (.refl m) hitems
  obtain ⟨m₂, h₂, hx₂⟩ := (listItems_looks hm b).exists_later h₁ hmore
  have hlooks : m.Looks (fun e => e = .endless → ∃ v ∈ items, ∃ w ∈ more?.getD [b], m.Circles (v, w))
      (items.filterM fun v => return !(← (more?.getD [b]).anyM (valuesEqual v))) :=
    .filterM fun v hv => (Looks.anyM fun w hw => (valuesEqual_looks hm v w).mono
      fun e he hends => ⟨v, hv, w, hw, he hends⟩).bind fun _ => .pure _
  have hends : Ends (subtractValues a b m) (fun _ _ => True)
      fun e _ => e = .endless → ∃ v ∈ items, ∃ w ∈ more?.getD [b], m.Circles (v, w) :=
    Ends.bind_ok hx₁ <| Ends.bind_ok hx₂ <| (hlooks m₂ h₂).bind
      (fun kept m₃ _ => (newList_ends m₃ kept).mono (fun _ _ _ => trivial)
        fun e _ hne hends => absurd hends hne)
      fun e _ he => he.2.2
  exact fault_of_ends hends hhangs rfl

end Machine

end StoryMachine
