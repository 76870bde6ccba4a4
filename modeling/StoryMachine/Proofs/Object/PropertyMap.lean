import StoryMachine.Heap.Undo
import StoryMachine.Proofs.Object.PropTable

/-!
# Property tables as sorted maps

Requests to set properties and to remove them describe a map, and a property table is that
map: its entries are those of the map by ascending number, whatever the order of the
requests. As the entries ascend, the place of a property is found by halving, and all that
a table does can be done at that place.

* `bisect`: a place found by halving;
* `PropTable.search`, `Request.atPlace`: where a property is, and a request done there;
* `PropTable.listed`: the entries of a map;
* `PropTable.sorted_map_of_requests`: what this says about all sequences of requests.
-/

namespace StoryMachine

/-! ## Halving -/

/-- The first place from `low` on, and not after `high`, that `before` does not hold for, as
    halving finds it. -/
def bisect {α : Type} (before : α → Bool) (xs : List α) (low high : Nat) : Nat :=
  if low < high then
    let middle := (low + high) / 2
    if xs[middle]?.any before then bisect before xs (middle + 1) high
    else bisect before xs low middle
  else low
termination_by high - low

/-- If `before` holds for the places before `k` and for no others, halving finds `k`. -/
theorem bisect_eq {α : Type} {before : α → Bool} {xs : List α} {low high k : Nat}
    (hbefore : ∀ i, low ≤ i → i < high → (xs[i]?.any before = true ↔ i < k))
    (hlow : low ≤ k) (hhigh : k ≤ high) : bisect before xs low high = k := by
  induction low, high using bisect.induct before xs with
  | case1 low high hlt middle hmiddle ih =>
    rw [bisect, if_pos hlt]
    simp only [middle] at hmiddle ih
    have hk := (hbefore ((low + high) / 2) (by omega) (by omega)).1 hmiddle
    rw [if_pos hmiddle]
    exact ih (fun i hi hi' => hbefore i (by omega) hi') hk hhigh
  | case2 low high hlt middle hmiddle ih =>
    rw [bisect, if_pos hlt]
    simp only [middle] at hmiddle ih
    have hk := mt (hbefore ((low + high) / 2) (by omega) (by omega)).2 hmiddle
    rw [if_neg hmiddle]
    exact ih (fun i hi hi' => hbefore i hi (by omega)) hlow (by omega)
  | case3 low high hlt =>
    rw [bisect, if_neg hlt]
    omega

namespace PropTable

variable {t : PropTable} {p : PropId} {v : Value} {below above es : List (PropId × Value)}

/-- Where the entry of a property is (`ok`), or where one would go (`error`). -/
def search (es : List (PropId × Value)) (p : PropId) : Except Nat Nat :=
  let i := bisect (·.1 < p) es 0 es.length
  if es[i]?.any (·.1 == p) then .ok i else .error i

/-- The entries before a property are those that halving passes. -/
theorem bisect_append (hbelow : ∀ e ∈ below, e.1 < p) (habove : ∀ e ∈ above, p ≤ e.1) :
    bisect (·.1 < p) (below ++ above) 0 (below ++ above).length = below.length := by
  refine bisect_eq (fun i _ hi => ?_) (Nat.zero_le _) (by simp)
  rw [List.getElem?_eq_getElem hi, Option.any_some, decide_eq_true_iff]
  by_cases hlt : i < below.length
  · rw [List.getElem_append_left hlt]
    exact iff_of_true (hbelow _ (List.getElem_mem hlt)) hlt
  · have hmem := List.getElem_mem (l := above) (n := i - below.length) (by simp at hi; omega)
    rw [List.getElem_append_right (Nat.le_of_not_lt hlt)]
    exact iff_of_false (UInt16.not_lt.2 (habove _ hmem)) hlt

/-- A property that has no entry would go between those with a lower number and those with
    a higher one. -/
theorem search_eq_error (hbelow : ∀ e ∈ below, e.1 < p) (habove : ∀ e ∈ above, p < e.1) :
    search (below ++ above) p = .error below.length := by
  have hplace := bisect_append hbelow fun e he => UInt16.le_of_lt (habove e he)
  rw [search, hplace, if_neg]
  rw [List.getElem?_append_right (Nat.le_refl _), Nat.sub_self]
  cases above with
  | nil => simp
  | cons e above =>
    have hne := UInt16.ne_of_lt (habove e List.mem_cons_self)
    simpa using hne.symm

/-- The entry of a property is found. -/
theorem search_eq_ok (hbelow : ∀ e ∈ below, e.1 < p) (habove : ∀ e ∈ above, p < e.1) :
    search (below ++ (p, v) :: above) p = .ok below.length := by
  have hplace : bisect (·.1 < p) (below ++ (p, v) :: above) 0 _ = below.length :=
    bisect_append hbelow (List.forall_mem_cons.2
      ⟨UInt16.le_refl p, fun e he => UInt16.le_of_lt (habove e he)⟩)
  rw [search, hplace, if_pos]
  simp

/-! ## Requests -/

/-- What a table is asked to do. -/
inductive Request where
  /-- A property gets a value. -/
  | set (p : PropId) (v : Value)
  /-- A property is removed. -/
  | remove (p : PropId)
deriving DecidableEq

namespace Request

/-- The property that a request is about. -/
def property : Request → PropId
  | set p _ => p
  | remove p => p

/-- The value that a property is to have. -/
def value? : Request → Option Value
  | set _ v => some v
  | remove _ => none

/-- A request done at the place of its property, with the value that was there before. -/
def atPlace (r : Request) (es : List (PropId × Value)) : Option Value × List (PropId × Value) :=
  match search es r.property, r.value? with
  | .ok i, some v => (es[i]?.map Prod.snd, es.set i (r.property, v))
  | .ok i, none => (es[i]?.map Prod.snd, es.eraseIdx i)
  | .error i, some v => (none, es.insertIdx i (r.property, v))
  | .error _, none => (none, es)

end Request

/-- The table after a request. -/
def after (t : PropTable) : Request → PropTable
  | .set p v => t.set p v
  | .remove p => t.erase p

/-! ## Entries -/

/-- The entries are the one ascending list of what has a value. -/
theorem entries_eq_of_mem_iff (hes : es.Pairwise (·.1 < ·.1))
    (hmem : ∀ q w, (q, w) ∈ es ↔ t.get? q = some w) : t.entries = es := by
  have hirrefl : Std.Irrefl fun e f : PropId × Value => e.1 < f.1 := ⟨fun e => UInt16.lt_irrefl e.1⟩
  have hasymm : Std.Antisymm fun e f : PropId × Value => e.1 < f.1 :=
    ⟨fun e f hef hfe => absurd (UInt16.lt_trans hef hfe) (UInt16.lt_irrefl _)⟩
  exact t.ascending.eq_of_mem_iff hes fun ⟨q, w⟩ => by rw [hmem, get?_eq_some_iff]

/-- The entries below a property and those above. -/
structure Parted (t : PropTable) (p : PropId) (below above : List (PropId × Value)) : Prop where
  /-- The lower ones ascend. -/
  ascending_below : below.Pairwise (·.1 < ·.1)
  /-- They are lower. -/
  below_lt : ∀ e ∈ below, e.1 < p
  /-- The higher ones ascend. -/
  ascending_above : above.Pairwise (·.1 < ·.1)
  /-- They are higher. -/
  lt_above : ∀ e ∈ above, p < e.1
  /-- They are the entries of all other properties. -/
  mem_iff : ∀ q w, (q, w) ∈ below ∨ (q, w) ∈ above ↔ q ≠ p ∧ t.get? q = some w

theorem exists_parted (t : PropTable) (p : PropId) : ∃ below above, t.Parted p below above := by
  refine ⟨t.entries.filter (·.1 < p), t.entries.filter (p < ·.1), t.ascending.filter _, by simp,
    t.ascending.filter _, by simp, fun q w => ?_⟩
  have hne : q < p ∨ p < q ↔ q ≠ p := by
    rw [UInt16.lt_iff_toNat_lt, UInt16.lt_iff_toNat_lt, ← UInt16.toNat_inj.ne]
    omega
  rw [List.mem_filter, List.mem_filter, ← get?_eq_some_iff, ← and_or_left, and_comm,
    decide_eq_true_iff, decide_eq_true_iff, hne]

section Parted

variable (hparts : t.Parted p below above)
include hparts

/-- A table that has the same values of other properties has the same entries around that of
    this one. -/
theorem Parted.entries_eq {u : PropTable} (hu : ∀ q, q ≠ p → u.get? q = t.get? q) :
    u.entries = below ++ (((u.get? p).map (p, ·)).toList ++ above) := by
  have hmiddle : ∀ e ∈ ((u.get? p).map (p, ·)).toList, e.1 = p ∧ u.get? p = some e.2 := by
    simp +contextual
  refine entries_eq_of_mem_iff (List.pairwise_append.2 ⟨hparts.ascending_below,
    List.pairwise_append.2 ⟨?_, hparts.ascending_above, ?_⟩, ?_⟩) fun q w => ?_
  · cases u.get? p <;> simp
  · intro e he f hf
    exact (hmiddle e he).1 ▸ hparts.lt_above f hf
  · intro e he f hf
    have hep := hparts.below_lt e he
    rcases List.mem_append.1 hf with hf | hf
    · exact (hmiddle f hf).1 ▸ hep
    · exact UInt16.lt_trans hep (hparts.lt_above f hf)
  · have hother := hparts.mem_iff q w
    rw [List.mem_append, List.mem_append, or_left_comm, hother]
    by_cases hq : q = p
    · subst hq
      simp
    · simp [hq, Ne.symm hq, hu q hq]

/-- The place of a property that has a value is that of its entry; otherwise one would go
    there. -/
theorem Parted.search_eq : search t.entries p =
    if (t.get? p).isSome then .ok below.length else .error below.length := by
  rw [hparts.entries_eq fun _ _ => rfl]
  cases t.get? p with
  | none => simpa using search_eq_error hparts.below_lt hparts.lt_above
  | some w => simpa using search_eq_ok hparts.below_lt hparts.lt_above

end Parted

/-- A request changes the value of its property and no other. -/
theorem get?_after (t : PropTable) (r : Request) (q : PropId) :
    (t.after r).get? q = if q = r.property then r.value? else t.get? q := by
  cases r with
  | set p v => exact get?_set t p v q
  | remove p => exact get?_erase t p q

theorem insertIdx_length_append {α : Type} (xs ys : List α) (a : α) :
    (xs ++ ys).insertIdx xs.length a = xs ++ a :: ys := by
  induction xs with
  | nil => simp
  | cons x xs ih => simpa using ih

/-- A request that is done at the place of its property gives the former value, and the
    entries after it. -/
theorem atPlace_eq (t : PropTable) (r : Request) :
    r.atPlace t.entries = (t.get? r.property, (t.after r).entries) := by
  obtain ⟨below, above, hparts⟩ := t.exists_parted r.property
  have hafter := hparts.entries_eq (u := t.after r) fun q hq => by rw [get?_after, if_neg hq]
  rw [Request.atPlace, hparts.search_eq, hafter, get?_after, if_pos rfl,
    hparts.entries_eq fun _ _ => rfl]
  -- The four cases are those of the former value and of the new one.
  cases t.get? r.property <;> cases r.value? <;>
    simp [insertIdx_length_append, List.eraseIdx_append_of_length_le]

/-- The change that a request is recorded as, reverted. -/
theorem revert_after (t : PropTable) (r : Request) (supers : List ObjectId) :
    ((Change.prop r.property (t.get? r.property)).revert (.program supers (t.after r))).1 =
      .program supers t := by
  cases hp : t.get? r.property with
  | none =>
    have hback : (t.after r).erase r.property = t := by
      refine ext_get? fun q => ?_
      rw [get?_erase, get?_after]
      split_ifs with hq
      · rw [hq, hp]
      · rfl
    exact congrArg (Body.program supers) hback
  | some w =>
    have hback : (t.after r).set r.property w = t := by
      refine ext_get? fun q => ?_
      rw [get?_set, get?_after]
      split_ifs with hq
      · rw [hq, hp]
      · rfl
    exact congrArg (Body.program supers) hback

/-! ## Maps -/

/-- What a map says after a request. -/
def Request.update (M : PropId → Option Value) (r : Request) : PropId → Option Value :=
  Function.update M r.property r.value?

/-- Every property. -/
def all : List PropId := (List.range UInt16.size).map UInt16.ofNat

/-- The entries of a map by ascending property. -/
def listed (M : PropId → Option Value) : List (PropId × Value) :=
  all.filterMap fun p => (M p).map (p, ·)

theorem mem_all (p : PropId) : p ∈ all :=
  List.mem_map.2 ⟨p.toNat, List.mem_range.2 p.toNat_lt, p.ofNat_toNat⟩

theorem pairwise_all : all.Pairwise (· < ·) := by
  refine List.pairwise_map.2 (List.pairwise_lt_range.imp_of_mem fun {i j} hi hj hlt => ?_)
  rw [UInt16.lt_iff_toNat_lt, UInt16.toNat_ofNat_of_lt' (List.mem_range.1 hi),
    UInt16.toNat_ofNat_of_lt' (List.mem_range.1 hj)]
  exact hlt

theorem pairwise_listed (M : PropId → Option Value) : (listed M).Pairwise (·.1 < ·.1) := by
  refine List.pairwise_filterMap.2 (pairwise_all.imp fun {p q} hlt e he f hf => ?_)
  obtain ⟨v, -, rfl⟩ := Option.map_eq_some_iff.1 he
  obtain ⟨w, -, rfl⟩ := Option.map_eq_some_iff.1 hf
  exact hlt

theorem entries_eq_listed (t : PropTable) : t.entries = listed t.get? :=
  entries_eq_of_mem_iff (pairwise_listed _) fun q w => by simp [listed, mem_all]

theorem get?_foldl_after (t : PropTable) (rs : List Request) :
    (rs.foldl after t).get? = rs.foldl Request.update t.get? := by
  induction rs generalizing t with
  | nil => rfl
  | cons r rs ih =>
    rw [List.foldl_cons, List.foldl_cons, ih]
    congr 1
    funext q
    rw [get?_after, Request.update, Function.update_apply]

/-- After any requests a table has the values that they say, and its entries are those of the
    map by ascending property. Each further request finds the place of its property by
    halving, gives the former value if there was one, and is taken back by the change that
    it is recorded as. -/
theorem sorted_map_of_requests (rs : List Request) :
    let t := rs.foldl after empty
    let M := rs.foldl Request.update fun _ => none
    t.entries.Pairwise (·.1 < ·.1) ∧ t.entries = listed M ∧
      t.size = all.countP (fun p => (M p).isSome) ∧
      (∀ p, t.get? p = M p ∧ t.contains p = (M p).isSome) ∧
      ∀ r : Request, r.atPlace t.entries = (M r.property, (t.after r).entries) ∧
        ∀ supers, ((Change.prop r.property (M r.property)).revert
          (.program supers (t.after r))).1 = .program supers t := by
  intro t M
  have hget : t.get? = M := get?_foldl_after empty rs
  have hentries : t.entries = listed M := hget ▸ t.entries_eq_listed
  refine ⟨t.ascending, hentries, ?_, fun p => ⟨congrFun hget p, ?_⟩, fun r => ?_⟩
  · rw [size, hentries, listed, List.length_filterMap_eq_countP]
    simp
  · rw [contains, hget]
  · rw [← hget]
    exact ⟨t.atPlace_eq r, t.revert_after r⟩

end PropTable

end StoryMachine
