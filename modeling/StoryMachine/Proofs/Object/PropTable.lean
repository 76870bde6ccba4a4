import Mathlib
import StoryMachine.Object.PropTable

/-!
# Property tables as maps

A property table is determined by the values of its properties, so that a change
to it is taken back by giving the property its former value.

* `PropTable.ext_get?`: tables with the same values are equal;
* `get?_set`, `get?_erase`: the values after a change;
* `values_set`, `values_erase`: what a change puts in and takes out.
-/

namespace StoryMachine.PropTable

variable {t u : PropTable} {p q : PropId} {v w : Value}

theorem nodup_keys (t : PropTable) : (t.entries.map Prod.fst).Nodup :=
  List.pairwise_map.2 (t.ascending.imp fun hlt heq => by
    rw [heq] at hlt
    exact absurd hlt (UInt16.lt_irrefl _))

theorem get?_eq_some_iff : t.get? p = some v ↔ (p, v) ∈ t.entries := by
  unfold get?
  constructor
  · intro hv
    obtain ⟨e, he, rfl⟩ := Option.map_eq_some_iff.1 hv
    have hp : e.1 = p := by simpa using List.find?_some he
    rw [← hp]
    exact List.mem_of_find?_eq_some he
  · intro hmem
    cases hf : t.entries.find? (·.1 == p) with
    | none => exact absurd (List.find?_eq_none.1 hf _ hmem) (by simp)
    | some e =>
      have hp : e.1 = p := by simpa using List.find?_some hf
      have := List.inj_on_of_nodup_map t.nodup_keys (List.mem_of_find?_eq_some hf) hmem hp
      rw [this, Option.map_some]

/-- A table is determined by the values of its properties. -/
theorem ext_get? (htu : ∀ p, t.get? p = u.get? p) : t = u := by
  have hirrefl : Std.Irrefl fun e f : PropId × Value => e.1 < f.1 :=
    ⟨fun e => UInt16.lt_irrefl e.1⟩
  have hasymm : Std.Antisymm fun e f : PropId × Value => e.1 < f.1 :=
    ⟨fun e f hef hfe => absurd (UInt16.lt_trans hef hfe) (UInt16.lt_irrefl _)⟩
  have : t.entries = u.entries :=
    t.ascending.eq_of_mem_iff u.ascending fun ⟨p, v⟩ => by
      rw [← get?_eq_some_iff, ← get?_eq_some_iff, htu]
  cases t
  cases u
  simp_all

theorem mem_insertEntry_self (p : PropId) (v : Value) (es : List (PropId × Value)) :
    (p, v) ∈ insertEntry p v es := by
  induction es with
  | nil => simp [insertEntry]
  | cons e es ih =>
    unfold insertEntry
    split
    · exact List.mem_cons_of_mem _ ih
    · split <;> exact List.mem_cons_self

theorem mem_insertEntry_of_ne {e : PropId × Value} {es : List (PropId × Value)} (he : e ∈ es)
    (hne : e.1 ≠ p) : e ∈ insertEntry p v es := by
  induction es with
  | nil => cases he
  | cons f es ih =>
    unfold insertEntry
    rcases List.mem_cons.1 he with rfl | he
    · split
      · exact List.mem_cons_self
      · exact List.mem_cons_of_mem _ List.mem_cons_self
    · split
      · exact List.mem_cons_of_mem _ (ih he)
      · split
        · exact List.mem_cons_of_mem _ he
        · exact List.mem_cons_of_mem _ (List.mem_cons_of_mem _ he)

theorem get?_set (t : PropTable) (p : PropId) (v : Value) (q : PropId) :
    (t.set p v).get? q = if q = p then some v else t.get? q := by
  split
  · next hq => rw [hq, get?_eq_some_iff]; exact mem_insertEntry_self p v t.entries
  · next hq =>
    refine Option.ext fun w => ?_
    rw [get?_eq_some_iff, get?_eq_some_iff]
    refine ⟨fun hmem => ?_, fun hmem => mem_insertEntry_of_ne hmem hq⟩
    rcases mem_insertEntry hmem with heq | hmem
    · exact absurd (congrArg Prod.fst heq) hq
    · exact hmem

theorem get?_erase (t : PropTable) (p q : PropId) :
    (t.erase p).get? q = if q = p then none else t.get? q := by
  refine Option.ext fun w => ?_
  rw [get?_eq_some_iff, erase, List.mem_filter, ← get?_eq_some_iff]
  split <;> simp_all

theorem erase_of_get?_eq_none (hp : t.get? p = none) : t.erase p = t :=
  ext_get? fun q => by
    rw [get?_erase]
    split
    · next hq => rw [hq, hp]
    · rfl

/-- Giving a property back the value it had takes a change back. -/
theorem set_set_of_get?_eq_some (hp : t.get? p = some w) : (t.set p v).set p w = t :=
  ext_get? fun q => by
    rw [get?_set, get?_set]
    split_ifs with hq
    · rw [hq, hp]
    · rfl

theorem erase_set_of_get?_eq_none (hp : t.get? p = none) : (t.set p v).erase p = t :=
  ext_get? fun q => by
    rw [get?_erase, get?_set]
    split_ifs with hq
    · rw [hq, hp]
    · rfl

theorem set_erase_of_get?_eq_some (hp : t.get? p = some w) : (t.erase p).set p w = t :=
  ext_get? fun q => by
    rw [get?_set, get?_erase]
    split_ifs with hq
    · rw [hq, hp]
    · rfl

/-! ## What a table holds -/

/-- The values of all properties. -/
def values (t : PropTable) : List Value := t.entries.map Prod.snd

theorem entries_set_perm (t : PropTable) (p : PropId) (v : Value) :
    (t.set p v).entries.Perm ((p, v) :: (t.erase p).entries) := by
  have hnot : (p, v) ∉ (t.erase p).entries := by
    rw [← get?_eq_some_iff, get?_erase, if_pos rfl]
    simp
  refine (List.perm_ext_iff_of_nodup (List.Nodup.of_map _ (nodup_keys _))
    (List.nodup_cons.2 ⟨hnot, List.Nodup.of_map _ (nodup_keys _)⟩)).2 fun ⟨q, w⟩ => ?_
  rw [List.mem_cons, ← get?_eq_some_iff, ← get?_eq_some_iff, get?_set, get?_erase]
  split <;> simp_all [eq_comm]

/-- A new value goes in and the former one comes out. -/
theorem values_set (t : PropTable) (p : PropId) (v : Value) :
    ((t.set p v).values : Multiset Value) + (t.get? p).toList = t.values + [v] := by
  have hset : ((t.set p v).values : Multiset Value) = v ::ₘ (t.erase p).values :=
    Multiset.coe_eq_coe.2 ((t.entries_set_perm p v).map Prod.snd)
  cases hp : t.get? p with
  | none => simp [hset, erase_of_get?_eq_none hp, ← Multiset.singleton_add, add_comm]
  | some w =>
    have hold : (t.values : Multiset Value) = w ::ₘ (t.erase p).values := by
      have := Multiset.coe_eq_coe.2 (((t.erase p).entries_set_perm p w).map Prod.snd)
      rwa [set_erase_of_get?_eq_some hp, erase_of_get?_eq_none (t := t.erase p)
        (by rw [get?_erase, if_pos rfl])] at this
    rw [hset, hold, Option.toList_some, Multiset.coe_singleton, Multiset.coe_singleton]
    simp only [← Multiset.singleton_add]
    ac_rfl

/-- The value of the property comes out. -/
theorem values_erase (t : PropTable) (p : PropId) :
    ((t.erase p).values : Multiset Value) + (t.get? p).toList = t.values := by
  cases hp : t.get? p with
  | none => simp [erase_of_get?_eq_none hp]
  | some w =>
    have := (t.erase p).values_set p w
    rw [set_erase_of_get?_eq_some hp, get?_erase, if_pos rfl] at this
    simpa using this.symm

end StoryMachine.PropTable
