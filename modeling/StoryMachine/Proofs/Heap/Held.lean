import StoryMachine.Proofs.Heap.Collect
import StoryMachine.Proofs.Object.Inheritance

/-!
# What is held stays

Who owns a count of an object has a say in what becomes of it: as long as counts are
those that are owned, the releases of others free neither the object nor anything that
can be reached from it, since the last count of an object that something else holds is
not theirs to release.

* `Exact.releaseAll`: the counts of a caller, released;
* `get?_releaseAll_of_reachable`: what the other holdings keep;
* `inherits_releaseValues_iff`: a value that is held inherits from the same objects.
-/

namespace StoryMachine

namespace Heap

variable {h h' : Heap} {id : ObjectId} {o : Occupant} {ids : List ObjectId} {vs : List Value}
  {held M N : Multiset Value} {start : ObjectId → Prop}

theorem Exact.congr (he : h.Exact M) (hs : SameObjects M N) : h.Exact N := fun id o ho hp =>
  (he id o ho hp).trans (hs id)

/-- Whether counts are exact can be told from one slot after the other. -/
theorem exact_of_slots (hslots : ∀ p ∈ h.slots.toList.zipIdx, ∀ o ∈ p.1.occupant?,
      o.persistent = false → o.refs.toNat = M.count (.obj ⟨UInt32.ofNat p.2, p.1.generation⟩)) :
    h.Exact M := fun id o ho hp => by
  obtain ⟨s, hs, hg, hso⟩ := occupant?_eq_some_iff.1 ho
  have hmem : (s, id.index.toNat) ∈ h.slots.toList.zipIdx := by
    rw [List.mem_zipIdx_iff_getElem?, Array.getElem?_toList]
    exact hs
  rw [hslots _ hmem o hso hp, UInt32.ofNat_toNat, hg]

/-- With its last count an object is freed, and the counts that it owned are the caller's. -/
theorem Exact.free (he : h.Exact (h.owned + (.obj id ::ₘ held))) (ho : h.occupant? id = some o) :
    (h.vacate id.index.toNat).Exact
      ((h.vacate id.index.toNat).owned +
        (((Value.objects o.object.body.edges).reverse.map Value.obj : List Value) + held)) := by
  rw [Multiset.add_cons, ← owned_vacate ho, add_assoc] at he
  refine ((he.vacate ho).of_cons ?_).congr ?_
  · rw [occupant?_vacate ho, if_pos rfl]
  · rw [List.map_reverse, Multiset.coe_reverse]
    exact ((sameObjects_objects _).add_right _).add_left _

/-- Counts that the caller holds are released, and with them those that they stood for. -/
theorem Exact.releaseAll (he : h.Exact (h.owned + ((ids.map Value.obj : List Value) + held))) :
    (h.releaseAll ids).Exact ((h.releaseAll ids).owned + held) := by
  induction h, ids using Heap.releaseAll.induct generalizing held with
  | case1 h =>
    rw [Heap.releaseAll]
    simpa using he
  | case2 h id ids ho ih =>
    rw [List.map_cons, ← Multiset.cons_coe, Multiset.cons_add] at he
    rw [Heap.releaseAll, ho]
    rw [Multiset.add_cons] at he
    exact ih (he.of_cons ho)
  | case3 h id ids o ho hlast ih =>
    rw [List.map_cons, ← Multiset.cons_coe, Multiset.cons_add] at he
    rw [Heap.releaseAll, ho]
    simp only [hlast, and_self, if_true]
    refine ih ?_
    rw [List.map_append, ← Multiset.coe_add, add_assoc]
    exact he.free ho
  | case4 h id ids o ho hlast ih =>
    rw [List.map_cons, ← Multiset.cons_coe, Multiset.cons_add, Multiset.add_cons] at he
    rw [Heap.releaseAll, ho]
    simp only [hlast, if_false]
    refine ih ?_
    rw [owned_modifyOccupant h id Occupant.object_release]
    exact he.release

theorem Exact.releaseValues (he : h.Exact (h.owned + (vs + held))) :
    (h.releaseValues vs).Exact ((h.releaseValues vs).owned + held) :=
  Exact.releaseAll (he.congr (((sameObjects_objects vs).add_right _).add_left _))

/-! ## What can be reached -/

/-- What can be reached can still be reached as long as it is as it was. -/
theorem Reachable.of_get?_eq (hget : ∀ id, h.Reachable start id → h'.get? id = h.get? id)
    (hid : h.Reachable start id) : h'.Reachable start id := by
  have hlive {id : ObjectId} (hid : h.Reachable start id) : h'.contains id = true := by
    rw [contains_eq_isSome_get?, hget id hid, ← contains_eq_isSome_get?]
    exact hid.contains
  induction hid with
  | root hroot hroot' => exact .root hroot (hlive (.root hroot hroot'))
  | @edge id id' o hid ho hedge hcontains ih =>
    have hobject : (h'.occupant? id).map Occupant.object = some o.object := by
      have := hget id hid
      rwa [get?, get?, ho] at this
    obtain ⟨o', ho', heq⟩ := Option.map_eq_some_iff.1 hobject
    exact .edge ih ho' (heq ▸ hedge) (hlive (.edge hid ho hedge hcontains))

/-- Something else owns a count of what can be reached from what is held. -/
theorem one_le_count_of_reachable (hid : h.Reachable (.obj · ∈ held) id) :
    1 ≤ (h.owned + held).count (.obj id) := by
  rw [Multiset.one_le_count_iff_mem, Multiset.mem_add]
  cases hid with
  | root hroot _ => exact .inr hroot
  | edge _ ho hedge _ =>
    rw [← owned_vacate ho]
    exact .inl (Multiset.mem_add.2 (.inr hedge))

/-- The induction is on what is released. An object that is freed had no count but the one
    released, so it cannot be reached from what is held. -/
theorem get?_releaseAll_of_reachable
    (he : h.Exact (h.owned + ((ids.map Value.obj : List Value) + held)))
    (hid : h.Reachable (.obj · ∈ held) id) : (h.releaseAll ids).get? id = h.get? id := by
  induction h, ids using Heap.releaseAll.induct with
  | case1 h => rw [Heap.releaseAll]
  | case2 h id' ids ho ih =>
    rw [List.map_cons, ← Multiset.cons_coe, Multiset.cons_add, Multiset.add_cons] at he
    rw [Heap.releaseAll, ho]
    exact ih (he.of_cons ho) hid
  | case3 h id' ids o ho hlast ih =>
    rw [List.map_cons, ← Multiset.cons_coe, Multiset.cons_add] at he
    rw [Heap.releaseAll, ho]
    simp only [hlast, and_self, if_true]
    have hfreed : ¬h.Reachable (.obj · ∈ held) id' := fun hid' => by
      have hone := one_le_count_of_reachable hid'
      have hrefs := he id' o ho hlast.2
      have hle : o.refs.toNat ≤ 1 := UInt32.le_iff_toNat_le.1 hlast.1
      rw [Multiset.count_add] at hone
      rw [Multiset.add_cons, Multiset.count_cons_self, Multiset.count_add, Multiset.count_add] at hrefs
      omega
    have hget (id : ObjectId) (hid : h.Reachable (.obj · ∈ held) id) :
        (h.vacate id'.index.toNat).get? id = h.get? id := by
      have hne : id ≠ id' := fun heq => hfreed (heq ▸ hid)
      rw [get?, occupant?_vacate ho, if_neg hne, get?]
    rw [← hget id hid]
    refine ih ?_ (hid.of_get?_eq hget)
    rw [List.map_append, ← Multiset.coe_add, add_assoc]
    exact he.free ho
  | case4 h id' ids o ho hlast ih =>
    rw [List.map_cons, ← Multiset.cons_coe, Multiset.cons_add, Multiset.add_cons] at he
    rw [Heap.releaseAll, ho]
    simp only [hlast, if_false]
    have hget (id : ObjectId) : (h.modifyOccupant id' Occupant.release).get? id = h.get? id := by
      rw [get?, get?, occupant?_modifyOccupant]
      split
      · rw [Option.map_map]
        rfl
      · rfl
    rw [← hget id]
    refine ih ?_ (hid.of_get?_eq fun id _ => hget id)
    rw [owned_modifyOccupant h id' Occupant.object_release]
    exact he.release

theorem get?_releaseValues_of_reachable (he : h.Exact (h.owned + (vs + held)))
    (hid : h.Reachable (.obj · ∈ held) id) : (h.releaseValues vs).get? id = h.get? id :=
  get?_releaseAll_of_reachable (he.congr (((sameObjects_objects vs).add_right _).add_left _)) hid

/-! ## Inheritance -/

theorem has_source (h : Heap) (id : ObjectId) : h.source.has id = h.contains id := by
  rw [contains_eq_isSome_get?]
  exact Option.isSome_map

/-- An object holds its superclasses. -/
theorem Reachable.of_inherits {id' : ObjectId} (hid : start id) (hinherits : h.source.Inherits id id') :
    h.Reachable start id' := by
  obtain ⟨hlive, hpath⟩ := hinherits
  rw [has_source] at hlive
  induction hpath with
  | refl => exact .root hid hlive
  | @tail id' super _ hstep ih =>
    obtain ⟨hsuper, hhas⟩ := hstep
    rw [has_source] at hhas
    obtain ⟨o, ho⟩ := contains_iff.1 ih.contains
    refine .edge ih ho ?_ hhas
    have hsupers : h.source.supers id' = o.object.body.supers := by
      simp only [Inheritance.Source.supers, source, get?, ho, Option.map_some, Option.getD_some]
    rw [hsupers] at hsuper
    cases hbody : o.object.body with
    | program supers props =>
      rw [hbody] at hsuper
      exact List.mem_append_left _ (List.mem_map_of_mem hsuper)
    | _ =>
      rw [hbody] at hsuper
      cases hsuper

/-- What others release makes no difference to what an object inherits from that is held. -/
theorem inherits_releaseValues_iff {id' : ObjectId} (he : h.Exact (h.owned + (vs + held)))
    (hid : .obj id ∈ held) :
    (h.releaseValues vs).source.Inherits id id' ↔ h.source.Inherits id id' := by
  constructor
  · refine Inheritance.Source.Inherits.of_body?_eq fun id' hinherits => ?_
    have hlive := hinherits.has_right
    rw [has_source] at hlive
    exact congrArg (Option.map Object.body) ((Shrinks.releaseValues h vs).objects id' hlive).symm
  · refine Inheritance.Source.Inherits.of_body?_eq fun id' hinherits => ?_
    exact congrArg (Option.map Object.body)
      (get?_releaseValues_of_reachable he (.of_inherits hid hinherits))

end Heap

end StoryMachine
