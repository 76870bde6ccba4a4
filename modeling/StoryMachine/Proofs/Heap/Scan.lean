import StoryMachine.Machine.Intrinsics
import StoryMachine.Proofs.Heap.Held
import StoryMachine.Proofs.Heap.Names
import StoryMachine.Proofs.Heap.Survivors

/-!
# Scanning the slots

A scan goes on from a slot to the first object that is wanted. What is wanted of an object
here, its kind and from what it inherits, is what the object was made with: no operation
changes its form. So a scan that is taken up again goes on where it was, as long as objects
are neither made nor freed in between.

* `Heap.namesFrom`, `find?_eq_head?`: the objects by ascending slot, and a scan of them;
* `Heap.form?`: the kind and the superclasses of an object;
* `Heap.Instance`: what a scan for instances is to find;
* `Forms.performed`, `instance_congr`: operations do not change it.
-/

namespace StoryMachine

/-- What an inherited relation depends on. -/
theorem Inheritance.Source.inherits_congr {src src' : Source} (hhas : src'.has = src.has)
    (hsupers : src'.supers = src.supers) : src'.Inherits = src.Inherits := by
  funext id ancestor
  rw [Inherits, Inherits, hhas, hsupers]

namespace Heap

variable {h h' h'' : Heap} {id : ObjectId} {ids ids' : List ObjectId} {op : Operation}

/-! ## Names by ascending slot -/

/-- Names in ascending order are determined by which they are. -/
theorem eq_of_ascending (hids : ids.Pairwise (·.index < ·.index))
    (hids' : ids'.Pairwise (·.index < ·.index)) (hmem : ∀ id, id ∈ ids ↔ id ∈ ids') :
    ids = ids' := by
  have hirrefl : Std.Irrefl fun id id' : ObjectId => id.index < id'.index :=
    ⟨fun id => UInt32.lt_irrefl id.index⟩
  have hasymm : Std.Antisymm fun id id' : ObjectId => id.index < id'.index :=
    ⟨fun id id' hlt hgt => absurd (UInt32.lt_trans hlt hgt) (UInt32.lt_irrefl _)⟩
  exact hids.eq_of_mem_iff hids' hmem

/-- The names of the objects in slot `i` and later. -/
def namesFrom (h : Heap) (i : Nat) : List ObjectId :=
  (List.range' i (h.slots.size - i)).filterMap h.idAt?

theorem mem_namesFrom (hsize : h.slots.size < 2 ^ 32) {i : Nat} :
    id ∈ h.namesFrom i ↔ i ≤ id.index.toNat ∧ h.contains id = true := by
  rw [namesFrom, List.mem_filterMap]
  constructor
  · rintro ⟨j, hj, hid⟩
    obtain ⟨hindex, hlive⟩ := index_of_idAt? hsize hid
    exact ⟨hindex ▸ (List.mem_range'_1.1 hj).1, hlive⟩
  · rintro ⟨hi, hlive⟩
    obtain ⟨j, hj, hid⟩ := List.mem_filterMap.1 (mem_ids_of_contains hlive)
    rw [List.mem_range] at hj
    rw [(index_of_idAt? hsize hid).1] at hi
    exact ⟨j, List.mem_range'_1.2 (by omega), hid⟩

theorem ascending_namesFrom (hsize : h.slots.size < 2 ^ 32) (i : Nat) :
    (h.namesFrom i).Pairwise (·.index < ·.index) := by
  refine List.pairwise_filterMap.2 ((List.pairwise_lt_range' 1).imp fun {j k} hlt id hid id' hid' => ?_)
  rw [UInt32.lt_iff_toNat_lt, (index_of_idAt? hsize hid).1, (index_of_idAt? hsize hid').1]
  exact hlt

theorem namesFrom_of_lt {i : Nat} (hi : i < h.slots.size) :
    h.namesFrom i = (h.idAt? i).toList ++ h.namesFrom (i + 1) := by
  obtain ⟨n, hn⟩ : ∃ n, h.slots.size - i = n + 1 := ⟨h.slots.size - i - 1, by omega⟩
  have hrest : h.slots.size - (i + 1) = n := by omega
  rw [namesFrom, namesFrom, hn, hrest, List.range'_succ, List.filterMap_cons]
  cases h.idAt? i <;> rfl

/-- A scan gives the first name that is wanted. -/
theorem findFrom?_eq_find? (p : ObjectId → Bool) (i : Nat) :
    h.findFrom? p i = (h.namesFrom i).find? p := by
  induction i using findFrom?.induct (h := h) (p := p) with
  | case1 i hi id hid =>
    obtain ⟨hat, hp⟩ := Option.filter_eq_some_iff.1 hid
    rw [findFrom?, if_pos hi, hid, namesFrom_of_lt hi, hat]
    exact (List.find?_cons_of_pos hp).symm
  | case2 i hi hnone ih =>
    rw [findFrom?, if_pos hi, hnone, namesFrom_of_lt hi, List.find?_append]
    cases hat : h.idAt? i with
    | none => exact ih
    | some id =>
      have hp : ¬p id = true := by simpa [hat] using hnone
      rw [Option.toList_some, List.find?_cons_of_neg hp]
      exact ih
  | case3 i hi =>
    have hnone : h.slots.size - i = 0 := by omega
    rw [findFrom?, if_neg hi, namesFrom, hnone]
    rfl

/-- A scan finds the first one of the names that are wanted. -/
theorem find?_eq_head? (hsize : h.slots.size < 2 ^ 32) {p : ObjectId → Bool}
    {after? : Option ObjectId} (hids : ids.Pairwise (·.index < ·.index))
    (hmem : ∀ id, id ∈ ids ↔ slotAfter after? ≤ id.index.toNat ∧ h.contains id = true ∧ p id = true) :
    h.find? p after? = ids.head? := by
  have hwanted : (h.namesFrom (slotAfter after?)).filter p = ids :=
    eq_of_ascending ((ascending_namesFrom hsize _).filter p) hids fun id => by
      rw [List.mem_filter, mem_namesFrom hsize, hmem, and_assoc]
  rw [find?, findFrom?_eq_find?, ← hwanted, List.head?_filter]

/-! ## The forms of objects -/

/-- What an object is made with and keeps for good: its kind and its superclasses. -/
def form? (h : Heap) (id : ObjectId) : Option (Kind × List ObjectId) :=
  (h.get? id).map fun o => (o.body.kind, o.body.supers)

/-- What is there now was there before, and has the form that it had. -/
def Forms (h h' : Heap) : Prop := ∀ id form, h'.form? id = some form → h.form? id = some form

theorem isSome_form? (h : Heap) (id : ObjectId) : (h.form? id).isSome = h.contains id := by
  rw [form?, Option.isSome_map, contains_eq_isSome_get?]

/-- If moreover nothing was freed, everything has the form that it had. -/
theorem Forms.form?_eq (hf : h.Forms h') (hlive : ∀ id, h.contains id = true → h'.contains id = true) :
    h'.form? = h.form? := by
  funext id
  cases hform : h'.form? id with
  | some form => exact (hf id form hform).symm
  | none =>
    cases hform' : h.form? id with
    | none => rfl
    | some form =>
      have hcontains := hlive id (by rw [← isSome_form?, hform', Option.isSome_some])
      rw [← isSome_form?, hform] at hcontains
      cases hcontains

namespace Forms

theorem refl (h : Heap) : h.Forms h := fun _ _ hform => hform

theorem trans (h₁ : h.Forms h') (h₂ : h'.Forms h'') : h.Forms h'' := fun id form hform =>
  h₁ id form (h₂ id form hform)

theorem of_shrinks (hsh : h.Shrinks h') : h.Forms h' := fun id form hform => by
  have hlive : h'.contains id = true := by rw [← isSome_form?, hform, Option.isSome_some]
  rwa [form?, ← hsh.objects id hlive]

theorem setBody {body : Body} (hbody : ∀ o, h.occupant? id = some o →
    body.kind = o.object.body.kind ∧ body.supers = o.object.body.supers) :
    h.Forms (h.setBody id body) := fun id' form hform => by
  rw [form?, get?, Heap.setBody, occupant?_modifyOccupant] at hform
  rw [form?, get?]
  split at hform
  · next hid =>
    subst hid
    cases ho : h.occupant? id' with
    | none =>
      rw [ho] at hform
      cases hform
    | some o =>
      obtain ⟨hkind, hsupers⟩ := hbody o ho
      rw [ho] at hform
      simpa [hkind, hsupers] using hform
  · exact hform

end Forms

/-- Reverting a change does not change the superclasses. -/
theorem supers_revert (c : Change) (b : Body) : (c.revert b).1.supers = b.supers := by
  cases b <;> cases c <;> try rfl
  all_goals
    simp only [Change.revert]
    split <;> rfl

theorem Forms.applyUndo (h : Heap) (r : UndoRecord) : h.Forms (h.applyUndo r) := by
  rcases ho : h.occupant? r.target with _ | o
  · rw [Heap.applyUndo, ho]
    exact .of_shrinks (.releaseValues h _)
  · rw [applyUndo_of_occupant? ho]
    refine (Forms.setBody fun o' ho' => ?_).trans
      (.of_shrinks ((Shrinks.releaseValues _ _).trans (.release _ _)))
    obtain rfl : o = o' := Option.some.inj (ho.symm.trans ho')
    exact ⟨r.change.kind_revert _, supers_revert r.change _⟩

theorem Forms.undoTo (h : Heap) (n : UInt32) : h.Forms (h.undoTo n).2 := by
  rcases hs : h.undo.savepoints.find? (·.id == n) with _ | s
  · rw [Heap.undoTo, hs]
    exact .refl h
  · rw [undoTo_of_find? hs]
    exact List.foldlRecOn _ _ (.of_shrinks (.withLog h _)) fun _ hf r _ => hf.trans (.applyUndo _ r)

theorem Forms.collect (h : Heap) (roots : List Value) : h.Forms (h.collect roots).2 := by
  intro id form hform
  obtain ⟨object, hget, rfl⟩ := Option.map_eq_some_iff.1 hform
  obtain ⟨o, ho, rfl⟩ := get?_eq_some_iff.1 hget
  obtain ⟨o', ho', hobject, -⟩ := exists_occupant?_of_collect ho
  rw [form?, get?, ho', Option.map_some, Option.map_some, hobject]

theorem Edit.forms {given taken : List Value} (he : h.Edit id given taken h') : h.Forms h' := by
  obtain @⟨o, body, change, given, taken, extra, ho, -, hreverts, -, -⟩ := he
  refine (Forms.setBody fun o' ho' => ?_).trans
    (.of_shrinks ((Shrinks.retainValues _ extra).trans (.record _ id change)))
  obtain rfl : o = o' := Option.some.inj (ho.symm.trans ho')
  rw [← hreverts, change.kind_revert, supers_revert]
  exact ⟨rfl, rfl⟩

/-- All operations but one make no object and keep the forms of those that they leave. -/
theorem Forms.performed (hop : ∀ object, op ≠ .alloc object) : h.Forms (h.performed op) := by
  rcases op.performs_of_ne_alloc hop with ⟨e, herr⟩ | ⟨taken, h', hok, hd⟩
  · rw [Heap.performed, herr]
    exact .refl h
  · rw [Heap.performed, hok]
    cases hd with
    | idle _ => exact .refl h
    | alloc _ => exact absurd rfl (hop _)
    | edit he => exact he.forms
    | retain v _ => exact .of_shrinks (.retainValues h [v])
    | release => exact .of_shrinks (.releaseValues h _)
    | beginSavepoint => exact .of_shrinks (.beginSavepoint h)
    | undo n _ _ => exact .undoTo h n
    | commit => exact .of_shrinks (.commit h)
    | collect roots => exact .collect h roots

/-! ## Instances -/

/-- A program object that inherits from the class, if there is one given, and is not the
    class itself. -/
def Instance (h : Heap) (class? : Option ObjectId) (id : ObjectId) : Prop :=
  (∃ o, h.get? id = some o ∧ o.body.kind = .program) ∧
    ∀ c ∈ class?, id ≠ c ∧ h.source.Inherits id c

theorem isInstance_iff {class? : Option ObjectId} :
    h.isInstance class? id = true ↔ h.Instance class? id := by
  rw [isInstance.eq_def, Instance, Bool.and_eq_true, Option.any_eq_true]
  refine and_congr ?_ ?_
  · simp [and_comm]
  · cases class? with
    | none => simp
    | some c =>
      rw [Bool.and_eq_true, bne_iff_ne, Inheritance.isInstanceOf_iff]
      simp [ne_comm]

theorem Instance.contains {class? : Option ObjectId} (hid : h.Instance class? id) :
    h.contains id = true := by
  obtain ⟨⟨o, ho, -⟩, -⟩ := hid
  rw [contains_eq_isSome_get?, ho, Option.isSome_some]

/-- The instances by ascending slot. -/
def instances (h : Heap) (class? : Option ObjectId) : List ObjectId :=
  (h.namesFrom 0).filter (h.isInstance class?)

theorem mem_instances (hsize : h.slots.size < 2 ^ 32) {class? : Option ObjectId} :
    id ∈ h.instances class? ↔ h.Instance class? id := by
  rw [instances, List.mem_filter, mem_namesFrom hsize, isInstance_iff]
  exact ⟨fun hid => hid.2, fun hid => ⟨⟨Nat.zero_le _, hid.contains⟩, hid⟩⟩

/-- What is an instance is told by the forms of the objects. -/
theorem instance_congr (hform : h'.form? = h.form?) : h'.Instance = h.Instance := by
  have hhas : h'.source.has = h.source.has := by
    funext id
    rw [has_source, has_source, ← isSome_form?, ← isSome_form?, hform]
  have hsupers : h'.source.supers = h.source.supers := by
    have hof (g : Heap) (id : ObjectId) :
        g.source.supers id = ((g.form? id).map Prod.snd).getD [] := by
      simp only [Inheritance.Source.supers, source, form?, Option.map_map, Function.comp_def]
    funext id
    rw [hof, hof, hform]
  have hkind (g : Heap) (id : ObjectId) : (∃ o, g.get? id = some o ∧ o.body.kind = .program) ↔
      (g.form? id).map Prod.fst = some .program := by
    simp [form?]
  funext class? id
  rw [Instance, Instance, hkind, hkind, hform, Inheritance.Source.inherits_congr hhas hsupers]

end Heap

end StoryMachine
