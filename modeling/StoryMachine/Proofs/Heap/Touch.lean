import StoryMachine.Proofs.Heap.Operation

/-!
# Changes that make no object

All operations but one make no object. Whatever else they do, to the slots they do one
thing after the other, and each is one of two: an object that is not persistent is taken
out of its slot, or one stays in it and is changed. So what holds on through each of these
holds on through every operation, and also everywhere on its way.

* `Heap.Touch`: a single change;
* `Touches`: one change after the other;
* `Touches.releaseAll`, `Touches.collect`, `Touches.undoTo`: what counts, collections and
  the log do;
* `Edit.touches`, `Does.touches`: changes to objects, and all operations but one.
-/

namespace StoryMachine

/-- Taking a change back does not change the kind. -/
theorem Change.kind_revert (c : Change) (b : Body) : (c.revert b).1.kind = b.kind := by
  cases b <;> cases c <;> try rfl
  all_goals
    simp only [Change.revert]
    split <;> rfl

/-- An object that has been changed, or the counts of which have: it is of the same
    metaclass and kind. -/
structure Occupant.Like (o o' : Occupant) : Prop where
  /-- The metaclass is for good. -/
  metaclass : o'.object.metaclass = o.object.metaclass
  /-- And so is the kind. -/
  kind : o'.object.body.kind = o.object.body.kind

theorem Occupant.Like.refl (o : Occupant) : o.Like o := ⟨rfl, rfl⟩

theorem Occupant.Like.trans {o o' o'' : Occupant} (h₁ : o.Like o') (h₂ : o'.Like o'') : o.Like o'' :=
  ⟨h₂.1.trans h₁.1, h₂.2.trans h₁.2⟩

namespace Heap

variable {h h' h'' : Heap} {i : Nat} {id : ObjectId} {o : Occupant}

/-- Slot `i` does not hold a persistent object. -/
def Freeable (h : Heap) (i : Nat) : Prop :=
  ∀ id o, h.occupant? id = some o → id.index.toNat = i → o.persistent = false

/-- A single change to a table that makes no object. -/
inductive Touch (h : Heap) : Heap → Prop
  /-- An object is freed. -/
  | vacate (i : Nat) (hocc : h.isOccupied i = true) (hfree : h.Freeable i) : Touch h (h.vacate i)
  /-- An object is changed, or its counts are. -/
  | modify {f : Occupant → Occupant} (id : ObjectId)
      (hpersistent : ∀ o, (f o).persistent = o.persistent)
      (hlike : ∀ o, h.occupant? id = some o → o.Like (f o)) : Touch h (h.modifyOccupant id f)
  /-- It is not the slots that are changed. -/
  | aside {h' : Heap} (hslots : h'.slots = h.slots) (hsettings : h'.settings = h.settings)
      (hfree : h'.free = h.free) (hlive : h'.live = h.live) (hwrap : h'.wrapped = h.wrapped)
      (hsat : h'.saturated = false → h.saturated = false) : Touch h h'

/-- Changes to a table, one after the other. -/
abbrev Touches : Heap → Heap → Prop := Relation.ReflTransGen Touch

namespace Touches

theorem withLog (h : Heap) (log : UndoLog) : h.Touches { h with undo := log } :=
  .single (.aside rfl rfl rfl rfl rfl fun hs => hs)

/-! ## Counts, and objects that are freed -/

theorem modifyOccupant {f : Occupant → Occupant} (h : Heap) (id : ObjectId)
    (hpersistent : ∀ o, (f o).persistent = o.persistent)
    (hlike : ∀ o, h.occupant? id = some o → o.Like (f o)) : h.Touches (h.modifyOccupant id f) :=
  .single (.modify id hpersistent hlike)

theorem retain (h : Heap) (id : ObjectId) : h.Touches (h.retain id) :=
  (modifyOccupant h id Occupant.persistent_retain fun _ _ => ⟨rfl, rfl⟩).tail
    (.aside rfl rfl rfl rfl rfl fun hs => (Bool.or_eq_false_iff.1 hs).1)

theorem retainValue (h : Heap) (v : Value) : h.Touches (h.retainValue v) := by
  cases v with
  | obj id => exact retain h id
  | _ => exact .refl

theorem retainValues (h : Heap) (vs : List Value) : h.Touches (h.retainValues vs) :=
  List.foldlRecOn vs _ .refl fun _ ht v _ => ht.trans (retainValue _ v)

theorem releaseOne (h : Heap) (id : ObjectId) : h.Touches (h.modifyOccupant id Occupant.release) :=
  modifyOccupant h id Occupant.persistent_release fun _ _ => ⟨rfl, rfl⟩

theorem vacate (hfree : h.Freeable i) : h.Touches (h.vacate i) := by
  by_cases hocc : h.isOccupied i
  · exact .single (.vacate i hocc hfree)
  · rw [Heap.vacate, if_neg hocc]

/-- The induction is on the work that is left. -/
theorem releaseAll (h : Heap) (ids : List ObjectId) : h.Touches (h.releaseAll ids) := by
  induction h, ids using Heap.releaseAll.induct with
  | case1 h =>
    rw [Heap.releaseAll]
  | case2 h id ids ho ih =>
    rw [Heap.releaseAll, ho]
    exact ih
  | case3 h id ids o ho hlast ih =>
    rw [Heap.releaseAll, ho]
    simp only [hlast, and_self, if_true]
    -- The object is the only one in its slot.
    have hfree : h.Freeable id.index.toNat := fun id' o' ho' hindex => by
      obtain rfl := eq_of_index_eq ho ho' (UInt32.toNat_inj.1 hindex.symm)
      exact Option.some.inj (ho'.symm.trans ho) ▸ hlast.2
    exact (vacate hfree).trans ih
  | case4 h id ids o ho hlast ih =>
    rw [Heap.releaseAll, ho]
    simp only [hlast, if_false]
    exact (releaseOne h id).trans ih

theorem releaseValues (h : Heap) (vs : List Value) : h.Touches (h.releaseValues vs) :=
  releaseAll h _

theorem release (h : Heap) (id : ObjectId) : h.Touches (h.release id) := releaseAll h _

theorem freeable_vacate {j : Nat} (hfree : h.Freeable j) (i : Nat) : (h.vacate i).Freeable j := by
  intro id o ho hindex
  rw [occupant?_vacate_slot] at ho
  split at ho
  · cases ho
  · exact hfree id o ho hindex

theorem foldl_vacate {dead : List Nat} (hdead : ∀ i ∈ dead, h.Freeable i) :
    h.Touches (dead.foldl Heap.vacate h) := by
  induction dead generalizing h with
  | nil => exact .refl
  | cons i dead ih =>
    obtain ⟨hi, hdead⟩ := List.forall_mem_cons.1 hdead
    exact (vacate hi).trans (ih fun j hj => freeable_vacate (hdead j hj) i)

theorem freeable_of_mem_unreached {roots : List Value} (hi : i ∈ h.unreached roots) :
    h.Freeable i := by
  rintro id o ho rfl
  have hmark := ((h.mem_unreached roots).1 hi).2
  -- A persistent object would have been reached.
  refine Bool.eq_false_iff.2 fun hp => hmark (reached_of_isRoot (.inr (.inr ?_)) ?_)
  · rw [isPersistent, ho, Option.any_some, hp]
  · exact contains_iff.2 ⟨o, ho⟩

theorem collect (h : Heap) (roots : List Value) : h.Touches (h.collect roots).2 := by
  have hswept : h.Touches ((h.unreached roots).foldl Heap.vacate h) :=
    foldl_vacate fun _ hi => freeable_of_mem_unreached hi
  have hsettled := List.foldlRecOn (motive := fun g => h.Touches g)
    (Value.objects ((h.unreached roots).flatMap h.edgesAt))
    (fun h id => h.modifyOccupant id Occupant.release) hswept
    fun _ ht id _ => ht.trans (releaseOne _ id)
  exact hsettled.tail (.aside rfl rfl rfl rfl rfl fun hs => hs)

/-! ## Changes to objects, and going back -/

theorem setBody (h : Heap) (id : ObjectId) {body : Body}
    (hkind : ∀ o, h.occupant? id = some o → body.kind = o.object.body.kind) :
    h.Touches (h.setBody id body) :=
  modifyOccupant h id (fun _ => rfl) fun o ho => ⟨rfl, hkind o ho⟩

theorem record (h : Heap) (id : ObjectId) (change : Change) : h.Touches (h.record id change) := by
  unfold Heap.record
  split
  · exact (retain h id).trans (withLog _ _)
  · exact releaseValues h _

theorem discardRecord (h : Heap) (r : UndoRecord) : h.Touches (h.discardRecord r) :=
  (releaseValues h _).trans (release _ _)

theorem foldl_discardRecord (h : Heap) (rs : List UndoRecord) :
    h.Touches (rs.foldl Heap.discardRecord h) :=
  List.foldlRecOn rs _ .refl fun _ ht r _ => ht.trans (discardRecord _ r)

theorem applyUndo (h : Heap) (r : UndoRecord) : h.Touches (h.applyUndo r) := by
  unfold Heap.applyUndo
  split
  · exact releaseValues h _
  · next o ho =>
    have hbody : h.Touches (h.setBody r.target (r.change.revert o.object.body).1) :=
      setBody h r.target fun o' ho' => by
        rw [ho, Option.some.injEq] at ho'
        rw [Change.kind_revert, ho']
    exact (hbody.trans (releaseValues _ _)).trans (release _ _)

theorem dropOldest (h : Heap) : h.Touches h.dropOldest := by
  unfold Heap.dropOldest
  split
  · exact .refl
  · simp only [← Array.foldl_toList]
    exact (withLog h _).trans (foldl_discardRecord _ _)

theorem beginSavepoint (h : Heap) : h.Touches h.beginSavepoint.2 := by
  unfold Heap.beginSavepoint
  split
  · exact (dropOldest h).trans (withLog _ _)
  · exact withLog h _

theorem undoTo (h : Heap) (n : UInt32) : h.Touches (h.undoTo n).2 := by
  unfold Heap.undoTo
  split
  · exact .refl
  · refine (withLog h _).trans (List.foldlRecOn _ _ (withLog _ _) fun _ ht r _ => ?_)
    exact ht.trans (applyUndo _ r)

theorem undoLast (h : Heap) : h.Touches h.undoLast.2 := by
  unfold Heap.undoLast
  split
  · exact .refl
  · exact undoTo h _

theorem commit (h : Heap) : h.Touches h.commit := by
  unfold Heap.commit
  simp only [← Array.foldl_toList]
  exact (withLog h _).trans (foldl_discardRecord _ _)

end Touches

theorem Edit.touches {given taken : List Value} (he : h.Edit id given taken h') : h.Touches h' := by
  obtain @⟨o, body, change, given, taken, extra, ho, -, hreverts, -, -⟩ := he
  have hkind (o' : Occupant) (ho' : h.occupant? id = some o') :
      body.kind = o'.object.body.kind := by
    rw [ho, Option.some.injEq] at ho'
    rw [← change.kind_revert body, hreverts, ho']
  exact ((Touches.setBody h id hkind).trans (Touches.retainValues _ extra)).trans
    (Touches.record _ id change)

/-- All operations but one make no object. -/
theorem Does.touches {op : Operation} {taken : List Value} (hd : h.Does op taken h')
    (hop : ∀ object, op ≠ .alloc object) : h.Touches h' := by
  cases hd with
  | idle _ => exact .refl
  | alloc _ => exact absurd rfl (hop _)
  | edit he => exact he.touches
  | retain v _ => exact .retainValue h v
  | release => exact .releaseValues h _
  | beginSavepoint => exact .beginSavepoint h
  | undo n _ _ => exact .undoTo h n
  | commit => exact .commit h
  | collect roots => exact .collect h roots

/-- An object that is there was there before. -/
theorem Touch.contains (ht : h.Touch h') (hlive : h'.contains id = true) :
    h.contains id = true := by
  cases ht with
  | vacate i _ _ =>
    rw [Heap.contains, occupant?_vacate_slot] at hlive
    split at hlive
    · cases hlive
    · exact hlive
  | modify id' _ _ => rwa [contains_modifyOccupant] at hlive
  | aside hslots _ _ _ _ _ => rwa [Heap.contains, occupant?_congr hslots] at hlive

theorem Touches.contains (ht : h.Touches h') (hlive : h'.contains id = true) :
    h.contains id = true := by
  induction ht with
  | refl => exact hlive
  | tail _ ht ih => exact ih (ht.contains hlive)

/-- A persistent object is not freed. -/
theorem Touch.isPersistent (ht : h.Touch h') (hp : h.isPersistent id = true) :
    h'.isPersistent id = true := by
  cases ht with
  | vacate i _ hfree =>
    obtain ⟨o, ho⟩ := Option.isSome_iff_exists.1 (Option.isSome_of_any hp)
    have hne : id.index.toNat ≠ i := fun hindex => by
      rw [Heap.isPersistent, ho, Option.any_some, hfree id o ho hindex] at hp
      cases hp
    rwa [Heap.isPersistent, occupant?_vacate_slot, if_neg hne]
  | modify id' hpersistent _ =>
    rw [Heap.isPersistent] at hp
    rw [Heap.isPersistent, occupant?_modifyOccupant]
    split
    · rw [Option.any_map]
      simpa only [hpersistent] using hp
    · exact hp
  | aside hslots _ _ _ _ _ => rwa [Heap.isPersistent, occupant?_congr hslots]

theorem Touches.isPersistent (ht : h.Touches h') (hp : h.isPersistent id = true) :
    h'.isPersistent id = true := by
  induction ht with
  | refl => exact hp
  | tail _ ht ih => exact ht.isPersistent ih

end Heap

end StoryMachine
