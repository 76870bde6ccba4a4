import Mathlib
import StoryMachine.Object.Inheritance

/-!
# The order of inheritance

The walk through superclasses keeps an agenda instead of calling itself. It meets the
same objects in the same order as the recursive walk, which goes from an object to its
superclasses from left to right and passes over what it has met: what is on the agenda is
what the calls under way have left to do. Since a turn meets an object and there are only
so many, it comes to an end in cyclic graphs as well.

* `Source.Preorder`: the recursive walk;
* `Source.Inherits`: what an object is or inherits from;
* `linearize_depth_first`: the order is that of the recursive walk;
* `definers_chain`: each definition of a property continues to the next one.
-/

namespace StoryMachine

namespace Inheritance

namespace Source

/-- The recursive walk: after the objects in `order` have been met, it goes to the given
    names from left to right, and has met those in `order'` at the end. Names that mean no
    object, or one that has been met, are passed over. -/
inductive Preorder (src : Source) : (order ids order' : List ObjectId) → Prop
  | done {order : List ObjectId} : Preorder src order [] order
  | pass {order ids order' : List ObjectId} {id : ObjectId}
      (hid : id ∈ order ∨ src.has id = false) (hrest : Preorder src order ids order') :
      Preorder src order (id :: ids) order'
  | meet {order ids order' order'' : List ObjectId} {id : ObjectId} (hnew : id ∉ order)
      (hid : src.has id = true) (hsupers : Preorder src (order ++ [id]) (src.supers id) order')
      (hrest : Preorder src order' ids order'') : Preorder src order (id :: ids) order''

/-- The object is the other one or inherits from it, through objects that are there. -/
def Inherits (src : Source) (id ancestor : ObjectId) : Prop :=
  src.has id = true ∧
    Relation.ReflTransGen (fun id super => super ∈ src.supers id ∧ src.has super = true) id ancestor

variable {src : Source} {order order' ids ids' : List ObjectId} {id id' start : ObjectId}

theorem Inherits.refl (hid : src.has id = true) : src.Inherits id id := ⟨hid, .refl⟩

theorem Inherits.has_right (h : src.Inherits id id') : src.has id' = true := by
  obtain ⟨hid, hpath⟩ := h
  cases hpath with
  | refl => exact hid
  | tail _ hstep => exact hstep.2

theorem Inherits.trans {id'' : ObjectId} (h : src.Inherits id id') (h' : src.Inherits id' id'') :
    src.Inherits id id'' :=
  ⟨h.1, h.2.trans h'.2⟩

theorem Inherits.of_super (hid : src.has id = true) (hsuper : id' ∈ src.supers id)
    (h : src.Inherits id' start) : src.Inherits id start :=
  ⟨hid, .head ⟨hsuper, h.1⟩ h.2⟩

/-- What an object inherits from is told by the objects that it inherits from. -/
theorem Inherits.of_body?_eq {src' : Source}
    (hbody : ∀ id', src.Inherits id id' → src'.body? id' = src.body? id')
    (h : src.Inherits id start) : src'.Inherits id start := by
  have hhas (id' : ObjectId) (hid' : src.Inherits id id') : src'.has id' = true := by
    rw [has, hbody id' hid']
    exact hid'.has_right
  obtain ⟨hid, hpath⟩ := h
  refine ⟨hhas id (.refl hid), ?_⟩
  induction hpath with
  | refl => exact .refl
  | @tail id' super hpath hstep ih =>
    refine ih.tail ⟨?_, hhas super ⟨hid, hpath.tail hstep⟩⟩
    rw [supers, hbody id' ⟨hid, hpath⟩]
    exact hstep.1

/-! ## The recursive walk -/

namespace Preorder

theorem unique {order₁ order₂ : List ObjectId} (h₁ : src.Preorder order ids order₁)
    (h₂ : src.Preorder order ids order₂) : order₁ = order₂ := by
  induction h₁ generalizing order₂ with
  | done =>
    cases h₂
    rfl
  | pass hid _ ih =>
    cases h₂ with
    | pass _ hrest => exact ih hrest
    | meet hnew hhas =>
      rcases hid with hid | hid
      · exact absurd hid hnew
      · rw [hhas] at hid
        cases hid
  | meet hnew hhas _ _ ihsupers ih =>
    cases h₂ with
    | pass hid _ =>
      rcases hid with hid | hid
      · exact absurd hid hnew
      · rw [hhas] at hid
        cases hid
    | meet _ _ hsupers hrest =>
      obtain rfl := ihsupers hsupers
      exact ih hrest

/-- What is passed over at the start makes no difference. -/
theorem pass_append (hids : ∀ id ∈ ids, id ∈ order ∨ src.has id = false)
    (hrest : src.Preorder order ids' order') : src.Preorder order (ids ++ ids') order' := by
  induction ids with
  | nil => exact hrest
  | cons id ids ih =>
    obtain ⟨hid, hids⟩ := List.forall_mem_cons.1 hids
    exact .pass hid (ih hids)

theorem of_passed (hids : ∀ id ∈ ids, id ∈ order ∨ src.has id = false) :
    src.Preorder order ids order := by
  have h : src.Preorder order (ids ++ []) order := pass_append hids .done
  rwa [List.append_nil] at h

/-- The names are gone to one part after the other. -/
theorem exists_of_append (h : src.Preorder order (ids ++ ids') order') :
    ∃ mid, src.Preorder order ids mid ∧ src.Preorder mid ids' order' := by
  induction ids generalizing order with
  | nil => exact ⟨order, .done, h⟩
  | cons id ids ih =>
    cases h with
    | pass hid hrest =>
      obtain ⟨mid, hmid, hrest⟩ := ih hrest
      exact ⟨mid, .pass hid hmid, hrest⟩
    | meet hnew hid hsupers hrest =>
      obtain ⟨mid, hmid, hrest⟩ := ih hrest
      exact ⟨mid, .meet hnew hid hsupers hmid, hrest⟩

theorem isPrefix (h : src.Preorder order ids order') : order <+: order' := by
  induction h with
  | done => exact List.prefix_rfl
  | pass _ _ ih => exact ih
  | meet _ _ _ _ ihsupers ih => exact ((List.prefix_append _ _).trans ihsupers).trans ih

theorem nodup (h : src.Preorder order ids order') (horder : order.Nodup) : order'.Nodup := by
  induction h with
  | done => exact horder
  | pass _ _ ih => exact ih horder
  | meet hnew _ _ _ ihsupers ih =>
    refine ih (ihsupers (List.nodup_append.2 ⟨horder, List.nodup_singleton _, ?_⟩))
    rintro a ha b hb rfl
    exact hnew (List.mem_singleton.1 hb ▸ ha)

/-- All that is met is inherited from. -/
theorem inherits (h : src.Preorder order ids order') (hmem : id' ∈ order') :
    id' ∈ order ∨ ∃ id ∈ ids, src.Inherits id id' := by
  induction h with
  | done => exact .inl hmem
  | pass _ _ ih =>
    exact (ih hmem).imp_right fun ⟨id, hid, h⟩ => ⟨id, List.mem_cons_of_mem _ hid, h⟩
  | @meet _ _ _ _ id hnew hid _ _ ihsupers ih =>
    rcases ih hmem with hmem | ⟨i, hi, h⟩
    · rcases ihsupers hmem with hmem | ⟨i, hi, h⟩
      · rcases List.mem_append.1 hmem with hmem | hmem
        · exact .inl hmem
        · obtain rfl := List.mem_singleton.1 hmem
          exact .inr ⟨id', List.mem_cons_self, .refl hid⟩
      · exact .inr ⟨id, List.mem_cons_self, .of_super hid hi h⟩
    · exact .inr ⟨i, List.mem_cons_of_mem _ hi, h⟩

/-- All objects that the walk is sent to are met. -/
theorem mem (h : src.Preorder order ids order') (hmem : id' ∈ ids) (hid : src.has id' = true) :
    id' ∈ order' := by
  induction h with
  | done => cases hmem
  | pass hpass hrest ih =>
    rcases List.mem_cons.1 hmem with rfl | hmem
    · rcases hpass with hpass | hpass
      · exact hrest.isPrefix.subset hpass
      · rw [hid] at hpass
        cases hpass
    · exact ih hmem
  | meet _ _ hsupers hrest _ ih =>
    rcases List.mem_cons.1 hmem with rfl | hmem
    · refine hrest.isPrefix.subset (hsupers.isPrefix.subset ?_)
      exact List.mem_append_right _ (List.mem_singleton_self _)
    · exact ih hmem

/-- With an object that is met on the way its superclasses are. -/
theorem closed (h : src.Preorder order ids order') (hmem : id' ∈ order') :
    id' ∈ order ∨ ∀ super ∈ src.supers id', src.has super = true → super ∈ order' := by
  induction h with
  | done => exact .inl hmem
  | pass _ _ ih => exact ih hmem
  | meet _ _ hsupers hrest ihsupers ih =>
    rcases ih hmem with hmem | hall
    · rcases ihsupers hmem with hmem | hall
      · rcases List.mem_append.1 hmem with hmem | hmem
        · exact .inl hmem
        · obtain rfl := List.mem_singleton.1 hmem
          exact .inr fun super hsuper hid => hrest.isPrefix.subset (hsupers.mem hsuper hid)
      · exact .inr fun super hsuper hid => hrest.isPrefix.subset (hall super hsuper hid)
    · exact .inr hall

end Preorder

end Source

/-! ## The agenda -/

variable {src : Source} {order agenda : List ObjectId} {id id' start : ObjectId}

/-- As long as there are enough turns, going through the agenda is the recursive walk
    over the names on it: the superclasses of an object that is met go to the front, so that
    they are seen to before what comes after the object. The induction is on the turns. -/
theorem preorder_walk (turns : Nat) (hnodup : order.Nodup) (hknown : ∀ id ∈ order, src.has id = true)
    (hturns : src.bound ≤ order.length + turns) :
    src.Preorder order agenda (walk src turns order agenda) := by
  induction turns generalizing order agenda with
  | zero =>
    -- All objects have been met.
    refine .of_passed fun id _ => or_iff_not_imp_left.2 fun hnew => ?_
    by_contra hid
    have hle := src.finite (id :: order) (List.nodup_cons.2 ⟨hnew, hnodup⟩)
      (List.forall_mem_cons.2 ⟨Bool.not_eq_false _ ▸ hid, hknown⟩)
    rw [List.length_cons] at hle
    omega
  | succ turns ih =>
    have hsplit := List.takeWhile_append_dropWhile
      (p := fun id => decide (id ∈ order) || !src.has id) (l := agenda)
    have hpassed : ∀ id ∈ agenda.takeWhile (fun id => decide (id ∈ order) || !src.has id),
        id ∈ order ∨ src.has id = false := fun id hid => by
      simpa using List.mem_takeWhile_imp hid
    rw [walk]
    cases hdrop : agenda.dropWhile fun id => decide (id ∈ order) || !src.has id with
    | nil =>
      rw [hdrop, List.append_nil] at hsplit
      exact .of_passed (hsplit ▸ hpassed)
    | cons id rest =>
      have hhead := List.head?_dropWhile_not (fun id => decide (id ∈ order) || !src.has id) agenda
      rw [hdrop] at hhead hsplit
      obtain ⟨hnew, hid⟩ : id ∉ order ∧ src.has id = true := by simpa using hhead
      have hwalk : src.Preorder (order ++ [id]) (src.supers id ++ rest)
          (walk src turns (order ++ [id]) (src.supers id ++ rest)) := by
        refine ih ?_ ?_ ?_
        · exact List.nodup_append.2 ⟨hnodup, List.nodup_singleton _, fun _ ha _ hb hab =>
            hnew (List.mem_singleton.1 hb ▸ hab ▸ ha)⟩
        · exact List.forall_mem_append.2 ⟨hknown, by simpa using hid⟩
        · rw [List.length_append, List.length_singleton]
          omega
      obtain ⟨mid, hsupers, hrest⟩ := hwalk.exists_of_append
      rw [← hsplit]
      exact .pass_append hpassed (.meet hnew hid hsupers hrest)

theorem preorder_linearize (src : Source) (start : ObjectId) :
    src.Preorder [] [start] (linearize src start) :=
  preorder_walk src.bound List.nodup_nil (by simp) (by simp)

theorem nodup_linearize (src : Source) (start : ObjectId) : (linearize src start).Nodup :=
  (preorder_linearize src start).nodup List.nodup_nil

/-- The order has the object itself and what it inherits from. -/
theorem mem_linearize_iff : id ∈ linearize src start ↔ src.Inherits start id := by
  have hpre := preorder_linearize src start
  constructor
  · intro hmem
    rcases hpre.inherits hmem with hmem | ⟨i, hi, h⟩
    · cases hmem
    · exact List.mem_singleton.1 hi ▸ h
  · rintro ⟨hstart, hpath⟩
    induction hpath with
    | refl => exact hpre.mem List.mem_cons_self hstart
    | tail _ hstep ih => exact (hpre.closed ih).elim (by simp) fun h => h _ hstep.1 hstep.2

theorem isInstanceOf_iff : isInstanceOf src id id' = true ↔ src.Inherits id id' := by
  rw [isInstanceOf, decide_eq_true_iff, mem_linearize_iff]

/-- An object comes first in its own order. -/
theorem head?_linearize (src : Source) (start : ObjectId) :
    (linearize src start).head? = if src.has start = true then some start else none := by
  have hpre := preorder_linearize src start
  generalize linearize src start = order at hpre
  cases hpre with
  | pass hid hrest =>
    obtain rfl := hrest.unique .done
    have hid : src.has start = false := by simpa using hid
    simp [hid]
  | meet _ hid hsupers hrest =>
    obtain ⟨rest, hrest⟩ := hsupers.isPrefix.trans hrest.isPrefix
    rw [← hrest, if_pos hid]
    rfl

/-- The order of inheritance is that of the recursive walk, which goes depth first and
    from left to right and meets each object once. It begins with the object itself, if
    there is such an object, and has all the objects that it inherits from. -/
theorem linearize_depth_first (src : Source) (start : ObjectId) :
    (∀ order, src.Preorder [] [start] order ↔ order = linearize src start) ∧
    (linearize src start).Nodup ∧
    (linearize src start).head? = (if src.has start = true then some start else none) ∧
    (∀ id, id ∈ linearize src start ↔ src.Inherits start id) ∧
    (∀ id, isInstanceOf src id id = src.has id) ∧
    ∀ id id' id'', isInstanceOf src id id' = true → isInstanceOf src id' id'' = true →
      isInstanceOf src id id'' = true := by
  refine ⟨fun order => ⟨fun h => h.unique (preorder_linearize src start), ?_⟩,
    nodup_linearize src start, head?_linearize src start, fun id => mem_linearize_iff,
    fun id => ?_, fun id id' id'' h h' => ?_⟩
  · rintro rfl
    exact preorder_linearize src start
  · exact Bool.eq_iff_iff.2 (isInstanceOf_iff.trans ⟨fun h => h.1, .refl⟩)
  · exact isInstanceOf_iff.2 ((isInstanceOf_iff.1 h).trans (isInstanceOf_iff.1 h'))

/-! ## The definitions of a property -/

/-- An object's own value of a property. -/
def Source.ownProp? (src : Source) (p : PropId) (id : ObjectId) : Option Value :=
  (src.body? id).bind (·.ownProp? p)

/-- What an object itself says of a property. -/
def Source.definition? (src : Source) (p : PropId) (id : ObjectId) : Option Found :=
  (src.ownProp? p id).map (Found.mk id)

/-- The definitions of a property that an object has or inherits, in the order of
    inheritance. -/
def definers (src : Source) (receiver : ObjectId) (p : PropId) : List Found :=
  (linearize src receiver).filterMap (src.definition? p)

/-- The definition of a property that is found first, and then the ones that are found
    after each other when the search is continued. -/
def chain (src : Source) (receiver : ObjectId) (p : PropId) : Nat → Option Found
  | 0 => lookup src receiver p
  | n + 1 => (chain src receiver p n).bind fun found =>
    lookupInherited src receiver found.holder p

theorem Source.holder_of_definition? {p : PropId} {found : Found}
    (hfound : src.definition? p id = some found) :
    found.holder = id ∧ src.ownProp? p id = some found.value := by
  obtain ⟨v, hv, rfl⟩ := Option.map_eq_some_iff.1 hfound
  exact ⟨rfl, hv⟩

/-- The search finds the first definition. -/
theorem findIn_eq_head? (src : Source) (order : List ObjectId) (p : PropId) :
    findIn src order p = (order.filterMap (src.definition? p)).head? := by
  rw [List.head?_filterMap, findIn]
  congr 1
  funext id
  rw [Source.definition?, Source.ownProp?]
  cases hbody : src.body? id with
  | none => rfl
  | some body => cases hvalue : body.ownProp? p <;> simp [hvalue]

/-- The search for a property goes on where the definition was found. -/
theorem lookupInherited_of_split {receiver : ObjectId} {before after : List ObjectId} (p : PropId)
    (hsplit : linearize src receiver = before ++ id :: after) :
    lookupInherited src receiver id p = (after.filterMap (src.definition? p)).head? := by
  have hnodup := nodup_linearize src receiver
  rw [hsplit, List.nodup_append] at hnodup
  have hdrop : (before ++ id :: after).dropWhile (· != id) = id :: after := by
    rw [List.dropWhile_append_of_pos, List.dropWhile_cons_of_neg (by simp)]
    exact fun id' hid' => bne_iff_ne.2 (hnodup.2.2 id' hid' id List.mem_cons_self)
  have hmem : id ∈ linearize src receiver := by
    rw [hsplit]
    exact List.mem_append_right _ List.mem_cons_self
  rw [lookupInherited, if_pos hmem, hsplit, hdrop, List.drop_one, List.tail_cons, findIn_eq_head?]

/-- A definition is followed by the next one. -/
theorem chain_eq_getElem? (src : Source) (receiver : ObjectId) (p : PropId) (n : Nat) :
    chain src receiver p n = (definers src receiver p)[n]? := by
  induction n with
  | zero => rw [chain, lookup, findIn_eq_head?, definers, List.head?_eq_getElem?]
  | succ n ih =>
    rw [chain, ih]
    cases hfound : (definers src receiver p)[n]? with
    | none =>
      rw [List.getElem?_eq_none_iff] at hfound
      rw [Option.bind_none, List.getElem?_eq_none (Nat.le_succ_of_le hfound)]
    | some found =>
      -- What comes before and after the definition comes from what is before and after its holder.
      obtain ⟨hlt, hget⟩ := List.getElem?_eq_some_iff.1 hfound
      have hdefiners : (linearize src receiver).filterMap (src.definition? p) =
          (definers src receiver p).take n ++ found :: (definers src receiver p).drop (n + 1) := by
        rw [← hget, List.getElem_cons_drop, List.take_append_drop, definers]
      obtain ⟨before, tail, hsplit, -, htail⟩ := List.filterMap_eq_append_iff.1 hdefiners
      obtain ⟨passed, holder, after, rfl, -, hholder, hafter⟩ := List.filterMap_eq_cons_iff.1 htail
      rw [← List.append_assoc] at hsplit
      rw [Option.bind_some, (Source.holder_of_definition? hholder).1,
        lookupInherited_of_split p hsplit, hafter, List.head?_drop]

/-- What is found first and by going on from each definition found are all definitions of
    the property that the receiver has or inherits, in the order of inheritance. Each of
    them is found once, and the search ends. -/
theorem definers_chain (src : Source) (receiver : ObjectId) (p : PropId) :
    (∀ n, chain src receiver p n = (definers src receiver p)[n]?) ∧
    (definers src receiver p).map Found.holder =
      (linearize src receiver).filter (fun id => (src.ownProp? p id).isSome) ∧
    (∀ found ∈ definers src receiver p, src.ownProp? p found.holder = some found.value) ∧
    ((definers src receiver p).map Found.holder).Nodup := by
  have hholders : (definers src receiver p).map Found.holder =
      (linearize src receiver).filter (fun id => (src.ownProp? p id).isSome) := by
    rw [definers, List.map_filterMap, ← List.filterMap_eq_filter]
    congr 1
    funext id
    cases hvalue : src.ownProp? p id <;> simp [Source.definition?, hvalue, Option.guard]
  refine ⟨chain_eq_getElem? src receiver p, hholders, fun found hfound => ?_, ?_⟩
  · obtain ⟨id, -, hid⟩ := List.mem_filterMap.1 hfound
    obtain ⟨hholder, hvalue⟩ := Source.holder_of_definition? hid
    rw [hholder, hvalue]
  · rw [hholders]
    exact (nodup_linearize src receiver).filter _

end Inheritance

end StoryMachine
