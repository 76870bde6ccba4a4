import StoryMachine.Proofs.Heap.Scan

/-!
# Listing the instances of a class

A program lists objects with two functions: one gives the first object, the other the one
that follows a given object. What the program does between the calls is its own affair, as
long as it neither makes objects nor frees any.

* `nextInstance`: one call;
* `Machine.Pauses`: what happens between calls;
* `Machine.Lists`: the objects that the calls give, whatever happens between them;
* `Machine.lists_instances`: these are the instances, by ascending slot.
-/

namespace StoryMachine

open Heap

/-- The call that begins to list the instances of a class, or all program objects, or the one
    that goes on after an object. -/
def nextInstance (class? : Option ObjectId) : (after? : Option ObjectId) → MachineM Value
  | none => Intrinsic.call .firstObj (class?.map .obj).toList
  | some id => Intrinsic.call .nextObj (.obj id :: (class?.map .obj).toList)

namespace Machine

variable {m m' : Machine} {class? after? : Option ObjectId} {ids : List ObjectId}

/-- A call scans the slots, and gives its result with a count. -/
theorem nextInstance_eq (m : Machine) (class? after? : Option ObjectId) :
    nextInstance class? after? m =
      match m.heap.find? (m.heap.isInstance class?) after? with
      | some id => .ok (.obj id) { m with heap := m.heap.retain id }
      | none => .ok .nil m := by
  have hscan : nextInstance class? after? m =
      (match m.heap.find? (m.heap.isInstance class?) after? with
        | some id => owned (.obj id)
        | none => pure .nil) m := by
    cases after? <;> cases class? <;> rfl
  rw [hscan]
  cases m.heap.find? (m.heap.isInstance class?) after? <;> rfl

/-- Something that happens between two calls: an operation on the object table that makes no
    object and frees none, or whatever leaves the table alone. -/
inductive Pauses (m : Machine) : Machine → Prop
  /-- An operation on the table. -/
  | operate (op : Operation) (hop : ∀ object, op ≠ .alloc object)
      (hlive : ∀ id, m.heap.contains id = true → (m.heap.performed op).contains id = true) :
      Pauses m { m with heap := m.heap.performed op }
  /-- The table is left alone. -/
  | aside {m' : Machine} (hheap : m'.heap = m.heap) : Pauses m m'

/-- Whatever happens between the calls, they give these objects one after the other, and then
    nil. The first call goes on after `after?`, and each later one after the object before. -/
inductive Lists (class? : Option ObjectId) : Machine → (after? : Option ObjectId) → List ObjectId → Prop
  /-- There is nothing more. -/
  | done {m m' : Machine} {after? : Option ObjectId}
      (hcall : nextInstance class? after? m = .ok .nil m') : Lists class? m after? []
  /-- There is another object. -/
  | next {m m' : Machine} {after? : Option ObjectId} {id : ObjectId} {ids : List ObjectId}
      (hcall : nextInstance class? after? m = .ok (.obj id) m')
      (hrest : ∀ m'', Relation.ReflTransGen Pauses m' m'' → Lists class? m'' (some id) ids) :
      Lists class? m after? (id :: ids)

/-- The objects are of the same forms, in as many slots. -/
structure SameForms (m m' : Machine) : Prop where
  /-- The forms are the same. -/
  form : m'.heap.form? = m.heap.form?
  /-- There are as many slots as before. -/
  size : m'.heap.slots.size = m.heap.slots.size

theorem Pauses.sameForms (hp : m.Pauses m') : m.SameForms m' := by
  rcases hp with ⟨op, hop, hlive⟩ | hheap
  · exact ⟨(Forms.performed hop).form?_eq hlive, (performed_touches hop).ages.size⟩
  · exact ⟨by rw [hheap], by rw [hheap]⟩

theorem sameForms_of_pauses (hp : Relation.ReflTransGen Pauses m m') : m.SameForms m' := by
  induction hp with
  | refl => exact ⟨rfl, rfl⟩
  | tail _ hp ih =>
    exact ⟨hp.sameForms.form.trans ih.form, hp.sameForms.size.trans ih.size⟩

/-- A call changes a count at most. -/
theorem sameForms_retain (m : Machine) (id : ObjectId) :
    m.SameForms { m with heap := m.heap.retain id } := by
  have hlive (id' : ObjectId) : (m.heap.performed (.retain id)).contains id' = m.heap.contains id' :=
    contains_modifyOccupant m.heap id Occupant.retain id'
  exact (Pauses.operate (.retain id) (by simp) fun id' hid' => (hlive id').trans hid').sameForms

/-- A call gives the first of what is left to list. -/
theorem nextInstance_of_mem_iff (hsize : m.heap.slots.size < 2 ^ 32)
    (hids : ids.Pairwise (·.index < ·.index))
    (hmem : ∀ id, id ∈ ids ↔ slotAfter after? ≤ id.index.toNat ∧ m.heap.Instance class? id) :
    nextInstance class? after? m =
      match ids.head? with
      | some id => .ok (.obj id) { m with heap := m.heap.retain id }
      | none => .ok .nil m := by
  rw [nextInstance_eq, find?_eq_head? hsize hids fun id => ?_]
  rw [hmem, isInstance_iff]
  exact and_congr_right fun _ => ⟨fun hid => ⟨hid.contains, hid⟩, fun hid => hid.2⟩

/-- The calls list what is left to list. The induction is on the objects: after each one those
    are left that come after it. -/
theorem lists_of_mem_iff (hsize : m.heap.slots.size < 2 ^ 32)
    (hids : ids.Pairwise (·.index < ·.index))
    (hmem : ∀ id, id ∈ ids ↔ slotAfter after? ≤ id.index.toNat ∧ m.heap.Instance class? id) :
    m.Lists class? after? ids := by
  induction ids generalizing m after? with
  | nil => exact .done (nextInstance_of_mem_iff hsize hids hmem)
  | cons id ids ih =>
    refine .next (nextInstance_of_mem_iff hsize hids hmem) fun m'' hpauses => ?_
    obtain ⟨hfirst, hids⟩ := List.pairwise_cons.1 hids
    have hsame := sameForms_of_pauses hpauses
    have hcalled := m.sameForms_retain id
    have hsize' : m''.heap.slots.size < 2 ^ 32 := by rwa [hsame.size, hcalled.size]
    have hmem' (id' : ObjectId) : id' ∈ ids ↔
        slotAfter (some id) ≤ id'.index.toNat ∧ m''.heap.Instance class? id' := by
      have hstart : slotAfter after? ≤ id.index.toNat := ((hmem id).1 List.mem_cons_self).1
      rw [instance_congr (hsame.form.trans hcalled.form), slotAfter, Nat.add_one_le_iff]
      constructor
      · intro hid'
        exact ⟨UInt32.lt_iff_toNat_lt.1 (hfirst id' hid'),
          ((hmem id').1 (List.mem_cons_of_mem _ hid')).2⟩
      · rintro ⟨hlt, hinstance⟩
        rcases List.mem_cons.1 ((hmem id').2 ⟨by omega, hinstance⟩) with rfl | hid'
        · exact absurd hlt (lt_irrefl _)
        · exact hid'
    exact ih hsize' hids hmem'

/-- Whatever the program does between the calls, as long as it neither makes objects nor frees
    any, they list exactly the instances of the class that are there, or all program objects
    if no class is given, each once and by ascending slot, and then give nil. No table has
    more slots than its limit (`Heap.slots_accounted`). -/
theorem lists_instances (m : Machine) (class? : Option ObjectId)
    (hlimit : m.heap.slots.size ≤ m.heap.settings.maxObjects.toNat) :
    ∃ ids, m.Lists class? none ids ∧ ids.Pairwise (·.index < ·.index) ∧
      ∀ id, id ∈ ids ↔ m.heap.Instance class? id := by
  have hsize : m.heap.slots.size < 2 ^ 32 := hlimit.trans_lt m.heap.settings.maxObjects.toNat_lt
  have hids : (m.heap.instances class?).Pairwise (·.index < ·.index) :=
    (ascending_namesFrom hsize 0).filter _
  have hmem (id : ObjectId) : id ∈ m.heap.instances class? ↔ m.heap.Instance class? id :=
    mem_instances hsize
  refine ⟨_, lists_of_mem_iff hsize hids fun id => ?_, hids, hmem⟩
  rw [hmem, slotAfter]
  exact ⟨fun hid => ⟨Nat.zero_le _, hid⟩, fun hid => hid.2⟩

/-- A machine with a class, two instances, one of them made by the program, and a list that
    holds them. -/
def menagerie : Machine :=
  { (default : Machine) with
    heap := ((Client.ofImage {} [(1, ⟨0, .program [] .empty⟩), (2, ⟨0, .list [.obj ⟨4, 0⟩]⟩),
      (4, ⟨0, .program [⟨1, 0⟩] .empty⟩), (6, ⟨0, .program [] .empty⟩)]).run
        [.alloc ⟨0, .program [⟨6, 0⟩, ⟨4, 0⟩] .empty⟩]).heap }

/-- The object in slot three inherits from the class by way of a later slot. -/
theorem lists_instances_menagerie : menagerie.Lists (some ⟨1, 0⟩) none [⟨3, 1⟩, ⟨4, 0⟩] := by
  obtain ⟨ids, hlists, hids, hmem⟩ := lists_instances menagerie (some ⟨1, 0⟩) (by decide +kernel)
  have hinstances : menagerie.heap.instances (some ⟨1, 0⟩) = [⟨3, 1⟩, ⟨4, 0⟩] := by
    decide +kernel
  have heq : ids = [⟨3, 1⟩, ⟨4, 0⟩] := eq_of_ascending hids (by decide) fun id => by
    rw [hmem, ← hinstances, mem_instances (by decide +kernel)]
  exact heq ▸ hlists

end Machine

end StoryMachine
