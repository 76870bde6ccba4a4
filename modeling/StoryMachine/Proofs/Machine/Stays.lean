import StoryMachine.Proofs.Heap.Ages
import StoryMachine.Proofs.Machine.Step
import StoryMachine.Proofs.Pool.Pins
import StoryMachine.Proofs.SavedState.Accepted

/-!
# Objects of the right kinds

Every object is of a metaclass for its kind: the loader sees to it, new objects are of
metaclasses that the image has for them, and nothing changes either of the two later.
This needs no counts to be owned, so it is true after memory has run out as well.

The same parts of instructions keep any property that is about the image, the stack and
the pins of pools only. `Machine.Stays` is about both.

* `Heap.Classed`: objects are of metaclasses for their kinds;
* `Machine.Lasting`: properties that do not depend on what becomes of objects;
* `Machine.Stays`: parts that keep such a property;
* `newString_stays`, `newList_stays`, `newProgram_stays`: new objects.
-/

namespace StoryMachine

/-! ## Objects and their metaclasses -/

/-- An object table for the image and within the limits of a machine. Every object is of
    a metaclass for its kind. A metaclass is named by a number of sixteen bits, so there
    must not be more of them. -/
structure Heap.Classed (base : Machine) (h : Heap) : Prop where
  /-- The limits are those of the machine. -/
  limits : h.settings = base.heap.settings
  /-- Slots are never given up. -/
  size_ge : base.heap.slots.size ≤ h.slots.size
  /-- There are no more slots than there may be. -/
  size_le : h.slots.size ≤ max 1 h.settings.maxObjects.toNat
  /-- Objects are of metaclasses for their kinds. -/
  typed : base.image.metaclasses.entries.size ≤ 65536 → ∀ id o, h.get? id = some o →
    o.Typed base.image.metaclasses

namespace Heap

variable {base : Machine} {h h' : Heap} {id : ObjectId} {object : Object}

theorem Classed.size_lt (hc : h.Classed base) : h.slots.size < 2 ^ 32 :=
  hc.size_le.trans_lt (max_lt (by decide) h.settings.maxObjects.toNat_lt)

/-- What there is after slots have aged was there before. -/
theorem Ages.occupant? {o' : Occupant} (ha : h.Ages h') (ho' : h'.occupant? id = some o') :
    ∃ o, h.occupant? id = some o ∧ o.Like o' := by
  obtain ⟨s', hs', hg', hso'⟩ := occupant?_eq_some_iff.1 ho'
  obtain ⟨s, hs⟩ := exists_slot_of_size ha.size hs'
  cases ha.slots _ s s' hs hs' with
  | stays hg hsome hlike =>
    obtain ⟨o, ho⟩ : ∃ o, s.occupant? = some o := by
      rw [← Option.isSome_iff_exists, ← hsome, hso', Option.isSome_some]
    exact ⟨o, occupant?_eq_some_iff.2 ⟨s, hs, hg.symm.trans hg', ho⟩, hlike o o' ho hso'⟩
  | freed _ => cases hso'

theorem Classed.ages (hc : h.Classed base) (ha : h.Ages h') : h'.Classed base where
  limits := ha.settings.trans hc.limits
  size_ge := ha.size ▸ hc.size_ge
  size_le := by
    rw [ha.size, ha.settings]
    exact hc.size_le
  typed ht id object hget := by
    obtain ⟨o', ho', rfl⟩ := get?_eq_some_iff.1 hget
    obtain ⟨o, ho, hlike⟩ := ha.occupant? ho'
    have htyped := hc.typed ht id o.object (get?_eq_some_iff.2 ⟨o, ho, rfl⟩)
    rwa [Object.Typed, ← hlike.metaclass, ← hlike.kind] at htyped

theorem Classed.congr (hc : h.Classed base) (hslots : h'.slots = h.slots)
    (hsettings : h'.settings = h.settings) : h'.Classed base where
  limits := hsettings.trans hc.limits
  size_ge := hslots ▸ hc.size_ge
  size_le := by
    rw [hslots, hsettings]
    exact hc.size_le
  typed ht id o ho := by
    rw [get?, occupant?_congr hslots] at ho
    exact hc.typed ht id o ho

/-- The object in a slot that is taken is the new one. -/
theorem Classed.occupy (hc : h.Classed base)
    (ho : base.image.metaclasses.entries.size ≤ 65536 → object.Typed base.image.metaclasses) (i : Nat) :
    (h.occupy i object).Classed base where
  limits := by simpa [Heap.occupy, modifySlot_eq] using hc.limits
  size_ge := by simpa [Heap.occupy, modifySlot_eq] using hc.size_ge
  size_le := by simpa [Heap.occupy, modifySlot_eq] using hc.size_le
  typed ht id o hget := by
    obtain ⟨oc, hoc, rfl⟩ := get?_eq_some_iff.1 hget
    obtain ⟨s, hs, hg, hso⟩ := occupant?_eq_some_iff.1 hoc
    rw [getElem?_occupy] at hs
    split at hs
    · obtain ⟨s', -, rfl⟩ := Option.map_eq_some_iff.1 hs
      exact Option.some.inj hso ▸ ho ht
    · exact hc.typed ht id _ (get?_eq_some_iff.2 ⟨oc, occupant?_eq_some_iff.2 ⟨s, hs, hg, hso⟩, rfl⟩)

/-- One slot more, as long as there may be one. -/
theorem Classed.push (hc : h.Classed base) (hroom : ¬h.settings.maxObjects ≤ UInt32.ofNat h.slots.size) :
    Classed base { h with slots := h.slots.push { generation := 1 } } where
  limits := hc.limits
  size_ge := by
    rw [Array.size_push]
    exact hc.size_ge.trans (Nat.le_succ _)
  size_le := by
    have hsize : (UInt32.ofNat h.slots.size).toNat = h.slots.size :=
      UInt32.toNat_ofNat_of_lt hc.size_lt
    rw [UInt32.le_iff_toNat_le, hsize] at hroom
    rw [Array.size_push]
    exact le_max_of_le_right (not_le.1 hroom)
  typed ht id o ho := by
    rw [get?, occupant?_push h rfl] at ho
    exact hc.typed ht id o ho

theorem Classed.alloc (hc : h.Classed base)
    (ho : base.image.metaclasses.entries.size ≤ 65536 → object.Typed base.image.metaclasses) :
    Ends (Heap.alloc object h) (fun _ h' => h'.Classed base) fun _ h' => h'.Classed base := by
  cases hfree : h.free with
  | cons n rest =>
    rw [alloc_of_cons hfree]
    have hrest : Heap.Classed base { h with free := rest } := hc.congr rfl rfl
    exact hrest.occupy ho _
  | nil =>
    by_cases hfull : h.settings.maxObjects ≤ UInt32.ofNat h.slots.size
    · rw [alloc_of_full hfree hfull]
      exact hc
    · rw [alloc_of_nil hfree hfull]
      exact (hc.push hfull).occupy ho _

end Heap

/-- The metaclass for a kind is one, if its number is not cut off. -/
theorem MetaclassTable.kind_of_idOf {t : MetaclassTable} {kind : Kind} {id : MetaclassId}
    (hid : t.idOf kind = .ok id) (ht : t.entries.size ≤ 65536) :
    (t.get? id).map (·.kind) = some kind := by
  unfold idOf at hid
  split at hid
  · next i hi =>
    obtain rfl := Except.ok.inj hid
    obtain ⟨hlt, hkind, -⟩ := Array.findIdx?_eq_some_iff_getElem.1 hi
    have hindex : (UInt16.ofNat i).toNat = i := by
      rw [UInt16.toNat_ofNat']
      exact Nat.mod_eq_of_lt (hlt.trans_le ht)
    rw [get?, hindex, Array.getElem?_eq_getElem hlt, Option.map_some, eq_of_beq hkind]
  · cases hid

namespace Machine

variable {α β : Type} {base : Machine} {S : Stack → Prop} {I : Machine → Prop} {m m' : Machine}
  {x : MachineM α} {f : α → MachineM β}

/-! ## Invariants -/

/-- A machine with the image and the limits of another one, the stack of which is as
    said. -/
structure Kept (m base : Machine) (S : Stack → Prop) : Prop where
  /-- The image is that of the other one. -/
  same : m.image = base.image
  /-- The stack is as said. -/
  stack : S m.stack
  /-- Objects are of metaclasses for their kinds. -/
  classed : m.heap.Classed base

theorem Kept.withHeap (hm : m.Kept base S) {h : Heap} (hc : h.Classed base) :
    Kept { m with heap := h } base S :=
  ⟨hm.same, hm.stack, hc⟩

/-- Nothing else matters. -/
theorem Kept.congr (hm : m.Kept base S) (himage : m'.image = m.image) (hstack : m'.stack = m.stack)
    (hheap : m'.heap = m.heap) : m'.Kept base S :=
  ⟨himage.trans hm.same, hstack ▸ hm.stack, hheap ▸ hm.classed⟩

/-- A property of machines with the image of another one. It does not matter to it what
    becomes of objects, as long as they are of metaclasses for their kinds, nor what is read. -/
class Lasting (base : outParam Machine) (I : Machine → Prop) : Prop where
  /-- The image is that of the other one. -/
  image {m : Machine} : I m → m.image = base.image
  /-- The property is still true. -/
  next {m m' : Machine} : I m → m'.image = m.image → m'.stack = m.stack →
    m.pools.code.SamePins m'.pools.code → (m.heap.Classed base → m'.heap.Classed base) → I m'

instance : Lasting base fun m => m.Kept base S where
  image hm := hm.same
  next hm himage hstack _ hheap := ⟨himage.trans hm.same, hstack ▸ hm.stack, hheap hm.classed⟩

theorem Lasting.withHeap [Lasting base I] (hm : I m) {h : Heap}
    (hc : m.heap.Classed base → h.Classed base) : I { m with heap := h } :=
  next hm rfl rfl (.refl _) hc

/-- Nothing else matters. -/
theorem Lasting.congr [Lasting base I] (hm : I m) (himage : m'.image = m.image)
    (hstack : m'.stack = m.stack) (hpools : m'.pools = m.pools) (hheap : m'.heap = m.heap) : I m' :=
  next hm himage hstack (hpools ▸ .refl _) fun hc => hheap ▸ hc

theorem Lasting.peeked [Lasting base I] (hm : I m) (hp : m.Peeked m') : I m' :=
  next hm hp.beside.image hp.beside.stack hp.later.code.samePins fun hc => hp.heap ▸ hc

/-- The part keeps the property, whether it gives a result or faults. -/
def Stays (I : Machine → Prop) (x : MachineM α) : Prop :=
  ∀ m : Machine, I m → Ends (x m) (fun _ m' => I m') fun _ m' => I m'

/-! ## Parts and what they are made of -/

theorem Stays.pure (a : α) : Stays I (Pure.pure a) := fun _ hm => hm

theorem Stays.throw (e : Fault) : Stays I (throw e : MachineM α) := fun _ hm => hm

theorem Stays.fail (e : Failure) : Stays I (StoryMachine.fail e : MachineM α) := fun _ hm => hm

theorem Stays.bind (hx : Stays I x) (hf : ∀ a, Stays I (f a)) :
    Stays I (x >>= f) := fun m hm =>
  (hx m hm).bind (fun a m' hm' => hf a m' hm') fun _ _ he => he

/-- A part that goes by the state. -/
theorem Stays.get {f : Machine → MachineM β} (hf : ∀ m : Machine, I m → Stays I (f m)) :
    Stays I (get >>= f) := fun m hm => hf m hm m hm

theorem Stays.of_peeks [Lasting base I] {P : Machine → α → Prop}
    (hx : ∀ m : Machine, m.Peeks x (P m)) : Stays I x := fun m hm =>
  (hx m m (.refl m)).mono (fun _ _ ha => Lasting.peeked hm ha.1) fun _ _ he => Lasting.peeked hm he.1

theorem Stays.liftExcept (r : Except Failure α) : Stays I (liftExcept r) := by
  cases r with
  | ok a => exact .pure a
  | error e => exact .fail e

theorem Stays.modify {g : Machine → Machine} (hg : ∀ m : Machine, I m → I (g m)) :
    Stays I (modify g) := fun m hm => hg m hm

theorem Stays.modifyGet {g : Machine → α × Machine}
    (hg : ∀ m : Machine, I m → I (g m).2) :
    Stays I (modifyGet g) := fun m hm => hg m hm

theorem Stays.attempt (hx : Stays I x) : Stays I (attempt x) := fun m hm => by
  have hends := hx m hm
  cases hr : x m with
  | ok a m' =>
    rw [hr] at hends
    rw [attempt_ok hr]
    exact hends
  | error e m' =>
    rw [hr] at hends
    rw [attempt_error hr]
    exact hends

theorem Stays.onFault {cleanup : MachineM Unit} (hx : Stays I x)
    (hcleanup : Stays I cleanup) : Stays I (onFault x cleanup) := by
  refine hx.attempt.bind fun r => ?_
  cases r with
  | ok a => exact .pure a
  | error e => exact hcleanup.bind fun _ => .throw e

theorem Stays.andAfter {cleanup : MachineM Unit} (hx : Stays I x)
    (hcleanup : Stays I cleanup) : Stays I (andAfter x cleanup) := by
  refine hx.attempt.bind fun r => hcleanup.bind fun _ => ?_
  cases r with
  | ok a => exact .pure a
  | error e => exact .throw e

theorem Stays.mapM {g : α → MachineM β} (hg : ∀ a, Stays I (g a)) (xs : List α) :
    Stays I (xs.mapM g) := by
  induction xs with
  | nil =>
    rw [List.mapM_nil]
    exact .pure []
  | cons a xs ih =>
    rw [List.mapM_cons]
    exact (hg a).bind fun _ => ih.bind fun _ => .pure _

theorem Stays.forM {g : α → MachineM Unit} (hg : ∀ a, Stays I (g a)) (xs : List α) :
    Stays I (xs.forM g) := by
  induction xs with
  | nil => exact .pure ()
  | cons a xs ih => exact (hg a).bind fun _ => ih

theorem Stays.allM {p : α → MachineM Bool} (hp : ∀ a, Stays I (p a)) (xs : List α) :
    Stays I (xs.allM p) := by
  induction xs with
  | nil => exact .pure true
  | cons a xs ih =>
    refine (hp a).bind fun b => ?_
    cases b with
    | true => exact ih
    | false => exact .pure false

theorem Stays.anyM {p : α → MachineM Bool} (hp : ∀ a, Stays I (p a)) (xs : List α) :
    Stays I (xs.anyM p) := by
  induction xs with
  | nil => exact .pure false
  | cons a xs ih =>
    refine (hp a).bind fun b => ?_
    cases b with
    | true => exact .pure true
    | false => exact ih

theorem Stays.filterM {p : α → MachineM Bool} (hp : ∀ a, Stays I (p a)) (xs : List α) :
    Stays I (xs.filterM p) := by
  have haux (acc : List α) : Stays I (List.filterAuxM p xs acc) := by
    induction xs generalizing acc with
    | nil => exact .pure acc
    | cons a xs ih => exact (hp a).bind fun b => ih _
  exact (haux []).bind fun ys => .pure ys.reverse

/-! ## Objects -/

variable [hI : Lasting base I]

include hI

theorem Stays.modifyHeap {g : Heap → Heap} (hg : ∀ h : Heap, h.Ages (g h)) :
    Stays I (modifyHeap g) :=
  .modify fun _ hm => Lasting.withHeap hm fun hc => hc.ages (hg _)

theorem Stays.withHeap {g : Heap → α × Heap} (hg : ∀ h : Heap, h.Ages (g h).2) :
    Stays I (withHeap g) := fun _ hm => Lasting.withHeap hm fun hc => hc.ages (hg _)

theorem Stays.onHeap {g : HeapM α} (hg : ∀ h : Heap, h.Classed base →
      Ends (g h) (fun _ h' => h'.Classed base) fun _ h' => h'.Classed base) :
    Stays I (onHeap g) := fun m hm => by
  have hends := hg m.heap
  cases hr : g m.heap with
  | ok a h =>
    rw [hr] at hends
    rw [onHeap_ok hr]
    exact Lasting.withHeap hm hends
  | error e h =>
    rw [hr] at hends
    rw [onHeap_error hr]
    exact Lasting.withHeap hm hends

/-- Changes to objects leave them of their kinds. -/
theorem Stays.edit {g : HeapM α} {id : ObjectId} {given : List Value} {taken : α → List Value}
    (he : ∀ h : Heap, Heap.EditsAt g h id given taken) : Stays I (StoryMachine.onHeap g) :=
  .onHeap fun h hc => by
    rcases (he h).ages with ⟨e, herr⟩ | ⟨a, h', hok, ha⟩
    · rw [herr]
      exact hc
    · rw [hok]
      exact hc.ages ha

theorem retainValue_stays (v : Value) : Stays I (retainValue v) :=
  .modifyHeap fun h => .retainValue h v

theorem retainValues_stays (vs : List Value) :
    Stays I (StoryMachine.modifyHeap (·.retainValues vs)) :=
  .modifyHeap fun h => .retainValues h vs

theorem releaseValue_stays (v : Value) : Stays I (releaseValue v) :=
  .modifyHeap fun h => .releaseValue h v

theorem releaseValues_stays (vs : List Value) : Stays I (releaseValues vs) :=
  .modifyHeap fun h => .releaseValues h vs

theorem owned_stays (v : Value) : Stays I (owned v) :=
  (retainValue_stays v).bind fun _ => .pure v

/-! ## New objects -/

theorem allocate_stays {metaclass : MetaclassId} {body : Body}
    (ht : base.image.metaclasses.entries.size ≤ 65536 →
      Object.Typed base.image.metaclasses ⟨metaclass, body⟩) :
    Stays I (allocate metaclass body) :=
  (Stays.onHeap fun _ hc => hc.alloc ht).bind fun _ => .pure _

/-- A new object of a kind is of the metaclass that the image has for the kind. -/
theorem Stays.metaclassOf {kind : Kind} {f : MetaclassId → MachineM β}
    (hf : ∀ id, (base.image.metaclasses.entries.size ≤ 65536 →
      (base.image.metaclasses.get? id).map (·.kind) = some kind) → Stays I (f id)) :
    Stays I (metaclassOf kind >>= f) := fun m hm => by
  cases hid : m.image.metaclasses.idOf kind with
  | error e =>
    have herr : StoryMachine.metaclassOf kind m = .error (.failed e) m := by
      change StoryMachine.liftExcept (m.image.metaclasses.idOf kind) m = _
      rw [hid]
      rfl
    exact Ends.bind_error herr hm
  | ok id =>
    have hok : StoryMachine.metaclassOf kind m = .ok id m := by
      change StoryMachine.liftExcept (m.image.metaclasses.idOf kind) m = _
      rw [hid]
      rfl
    refine Ends.bind_ok hok (hf id (fun ht => ?_) m hm)
    rw [← Lasting.image hm] at ht ⊢
    exact MetaclassTable.kind_of_idOf hid ht

theorem newString_stays (text : String) : Stays I (newString text) :=
  .metaclassOf fun _ hid => allocate_stays hid

theorem newList_stays (items : List Value) : Stays I (newList items) :=
  .metaclassOf fun _ hid => (retainValues_stays items).bind fun _ => allocate_stays hid

theorem newProgram_stays (supers : List ObjectId) : Stays I (newProgram supers) :=
  .metaclassOf fun _ hid => (retainValues_stays _).bind fun _ => allocate_stays hid

end Machine

end StoryMachine
