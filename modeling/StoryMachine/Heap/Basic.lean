import StoryMachine.Failure.Message
import StoryMachine.Heap.Undo
import StoryMachine.Object.Inheritance

/-!
# The object table

Objects live in numbered slots. A slot counts its generations, and the name of an
object holds both numbers, so a name that has outlived its object means nothing.
Slot zero is never used. Objects of an image keep their image numbers and are
*persistent*: they are never freed. All others are freed when the last count of
them is released.

* `Heap.occupant?`, `Heap.get?`: what a name means;
* `Heap.define`, `Heap.openHoles`, `Heap.alloc`: objects of an image, and new ones;
* `Heap.vacate`: an object's slot given up.
-/

namespace StoryMachine

/-- The limits of an object table. -/
structure HeapSettings where
  /-- The number of slots there can be. -/
  maxObjects : UInt32 := 4194304
  /-- The number of new objects after which a collection is due. -/
  gcThreshold : Nat := 10000
  /-- The most savepoints that are kept. -/
  maxSavepoints : Nat := 64
deriving DecidableEq, Inhabited, Repr

/-- The first slot that is used. -/
def HeapSettings.reserved : UInt32 := 1

/-- Why settings cannot be used, if they cannot. -/
def HeapSettings.problem? (s : HeapSettings) : Option String :=
  if s.maxObjects ≤ reserved then some "max_objects must leave room for at least one object"
  else if s.gcThreshold = 0 then some "gc_threshold must be > 0"
  else if s.maxSavepoints = 0 then some "max_savepoints must be > 0"
  else none

/-- Why an operation on the object table cannot be done. -/
inductive HeapError where
  /-- There is no slot left. -/
  | outOfMemory (limit : UInt32)
  /-- The name means no object. -/
  | invalidObject (id : ObjectId)
  /-- The slot is taken already. -/
  | duplicateObject (index : UInt32)
  /-- The object is of another kind. -/
  | wrongKind (id : ObjectId) (expected : String)
  /-- The position is outside of the object. -/
  | indexOutOfRange (index length : Nat)
deriving DecidableEq, Repr

namespace HeapError

/-- What the error says. -/
def message : HeapError → String
  | outOfMemory limit =>
    "out of memory: all " ++ toString limit.toNat ++ " object ids are in use"
  | invalidObject id => "invalid object reference " ++ id.text
  | duplicateObject index =>
    "object id " ++ toString index.toNat ++ " is defined more than once"
  | wrongKind id expected => id.text ++ " is not a " ++ expected
  | indexOutOfRange index length =>
    "index " ++ toString index ++ " out of range for length " ++ toString length

/-- The failure that the error is to a program. Positions count from one there. -/
def failure : HeapError → Failure
  | outOfMemory limit =>
    ⟨.outOfMemory, ["all " ++ toString limit.toNat ++ " object ids in use"]⟩
  | invalidObject id => ⟨.invalidObject, [id.text]⟩
  | duplicateObject index => ⟨.duplicateObject, [toString index.toNat]⟩
  | wrongKind _ expected => .badType expected
  | indexOutOfRange index _ => .indexOutOfRange (index + 1 : Nat)

end HeapError

/-- An object in its slot. -/
structure Occupant where
  /-- The object. -/
  object : Object
  /-- The number of counts that are owned. -/
  refs : UInt32
  /-- Whether it stays even without a count. -/
  persistent : Bool
deriving DecidableEq, Inhabited, Repr

namespace Occupant

/-- Whether there is no larger number of counts. -/
def isFull (o : Occupant) : Bool := o.refs == 0xFFFFFFFF

/-- One count more, up to the largest there is. -/
def retain (o : Occupant) : Occupant :=
  { o with refs := if o.isFull then o.refs else o.refs + 1 }

/-- One count less, down to none. -/
def release (o : Occupant) : Occupant :=
  { o with refs := if o.refs = 0 then 0 else o.refs - 1 }

end Occupant

/-- A slot of the object table. -/
structure Slot where
  /-- The generation of the occupant, or of the next one. -/
  generation : UInt32 := 0
  /-- The object in the slot. -/
  occupant? : Option Occupant := none
deriving DecidableEq, Inhabited, Repr

namespace Slot

/-- Whether the generation is the last one, after which they start again. -/
def isLast (s : Slot) : Bool := s.generation == 0xFFFFFFFF

/-- The slot after its occupant has left. Generation zero is that of image
    objects and does not come again. -/
def vacated (s : Slot) : Slot := { generation := if s.isLast then 1 else s.generation + 1 }

/-- The slot made ready for an object that is not of an image. -/
def opened (s : Slot) : Slot :=
  if s.generation = 0 then { s with generation := 1 } else s

/-- The values that the object in the slot holds. -/
def edges (s : Slot) : List Value :=
  match s.occupant? with
  | none => []
  | some o => o.object.body.edges

/-- The number of objects and values in the slot. -/
def weight (s : Slot) : Nat :=
  match s.occupant? with
  | none => 0
  | some o => o.object.body.edges.length + 1

end Slot

/-- The object table with the log of changes to it. -/
structure Heap where
  /-- The limits. -/
  settings : HeapSettings
  /-- The slots by number. -/
  slots : Array Slot
  /-- The empty slots that are open to new objects, the next one first. -/
  free : List UInt32
  /-- The number of objects. -/
  live : Nat
  /-- The number of new objects since the last collection. -/
  allocated : Nat
  /-- The log of changes. -/
  undo : UndoLog
  /-- Whether a count was lost because there is no larger number of them. No
      operation depends on it. -/
  saturated : Bool := false
  /-- Whether the generations of a slot have started again, so that a name may
      mean a second object. No operation depends on it. -/
  wrapped : Bool := false
deriving Inhabited

/-- An operation on the object table. One that fails leaves the table as it was
    unless it says otherwise. -/
abbrev HeapM := EStateM HeapError Heap

namespace Heap

/-- An object table without objects. -/
def new (settings : HeapSettings) : Heap :=
  { settings
    slots := Array.replicate HeapSettings.reserved.toNat {}
    free := []
    live := 0
    allocated := 0
    undo := { maxSavepoints := settings.maxSavepoints } }

/-- Whether a collection is due. -/
def shouldCollect (h : Heap) : Bool := h.settings.gcThreshold ≤ h.allocated

/-! ## What a name means -/

/-- The object in its slot that a name means. -/
def occupant? (h : Heap) (id : ObjectId) : Option Occupant :=
  match h.slots[id.index.toNat]? with
  | none => none
  | some s => if s.generation = id.generation then s.occupant? else none

/-- The object that a name means. -/
def get? (h : Heap) (id : ObjectId) : Option Object := (h.occupant? id).map Occupant.object

/-- The object that a name means, which has to be one. -/
def deref (h : Heap) (id : ObjectId) : Except HeapError Object :=
  match h.get? id with
  | some o => .ok o
  | none => .error (.invalidObject id)

/-- Whether a name means an object. -/
def contains (h : Heap) (id : ObjectId) : Bool := (h.occupant? id).isSome

/-- Whether a name means a persistent object. -/
def isPersistent (h : Heap) (id : ObjectId) : Bool :=
  (h.occupant? id).any Occupant.persistent

/-- The number of counts of an object. -/
def refCount? (h : Heap) (id : ObjectId) : Option UInt32 := (h.occupant? id).map Occupant.refs

/-- The name of the object in a slot. -/
def idAt? (h : Heap) (i : Nat) : Option ObjectId :=
  match h.slots[i]? with
  | none => none
  | some s => s.occupant?.map fun _ => ⟨UInt32.ofNat i, s.generation⟩

/-- The names of all objects by ascending slot. -/
def ids (h : Heap) : List ObjectId := (List.range h.slots.size).filterMap h.idAt?

/-- The name of the first object in slot `i` or later for which `p` holds. -/
def findFrom? (h : Heap) (p : ObjectId → Bool) (i : Nat) : Option ObjectId :=
  if i < h.slots.size then
    match (h.idAt? i).filter p with
    | some id => some id
    | none => findFrom? h p (i + 1)
  else none
termination_by h.slots.size - i

/-- The slot after that of an object, or the very first. -/
def slotAfter (after? : Option ObjectId) : Nat :=
  match after? with
  | none => 0
  | some id => id.index.toNat + 1

/-- The name of the first object after a given one by slot, or of all, for which
    `p` holds. -/
def find? (h : Heap) (p : ObjectId → Bool) (after? : Option ObjectId) : Option ObjectId :=
  h.findFrom? p (slotAfter after?)

/-- The name of the first object after a given one by slot, or of the very
    first. -/
def nextId? (h : Heap) (after? : Option ObjectId) : Option ObjectId :=
  h.find? (fun _ => true) after?

/-- Of two names for one slot at most one means an object. -/
theorem eq_of_isSome_get? {h : Heap} {id id' : ObjectId} (hid : (h.get? id).isSome = true)
    (hid' : (h.get? id').isSome = true) (hindex : id.index.toNat = id'.index.toNat) : id = id' := by
  have hgeneration {i : ObjectId} {s : Slot} (hs : h.slots[i.index.toNat]? = some s)
      (hi : (h.get? i).isSome = true) : s.generation = i.generation := by
    rw [get?, Option.isSome_map, occupant?, hs] at hi
    dsimp only at hi
    split at hi
    · assumption
    · cases hi
  cases hs : h.slots[id.index.toNat]? with
  | none =>
    rw [get?, occupant?, hs] at hid
    cases hid
  | some s =>
    have hs' : h.slots[id'.index.toNat]? = some s := hindex ▸ hs
    have hsame : id.generation = id'.generation := (hgeneration hs hid).symm.trans (hgeneration hs' hid')
    cases id
    cases id'
    exact ObjectId.mk.injEq .. ▸ ⟨UInt32.toNat_inj.1 hindex, hsame⟩

theorem index_lt_of_isSome_get? {h : Heap} {id : ObjectId} (hid : (h.get? id).isSome = true) :
    id.index.toNat < h.slots.size := by
  cases hs : h.slots[id.index.toNat]? with
  | none =>
    rw [get?, occupant?, hs] at hid
    cases hid
  | some s => exact (Array.getElem?_eq_some_iff.1 hs).1

/-- There are no more than `n` numbers below `n`. -/
theorem length_le_of_nodup_of_lt {n : Nat} {is : List Nat} (hnodup : is.Nodup)
    (hlt : ∀ i ∈ is, i < n) : is.length ≤ n := by
  induction n generalizing is with
  | zero => exact Nat.le_of_eq (List.length_eq_zero_iff.2 (List.eq_nil_iff_forall_not_mem.2
      fun i hi => Nat.not_lt_zero i (hlt i hi)))
  | succ n ih =>
    have herase := ih (hnodup.erase n) fun i hi => by
      obtain ⟨hne, hi⟩ := hnodup.mem_erase_iff.1 hi
      exact Nat.lt_of_le_of_ne (Nat.le_of_lt_succ (hlt i hi)) hne
    by_cases hn : n ∈ is
    · rw [List.length_erase_of_mem hn] at herase
      omega
    · rw [List.erase_of_not_mem hn] at herase
      omega

/-- There are no more objects than slots. -/
theorem length_le_size (h : Heap) (ids : List ObjectId) (hnodup : ids.Nodup)
    (hids : ∀ id ∈ ids, (h.get? id).isSome = true) : ids.length ≤ h.slots.size := by
  rw [← List.length_map (f := fun id : ObjectId => id.index.toNat)]
  refine length_le_of_nodup_of_lt ?_ fun i hi => ?_
  · refine List.pairwise_map.2 (hnodup.imp_of_mem fun ha hb hne hindex => hne ?_)
    exact eq_of_isSome_get? (hids _ ha) (hids _ hb) hindex
  · obtain ⟨id, hid, rfl⟩ := List.mem_map.1 hi
    exact index_lt_of_isSome_get? (hids id hid)

/-- The objects as a place to look up inherited properties in. -/
def source (h : Heap) : Inheritance.Source where
  body? id := (h.get? id).map Object.body
  bound := h.slots.size
  finite ids hnodup hids := h.length_le_size ids hnodup fun id hid => by
    have := hids id hid
    rwa [Option.isSome_map] at this

/-! ## Slots -/

/-- Changes slot `i`, if it exists. -/
def modifySlot (h : Heap) (i : Nat) (f : Slot → Slot) : Heap :=
  match h.slots[i]? with
  | none => h
  | some s => { h with slots := h.slots.setIfInBounds i (f s) }

/-- Changes what a name means, if it means an object. -/
def modifyOccupant (h : Heap) (id : ObjectId) (f : Occupant → Occupant) : Heap :=
  h.modifySlot id.index.toNat fun s =>
    if s.generation = id.generation then { s with occupant? := s.occupant?.map f } else s

/-- Makes slot `i` exist. -/
def grow (h : Heap) (i : Nat) : Heap :=
  if i < h.slots.size then h
  else { h with slots := h.slots ++ Array.replicate (i + 1 - h.slots.size) {} }

/-- Whether there is an object in slot `i`. -/
def isOccupied (h : Heap) (i : Nat) : Bool :=
  match h.slots[i]? with
  | none => false
  | some s => s.occupant?.isSome

/-- The number of objects and of the values that they hold. -/
def weight (h : Heap) : Nat := (h.slots.toList.map Slot.weight).foldr (· + ·) 0

/-- Takes the object out of slot `i`, which becomes the next free one. -/
def vacate (h : Heap) (i : Nat) : Heap :=
  if h.isOccupied i then
    let last := h.slots[i]?.any Slot.isLast
    let h := h.modifySlot i Slot.vacated
    { h with
      free := UInt32.ofNat i :: h.free
      live := h.live - 1
      wrapped := h.wrapped || last }
  else h

/-! ## New objects -/

/-- Defines the object that an image gives the number `n`. -/
def define (n : UInt32) (object : Object) : HeapM ObjectId := do
  let id := ObjectId.ofImage n
  let settings := (← get).settings
  if n < HeapSettings.reserved then throw (.invalidObject id)
  if settings.maxObjects ≤ n then throw (.outOfMemory settings.maxObjects)
  modify (·.grow n.toNat)
  if (← get).isOccupied n.toNat then throw (.duplicateObject n)
  modify fun h =>
    let h := h.modifySlot n.toNat fun _ => ⟨0, some ⟨object, 0, true⟩⟩
    { h with live := h.live + 1 }
  return id

/-- Opens the empty slots to new objects, the lowest first. An empty slot is not
    left at generation zero, which is that of image objects. -/
def openHoles (h : Heap) : Heap :=
  let holes := (List.range h.slots.size).filter fun i =>
    HeapSettings.reserved.toNat ≤ i && !h.isOccupied i
  let opened := holes.foldl (fun h i => h.modifySlot i Slot.opened) h
  { opened with free := holes.map UInt32.ofNat }

/-- Puts a new object into slot `i`, with one count of it. -/
def occupy (h : Heap) (i : Nat) (object : Object) : Heap :=
  let h := h.modifySlot i fun s => { s with occupant? := some ⟨object, 1, false⟩ }
  { h with live := h.live + 1, allocated := h.allocated + 1 }

/-- Makes a new object. The caller owns one count of it, and gives up the counts
    of the values in it. -/
def alloc (object : Object) : HeapM ObjectId := do
  match (← get).free with
  | i :: rest =>
    modify fun h => { h with free := rest }.occupy i.toNat object
    let h ← get
    return ⟨i, (h.slots[i.toNat]?.map Slot.generation).getD 0⟩
  | [] =>
    let h ← get
    let i := UInt32.ofNat h.slots.size
    if h.settings.maxObjects ≤ i then throw (.outOfMemory h.settings.maxObjects)
    modify fun h => { h with slots := h.slots.push { generation := 1 } }.occupy i.toNat object
    return ⟨i, 1⟩

end Heap

end StoryMachine
