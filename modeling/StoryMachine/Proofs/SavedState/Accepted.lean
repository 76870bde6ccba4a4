import StoryMachine.Proofs.Bytes
import StoryMachine.Proofs.Heap.Slots
import StoryMachine.SavedState.Format

/-!
# What is accepted as a saved state

Whatever the bytes are, a state that they are taken to hold has been checked as a
whole: each of its objects can be put into the table, into a slot of its own, is of
a metaclass for its kind, and refers only to objects of the state.

* `SavedState.Admissible`: what is checked;
* `checkReferences_eq_ok_iff`: references are checked for what they should be;
* `admissible_of_parse`: what is accepted has been checked.
-/

namespace StoryMachine

/-- An object is of a metaclass for the kind of its body. -/
def Object.Typed (t : MetaclassTable) (o : Object) : Prop :=
  (t.get? o.metaclass).map (·.kind) = some o.body.kind

instance (t : MetaclassTable) (o : Object) : Decidable (o.Typed t) :=
  inferInstanceAs (Decidable (_ = _))

namespace SavedState

variable {h : Heap} {t : MetaclassTable} {identity bs rest : Bytes} {s : SavedState}

/-- The values that the objects and the globals of a state hold. -/
def held (s : SavedState) : List Value := s.objects.flatMap (·.object.body.edges) ++ s.globals

/-- Every object that something in the state refers to is one of it. -/
def Closed (s : SavedState) : Prop := ∀ id, .obj id ∈ s.held → id ∈ s.objects.map (·.id)

theorem closed_iff : s.Closed ↔ ∀ v ∈ s.held, ∀ id ∈ v.obj?, id ∈ s.objects.map (·.id) := by
  refine ⟨fun hs v hv id hid => hs id ?_, fun hs id hid => hs _ hid id rfl⟩
  cases v with
  | obj id' => exact Option.some.inj hid ▸ hv
  | _ => cases hid

instance (s : SavedState) : Decidable s.Closed := decidable_of_iff' _ closed_iff

/-- Objects that can be put into a table. -/
structure Placeable (h : Heap) (t : MetaclassTable) (os : List SavedObject) : Prop where
  /-- The table could have each object. -/
  restorable : ∀ o ∈ os, h.checkRestorable o.id = .ok ()
  /-- No two objects have one slot. -/
  distinct : (os.map (·.id.index)).Nodup
  /-- The objects are of metaclasses for their kinds. -/
  typed : ∀ o ∈ os, o.object.Typed t

instance (h : Heap) (t : MetaclassTable) (os : List SavedObject) : Decidable (Placeable h t os) :=
  decidable_of_iff ((∀ o ∈ os, h.checkRestorable o.id = .ok ()) ∧ (os.map (·.id.index)).Nodup ∧
      ∀ o ∈ os, o.object.Typed t)
    ⟨fun ⟨h₁, h₂, h₃⟩ => ⟨h₁, h₂, h₃⟩, fun ⟨h₁, h₂, h₃⟩ => ⟨h₁, h₂, h₃⟩⟩

/-- A state that can be put in place of another. -/
structure Admissible (s : SavedState) (h : Heap) (t : MetaclassTable) : Prop where
  /-- Its objects can be put into the table. -/
  placeable : Placeable h t s.objects
  /-- They and the globals refer to nothing else. -/
  closed : s.Closed

/-! ## References -/

theorem contains_known (s : SavedState) (id : ObjectId) :
    s.known.contains (id.index, id.generation) = true ↔ id ∈ s.objects.map (·.id) := by
  have hfold (os : List SavedObject) (known : Std.HashSet (UInt32 × UInt32)) :
      (os.foldl (fun known o => known.insert (o.id.index, o.id.generation)) known).contains
        (id.index, id.generation) = true ↔
        known.contains (id.index, id.generation) = true ∨ id ∈ os.map (·.id) := by
    induction os generalizing known with
    | nil => simp
    | cons o os ih =>
      have hid : (o.id.index, o.id.generation) = (id.index, id.generation) ↔ id = o.id := by
        rw [Prod.mk.injEq, eq_comm (a := id), ObjectId.mk.injEq]
      rw [List.foldl_cons, ih, Std.HashSet.contains_insert, Bool.or_eq_true, beq_iff_eq, hid,
        List.map_cons, List.mem_cons]
      tauto
  rw [known, hfold]
  simp

theorem dangles_known_iff {v : Value} :
    dangles s.known v = true ↔ ∃ id, v = .obj id ∧ id ∉ s.objects.map (·.id) := by
  cases v with
  | obj id =>
    rw [dangles, Bool.not_eq_true', ← Bool.not_eq_true, contains_known]
    simp
  | _ => simp [dangles]

/-- References are accepted if all of them are to objects of the state. -/
theorem checkReferences_eq_ok_iff : s.checkReferences = .ok () ↔ s.Closed := by
  have hclosed : s.Closed ↔ (∀ o ∈ s.objects, ¬o.object.body.edges.any (dangles s.known)) ∧
      ¬s.globals.any (dangles s.known) := by
    simp only [Closed, held, List.any_eq_true, dangles_known_iff, List.mem_append,
      List.mem_flatMap]
    grind
  rw [hclosed, checkReferences, ← List.find?_eq_none]
  split
  · next hsome => simp [hsome]
  · next hnone => simp [hnone]

/-! ## Objects -/

theorem kind_of_body {kind : Kind} {b : Body} (hb : body kind bs = .ok (b, rest)) :
    b.kind = kind := by
  cases kind with
  | program =>
    obtain ⟨_, _, -, hb⟩ := Parser.bind_eq_ok.1 hb
    obtain ⟨_, _, -, hb⟩ := Parser.bind_eq_ok.1 hb
    obtain ⟨_, _, -, hb⟩ := Parser.bind_eq_ok.1 hb
    obtain ⟨_, _, -, hb⟩ := Parser.bind_eq_ok.1 hb
    rw [← (Parser.pure_eq_ok.1 hb).1, Body.kind]
  | list | vector =>
    obtain ⟨_, _, -, hb⟩ := Parser.bind_eq_ok.1 hb
    rw [← (Parser.pure_eq_ok.1 hb).1, Body.kind]
  | string | table =>
    obtain ⟨_, _, -, hb⟩ := Parser.bind_eq_ok.1 hb
    obtain ⟨_, _, -, hb⟩ := Parser.bind_eq_ok.1 hb
    rw [← (Parser.pure_eq_ok.1 hb).1, Body.kind]

theorem objectOf_eq_ok {id : ObjectId} {o : SavedObject}
    (ho : objectOf t id bs = .ok (o, rest)) : o.id = id ∧ o.object.Typed t := by
  obtain ⟨_, _, -, ho⟩ := Parser.bind_eq_ok.1 ho
  obtain ⟨name, _, -, ho⟩ := Parser.bind_eq_ok.1 ho
  cases hname : t.idByName? name with
  | none =>
    rw [hname] at ho
    cases ho
  | some metaclass =>
    simp only [hname] at ho
    cases hentry : t.get? metaclass with
    | none =>
      rw [hentry] at ho
      cases ho
    | some entry =>
      simp only [hentry] at ho
      obtain ⟨b, _, hb, ho⟩ := Parser.bind_eq_ok.1 ho
      obtain ⟨rfl, -⟩ := Parser.pure_eq_ok.1 ho
      exact ⟨rfl, by rw [Object.Typed, hentry, Option.map_some, kind_of_body hb]⟩

theorem checkId_eq_ok {id : ObjectId} (hid : checkId h id = .ok ()) :
    h.checkRestorable id = .ok () := by
  unfold checkId at hid
  split at hid
  · assumption
  · cases hid

/-- The induction is on the number of objects that are still to be read. -/
theorem placeable_of_objectsAfter {n : Nat} {slots : Std.HashSet UInt32}
    {read os : List SavedObject} (hread : Placeable h t read)
    (hslots : ∀ o ∈ read, slots.contains o.id.index = true)
    (hos : objectsAfter h t n slots read bs = .ok (os, rest)) : Placeable h t os := by
  induction n generalizing slots read bs with
  | zero =>
    obtain ⟨rfl, -⟩ := Parser.pure_eq_ok.1 hos
    exact ⟨by simpa using hread.restorable, by simpa using hread.distinct,
      by simpa using hread.typed⟩
  | succ n ih =>
    obtain ⟨id, _, -, hos⟩ := Parser.bind_eq_ok.1 hos
    obtain ⟨_, _, hlift, hos⟩ := Parser.bind_eq_ok.1 hos
    obtain ⟨hcheck, rfl⟩ := Parser.lift_eq_ok.1 hlift
    obtain ⟨hnew, hos⟩ := Parser.guard_eq_ok.1 hos
    obtain ⟨o, _, ho, hos⟩ := Parser.bind_eq_ok.1 hos
    obtain ⟨rfl, htyped⟩ := objectOf_eq_ok ho
    -- The object joins those that have been read, and its slot is taken from then on.
    refine ih ⟨?_, ?_, ?_⟩ ?_ hos
    · exact List.forall_mem_cons.2 ⟨checkId_eq_ok hcheck, hread.restorable⟩
    · refine List.nodup_cons.2 ⟨fun hmem => ?_, hread.distinct⟩
      obtain ⟨o', ho', heq⟩ := List.mem_map.1 hmem
      have heq : o'.id.index = o.id.index := heq
      exact hnew (heq ▸ hslots o' ho')
    · exact List.forall_mem_cons.2 ⟨htyped, hread.typed⟩
    · refine List.forall_mem_cons.2 ⟨Std.HashSet.contains_insert_self, fun o' ho' => ?_⟩
      rw [Std.HashSet.contains_insert, hslots o' ho', Bool.or_true]

/-! ## Whole states -/

theorem placeable_of_state (hs : state h t bs = .ok (s, rest)) : Placeable h t s.objects := by
  obtain ⟨n, _, -, hs⟩ := Parser.bind_eq_ok.1 hs
  obtain ⟨os, _, hos, hs⟩ := Parser.bind_eq_ok.1 hs
  obtain ⟨_, _, -, hs⟩ := Parser.bind_eq_ok.1 hs
  obtain ⟨globals, _, -, hs⟩ := Parser.bind_eq_ok.1 hs
  obtain ⟨_, _, -, hs⟩ := Parser.bind_eq_ok.1 hs
  obtain ⟨-, hs⟩ := Parser.guard_eq_ok.1 hs
  obtain ⟨rfl, -⟩ := Parser.pure_eq_ok.1 hs
  exact placeable_of_objectsAfter ⟨by simp, by simp, by simp⟩ (by simp) hos

/-- What is accepted has been checked as a whole. -/
theorem admissible_of_parse (hp : parse h t identity bs = .ok s) : s.Admissible h t := by
  obtain ⟨content, -, hp⟩ := Except.bind_eq_ok.1 hp
  obtain ⟨⟨owner, rest⟩, -, hp⟩ := Except.bind_eq_ok.1 hp
  obtain ⟨-, hp⟩ := Except.guard_eq_ok.1 hp
  obtain ⟨⟨s, _⟩, hs, hp⟩ := Except.bind_eq_ok.1 hp
  obtain ⟨_, hclosed, hp⟩ := Except.bind_eq_ok.1 hp
  obtain rfl := Except.ok.inj hp
  exact ⟨placeable_of_state hs, checkReferences_eq_ok_iff.1 hclosed⟩

end SavedState

end StoryMachine
