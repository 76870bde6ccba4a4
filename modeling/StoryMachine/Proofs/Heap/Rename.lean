import Mathlib.Data.List.InsertIdx
import StoryMachine.Heap.Basic
import StoryMachine.Heap.Counts

/-!
# Other names for objects

Objects may be given other names, everywhere where they are named. As long as no two of
them get the same name, nothing that is done with bodies and changes tells the
difference.

* `Value.rename`, `Body.rename`, `Change.rename`: values, bodies and changes with other
  names in them;
* `Body.edges_rename`, `Change.revert_rename`: what is done with them.
-/

namespace StoryMachine

variable {f : ObjectId → ObjectId}

/-! ## Values -/

/-- A value with another name in it. -/
def Value.rename (f : ObjectId → ObjectId) : Value → Value
  | .obj id => .obj (f id)
  | v => v

namespace Value

theorem rename_injective (hf : Function.Injective f) : Function.Injective (rename f) := by
  intro v w h
  cases v <;> cases w <;> first
    | exact h
    | cases h
    | exact congrArg obj (hf (obj.inj h))

theorem beq_rename (hf : Function.Injective f) (v w : Value) :
    (v.rename f == w.rename f) = (v == w) := by
  rw [Bool.eq_iff_iff, beq_iff_eq, beq_iff_eq, (rename_injective hf).eq_iff]

theorem obj?_rename (v : Value) : (v.rename f).obj? = v.obj?.map f := by cases v <;> rfl

theorem objects_rename (vs : List Value) : objects (vs.map (rename f)) = (objects vs).map f := by
  rw [objects, objects, List.filterMap_map, List.map_filterMap]
  exact congrArg (List.filterMap · vs) (funext obj?_rename)

end Value

/-! ## Bodies -/

namespace PropTable

/-- A table with other names in its values. -/
def rename (f : ObjectId → ObjectId) (t : PropTable) : PropTable where
  entries := t.entries.map (Prod.map id (Value.rename f))
  ascending := List.pairwise_map.2 t.ascending

theorem ext {t t' : PropTable} (h : t.entries = t'.entries) : t = t' := by
  cases t
  cases t'
  cases h
  rfl

theorem get?_rename (t : PropTable) (p : PropId) : (t.rename f).get? p = (t.get? p).map (Value.rename f) := by
  rw [get?, get?, rename, List.find?_map, Option.map_map, Option.map_map]
  rfl

theorem insertEntry_map (p : PropId) (v : Value) (es : List (PropId × Value)) :
    insertEntry p (v.rename f) (es.map (Prod.map id (Value.rename f))) =
      (insertEntry p v es).map (Prod.map id (Value.rename f)) := by
  induction es with
  | nil => rfl
  | cons e es ih =>
    obtain ⟨q, w⟩ := e
    simp only [List.map_cons, Prod.map, id, insertEntry]
    split
    · rw [List.map_cons]
      exact congrArg _ ih
    split
    · rfl
    · rfl

theorem set_rename (t : PropTable) (p : PropId) (v : Value) :
    (t.rename f).set p (v.rename f) = (t.set p v).rename f :=
  ext (insertEntry_map p v t.entries)

theorem erase_rename (t : PropTable) (p : PropId) : (t.rename f).erase p = (t.erase p).rename f :=
  ext (List.filter_map ..)

end PropTable

namespace Body

/-- A body with other names in it. -/
def rename (f : ObjectId → ObjectId) : Body → Body
  | program supers props => .program (supers.map f) (props.rename f)
  | list items => .list (items.map (Value.rename f))
  | vector items => .vector (items.map (Value.rename f))
  | string text => .string text
  | table entries => .table (entries.map (Prod.map (Value.rename f) (Value.rename f)))

theorem edges_rename (b : Body) : (b.rename f).edges = b.edges.map (Value.rename f) := by
  cases b with
  | program supers props =>
    simp only [rename, edges, PropTable.rename, List.map_append, List.map_map]
    rfl
  | table entries =>
    simp only [rename, edges, List.flatMap_map, List.map_flatMap, List.map_cons, List.map_nil, Prod.map]
  | _ => rfl

/-- A body in which no name changes stays the same. -/
theorem rename_eq_self {b : Body} (hb : ∀ v ∈ b.edges, v.rename f = v) : b.rename f = b := by
  have hmap {α : Type} {g : α → α} {xs : List α} (hg : ∀ x ∈ xs, g x = x) : xs.map g = xs :=
    (List.map_congr_left hg).trans (List.map_id' xs)
  cases b with
  | program supers props =>
    have hsupers : supers.map f = supers := hmap fun id hid =>
      Value.obj.inj (hb (.obj id) (List.mem_append_left _ (List.mem_map_of_mem hid)))
    have hprops : props.rename f = props := PropTable.ext <| hmap fun e he =>
      Prod.ext rfl (hb e.2 (List.mem_append_right _ (List.mem_map_of_mem he)))
    rw [rename, hsupers, hprops]
  | list items => exact congrArg list (hmap hb)
  | vector items => exact congrArg vector (hmap hb)
  | string text => rfl
  | table entries =>
    refine congrArg table (hmap fun e he => ?_)
    have hmem (v : Value) (hv : v ∈ [e.1, e.2]) : v ∈ (table entries).edges :=
      List.mem_flatMap.2 ⟨e, he, hv⟩
    exact Prod.ext (hb _ (hmem _ (by simp))) (hb _ (hmem _ (by simp)))

end Body

/-- An object with other names in it. -/
def Object.rename (f : ObjectId → ObjectId) (o : Object) : Object := { o with body := o.body.rename f }

/-- An object in its slot with other names in it. -/
def Occupant.rename (f : ObjectId → ObjectId) (o : Occupant) : Occupant :=
  { o with object := o.object.rename f }

/-! ## Changes -/

namespace Change

/-- A change with other names in it. -/
def rename (f : ObjectId → ObjectId) : Change → Change
  | prop p prior => .prop p (prior.map (Value.rename f))
  | element index prior => .element index (prior.rename f)
  | inserted index => .inserted index
  | removed index prior => .removed index (prior.rename f)
  | entry index key prior => .entry index (key.rename f) (prior.map (Value.rename f))
  | entryRemoved index key value => .entryRemoved index (key.rename f) (value.rename f)

theorem values_rename (c : Change) : (c.rename f).values = c.values.map (Value.rename f) := by
  cases c with
  | prop p prior => cases prior <;> rfl
  | entry index key prior => cases prior <;> rfl
  | _ => rfl

/-- Going back is the same with other names. -/
theorem revert_rename (hf : Function.Injective f) (c : Change) (body : Body) :
    (c.rename f).revert (body.rename f) =
      ((c.revert body).1.rename f, (c.revert body).2.map (Value.rename f)) := by
  have hmismatch : (body.rename f, (c.rename f).values) =
      (body.rename f, c.values.map (Value.rename f)) := by rw [values_rename]
  cases body with
  | program supers props =>
    cases c with
    | prop p prior =>
      cases prior with
      | none =>
        simp only [rename, Body.rename, revert, Option.map_none, PropTable.erase_rename, PropTable.get?_rename]
        cases props.get? p <;> rfl
      | some v =>
        simp only [rename, Body.rename, revert, Option.map_some, PropTable.set_rename, PropTable.get?_rename]
        cases props.get? p <;> rfl
    | _ => exact hmismatch
  | vector items =>
    cases c with
    | element index prior =>
      simp only [rename, Body.rename, revert, List.getElem?_map]
      cases items[index]? with
      | none => rfl
      | some current =>
        simp only [Option.map_some, List.map_set]
        rfl
    | inserted index =>
      simp only [rename, Body.rename, revert, List.getElem?_map]
      cases items[index]? with
      | none => rfl
      | some current =>
        simp only [Option.map_some, List.eraseIdx_map]
        rfl
    | removed index prior =>
      simp only [rename, Body.rename, revert, List.length_map]
      split
      · simp only [List.map_insertIdx, List.map_nil]
      · rfl
    | _ => exact hmismatch
  | table entries =>
    cases c with
    | entry index key prior =>
      have hkey (e : Value × Value) : (e.1.rename f == key.rename f) = (e.1 == key) :=
        Value.beq_rename hf e.1 key
      simp only [rename, Body.rename, revert, List.getElem?_map]
      cases hentry : entries[index]? with
      | none => cases prior <;> rfl
      | some e =>
        simp only [Option.map_some, Option.filter_some, Prod.map, hkey]
        cases e.1 == key with
        | false => cases prior <;> rfl
        | true =>
          cases prior with
          | none =>
            simp only [if_true, Option.map_none, List.eraseIdx_map]
            rfl
          | some v =>
            simp only [if_true, Option.map_some, List.map_set]
            rfl
    | entryRemoved index key value =>
      simp only [rename, Body.rename, revert, List.length_map, List.map_insertIdx, Prod.map, List.map_nil]
    | _ => exact hmismatch
  | _ => cases c <;> exact hmismatch

end Change

namespace UndoRecord

/-- A record with other names in it. -/
def rename (f : ObjectId → ObjectId) (r : UndoRecord) : UndoRecord := ⟨f r.target, r.change.rename f⟩

theorem values_rename (r : UndoRecord) : (r.rename f).values = r.values.map (Value.rename f) :=
  congrArg (Value.obj (f r.target) :: ·) r.change.values_rename

end UndoRecord

namespace UndoLog

/-- A log with other names in it. -/
def rename (f : ObjectId → ObjectId) (log : UndoLog) : UndoLog :=
  { log with records := log.records.map (UndoRecord.rename f) }

theorem values_rename (log : UndoLog) : (log.rename f).values = log.values.map (Value.rename f) := by
  rw [values, values, rename, Array.toList_map, List.flatMap_map, List.map_flatMap]
  exact congrArg (List.flatMap · log.records.toList) (funext UndoRecord.values_rename)

end UndoLog

end StoryMachine
