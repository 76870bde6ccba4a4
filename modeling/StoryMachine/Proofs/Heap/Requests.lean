import StoryMachine.Proofs.Heap.Alike

/-!
# Requests to tables with a past

A caller sends requests to an object table, one after the other, and gets answers. A table
with a past gives the answers of a new one, with later generations in the names.

* `Heap.Request`, `Heap.Answer`: what can be asked, and what is told;
* `Heap.answers`: the answers to one request after the other;
* `Request.answer_alike`, `Twins.answers_eq`: the answers of twins.
-/

namespace StoryMachine

namespace Heap

/-! ## Requests and answers -/

/-- What a caller asks for: an operation, or to be told about objects. -/
inductive Request where
  /-- An operation. -/
  | operation (op : Operation)
  /-- The name of the object after a given one by slot, or of the first one. -/
  | nextId (after? : Option ObjectId)
  /-- What a name means. -/
  | deref (id : ObjectId)
  /-- The number of counts of an object. -/
  | refCount (id : ObjectId)

/-- What the caller is told. -/
inductive Answer where
  /-- It has been done. -/
  | done
  /-- The name of an object, if there is one. -/
  | name (id? : Option ObjectId)
  /-- The object that a name means. -/
  | object (object : Object)
  /-- The number of counts, if the name means an object. -/
  | refCount (refs? : Option UInt32)
  /-- The value that was taken out. -/
  | value (v : Value)
  /-- Whether there was something to do. -/
  | found (b : Bool)
  /-- The number of a new savepoint. -/
  | savepoint (n : UInt32)
  /-- What a collection did. -/
  | stats (s : CollectStats)
  /-- Why it cannot be done. -/
  | failed (e : HeapError)
deriving DecidableEq

/-- Does the operation and tells what there is to tell. -/
def Operation.answer : Operation → HeapM Answer
  | .alloc object => do return .name (some (← Heap.alloc object))
  | .retain id => modifyGet fun h => (.done, h.retain id)
  | .release id => modifyGet fun h => (.done, h.release id)
  | .retainValue v => modifyGet fun h => (.done, h.retainValue v)
  | .releaseValue v => modifyGet fun h => (.done, h.releaseValue v)
  | .releaseValues vs => modifyGet fun h => (.done, h.releaseValues vs)
  | .setProp id p v => do Heap.setProp id p v; return .done
  | .removeProp id p => do return .found (← Heap.removeProp id p)
  | .setElement id index v => do Heap.setElement id index v; return .done
  | .insertElement id index v => do Heap.insertElement id index v; return .done
  | .removeElement id index => do return .value (← Heap.removeElement id index)
  | .putEntry id key v => do Heap.putEntry id key v; return .done
  | .removeEntry id key => do return .found (← Heap.removeEntry id key)
  | .beginSavepoint => modifyGet fun h => (.savepoint h.beginSavepoint.1, h.beginSavepoint.2)
  | .undoTo n => modifyGet fun h => (.found (h.undoTo n).1, (h.undoTo n).2)
  | .undoLast => modifyGet fun h => (.found h.undoLast.1, h.undoLast.2)
  | .commit => modifyGet fun h => (.done, h.commit)
  | .collect roots => modifyGet fun h => (.stats (h.collect roots).1, (h.collect roots).2)

/-- What the table tells, and what it is like then. -/
def Request.answer : Request → HeapM Answer
  | operation op => op.answer
  | nextId after? => do return .name ((← get).nextId? after?)
  | deref id => do
    match (← get).deref id with
    | .ok object => return .object object
    | .error e => throw e
  | refCount id => do return .refCount ((← get).refCount? id)

/-- The answer to a request with the number of objects there are then, and the table. -/
def Request.ask (r : Request) (h : Heap) : (Answer × Nat) × Heap :=
  match r.answer h with
  | .ok a h => ((a, h.live), h)
  | .error e h => ((.failed e, h.live), h)

/-- The table that is left, also by what fails. -/
def left {α : Type} (x : HeapM α) (h : Heap) : Heap :=
  match x h with
  | .ok _ h' => h'
  | .error _ h' => h'

theorem left_map {α β : Type} (x : HeapM α) (f : α → β) (h : Heap) :
    left (do return f (← x)) h = left x h := by
  simp only [left, bind, EStateM.bind]
  cases x h <;> rfl

theorem Request.heap_ask (r : Request) (h : Heap) : (r.ask h).2 = left r.answer h := by
  rw [ask, left]
  cases r.answer h <;> rfl

/-- The table after a request for an operation is that after the operation. -/
theorem Request.heap_ask_operation (op : Operation) (h : Heap) :
    ((operation op).ask h).2 = h.performed op := by
  have hleft : left op.answer h = left op.perform h := by
    cases op with
    | alloc | setProp | removeProp | setElement | insertElement | removeElement | putEntry | removeEntry =>
      exact (left_map ..).trans (left_map ..).symm
    | _ => rfl
  rw [heap_ask, answer, hleft, left, performed]
  cases op.perform h <;> rfl

/-- The answers to one request after the other. -/
def answers : List Request → Heap → List (Answer × Nat)
  | [], _ => []
  | r :: rs, h => (r.ask h).1 :: answers rs (r.ask h).2

/-! ## Other names -/

/-- An operation on objects with other names. -/
def Operation.rename (f : ObjectId → ObjectId) : Operation → Operation
  | .alloc object => .alloc (object.rename f)
  | .retain id => .retain (f id)
  | .release id => .release (f id)
  | .retainValue v => .retainValue (v.rename f)
  | .releaseValue v => .releaseValue (v.rename f)
  | .releaseValues vs => .releaseValues (vs.map (Value.rename f))
  | .setProp id p v => .setProp (f id) p (v.rename f)
  | .removeProp id p => .removeProp (f id) p
  | .setElement id index v => .setElement (f id) index (v.rename f)
  | .insertElement id index v => .insertElement (f id) index (v.rename f)
  | .removeElement id index => .removeElement (f id) index
  | .putEntry id key v => .putEntry (f id) (key.rename f) (v.rename f)
  | .removeEntry id key => .removeEntry (f id) (key.rename f)
  | .collect roots => .collect (roots.map (Value.rename f))
  | op => op

/-- The same request about objects with other names. -/
def Request.rename (f : ObjectId → ObjectId) : Request → Request
  | operation op => .operation (op.rename f)
  | nextId after? => .nextId (after?.map f)
  | deref id => .deref (f id)
  | refCount id => .refCount (f id)

/-- The same answer with other names in it. -/
def Answer.rename (f : ObjectId → ObjectId) : Answer → Answer
  | name id? => .name (id?.map f)
  | object o => .object (o.rename f)
  | value v => .value (v.rename f)
  | failed e => .failed (e.rename f)
  | a => a

/-! ## The answers of twins -/

section Answers

variable {ages : Nat → Nat} {h h' : Heap}

/-- An operation that always succeeds and tells nothing. -/
theorem Alike.done {u u' : Heap → Heap} (hu : ∀ h h', h.Twins ages h' → (u h).Twins ages (u' h')) :
    Alike ages (Answer.rename (.later ages)) (MonadState.modifyGet fun h => (Answer.done, u h))
      (MonadState.modifyGet fun h => (Answer.done, u' h)) :=
  .modifyGet fun _ _ ht => ⟨rfl, hu _ _ ht⟩

/-- What is told is told with other names. -/
theorem Alike.tell {α : Type} {g : α → α} {x x' : HeapM α} (hx : Alike ages g x x') {t : α → Answer}
    (ht : ∀ a, t (g a) = (t a).rename (.later ages)) :
    Alike ages (Answer.rename (.later ages)) (do return t (← x)) (do return t (← x')) :=
  hx.bind fun a => .pure (ht a)

theorem Operation.answer_alike (op : Operation) :
    Alike ages (Answer.rename (.later ages)) op.answer (op.rename (.later ages)).answer := by
  cases op with
  | alloc object => exact Alike.tell (fun _ _ ht => ht.alloc object) fun _ => rfl
  | retain id => exact .done fun _ _ ht => ht.retain id
  | release id => exact .done fun _ _ ht => ht.release id
  | retainValue v => exact .done fun _ _ ht => ht.retainValue v
  | releaseValue v => exact .done fun _ _ ht => ht.releaseValues [v]
  | releaseValues vs => exact .done fun _ _ ht => ht.releaseValues vs
  | setProp id p v => exact (setProp_alike id p v).bind fun _ => .pure rfl
  | removeProp id p => exact (removeProp_alike id p).tell fun _ => rfl
  | setElement id index v => exact (setElement_alike id index v).bind fun _ => .pure rfl
  | insertElement id index v => exact (insertElement_alike id index v).bind fun _ => .pure rfl
  | removeElement id index => exact (removeElement_alike id index).tell fun _ => rfl
  | putEntry id key v => exact (putEntry_alike id key v).bind fun _ => .pure rfl
  | removeEntry id key => exact (removeEntry_alike id key).tell fun _ => rfl
  | beginSavepoint =>
    exact .modifyGet fun _ _ ht => ⟨congrArg Answer.savepoint ht.beginSavepoint.1, ht.beginSavepoint.2⟩
  | undoTo n => exact .modifyGet fun _ _ ht => ⟨congrArg Answer.found (ht.undoTo n).1, (ht.undoTo n).2⟩
  | undoLast => exact .modifyGet fun _ _ ht => ⟨congrArg Answer.found ht.undoLast.1, ht.undoLast.2⟩
  | commit => exact .done fun _ _ ht => ht.commit
  | collect roots =>
    exact .modifyGet fun _ _ ht => ⟨congrArg Answer.stats (ht.collect roots).1, (ht.collect roots).2⟩

/-- A request to twins is answered alike. -/
theorem Request.answer_alike (r : Request) :
    Alike ages (Answer.rename (.later ages)) r.answer (r.rename (.later ages)).answer := by
  cases r with
  | operation op => exact op.answer_alike
  | nextId after? => exact fun h h' ht => ⟨congrArg Answer.name (ht.nextId? after?), ht⟩
  | deref id =>
    intro h h' ht
    have ho := ht.occupant? id
    simp only [answer, rename, bind, EStateM.bind, get, getThe, MonadStateOf.get, EStateM.get, Heap.deref,
      Heap.get?, ho]
    cases h.occupant? id <;> exact ⟨rfl, ht⟩
  | refCount id =>
    refine fun h h' ht => ⟨congrArg Answer.refCount ?_, ht⟩
    rw [Heap.refCount?, Heap.refCount?, ht.occupant?, Option.map_map]
    rfl

/-- Twins are twins after a request. -/
theorem Twins.ask (ht : h.Twins ages h') (r : Request) :
    ((r.rename (.later ages)).ask h').1 = (r.ask h).1.map (Answer.rename (.later ages)) id ∧
      (r.ask h).2.Twins ages ((r.rename (.later ages)).ask h').2 := by
  have hagree := r.answer_alike h h' ht
  unfold Request.ask
  cases hr : r.answer h with
  | ok a k =>
    cases hr' : (r.rename (.later ages)).answer h' with
    | ok a' k' =>
      rw [hr, hr'] at hagree
      exact ⟨Prod.ext hagree.1 hagree.2.live, hagree.2⟩
    | error e' k' =>
      rw [hr, hr'] at hagree
      exact hagree.elim
  | error e k =>
    cases hr' : (r.rename (.later ages)).answer h' with
    | ok a' k' =>
      rw [hr, hr'] at hagree
      exact hagree.elim
    | error e' k' =>
      rw [hr, hr'] at hagree
      exact ⟨Prod.ext (congrArg Answer.failed hagree.1) hagree.2.live, hagree.2⟩

/-- A table with a past answers whatever it is asked as a new one does. -/
theorem Twins.answers_eq (ht : h.Twins ages h') (rs : List Request) :
    answers (rs.map (Request.rename (.later ages))) h' =
      (answers rs h).map (Prod.map (Answer.rename (.later ages)) id) := by
  induction rs generalizing h h' with
  | nil => rfl
  | cons r rs ih =>
    obtain ⟨hanswer, hnext⟩ := ht.ask r
    rw [List.map_cons, answers, answers, List.map_cons, hanswer, ih hnext]

end Answers

end Heap

end StoryMachine
