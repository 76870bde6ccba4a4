import StoryMachine.Proofs.Heap.Collect
import StoryMachine.Proofs.Heap.Image
import StoryMachine.Proofs.Heap.Savepoint

/-!
# Whole runs of a table

A caller of the object table owns counts. It gives them up for the values that it
stores or releases, and gets them for new objects and for values that it retains
or takes out. As long as it gives up none that it does not own, and names what it
owns among the roots of a collection, every count is owned by somebody after any
number of operations.

* `Heap.Operation`: the operations, with what each gives up and hands out;
* `Client`: a table and what its caller owns;
* `Heap.Does`, `Operation.performs`: what an operation comes down to;
* `Counted.does`: one operation keeps the counts;
* `refs_eq_occurrences`: what this says about every run.
-/

namespace StoryMachine

namespace Heap

/-- What a caller can ask of an object table. -/
inductive Operation where
  /-- A new object. -/
  | alloc (object : Object)
  /-- One more count of an object. -/
  | retain (id : ObjectId)
  /-- One count less. -/
  | release (id : ObjectId)
  /-- One more count of what a value names. -/
  | retainValue (v : Value)
  /-- One count less of it. -/
  | releaseValue (v : Value)
  /-- One count less for each value. -/
  | releaseValues (vs : List Value)
  /-- A property is set. -/
  | setProp (id : ObjectId) (p : PropId) (v : Value)
  /-- A property is taken away. -/
  | removeProp (id : ObjectId) (p : PropId)
  /-- An element is replaced. -/
  | setElement (id : ObjectId) (index : Nat) (v : Value)
  /-- An element is put in. -/
  | insertElement (id : ObjectId) (index : Nat) (v : Value)
  /-- An element is taken out. -/
  | removeElement (id : ObjectId) (index : Nat)
  /-- A key gets a value. -/
  | putEntry (id : ObjectId) (key v : Value)
  /-- A key is taken away. -/
  | removeEntry (id : ObjectId) (key : Value)
  /-- A new savepoint. -/
  | beginSavepoint
  /-- Back to a savepoint. -/
  | undoTo (n : UInt32)
  /-- Back to the latest savepoint. -/
  | undoLast
  /-- No going back any more. -/
  | commit
  /-- A collection. -/
  | collect (roots : List Value)
deriving DecidableEq

/-- The values that name an object of the table. -/
def liveAmong (h : Heap) (vs : List Value) : List Value := vs.filter fun v => v.obj?.any h.contains

namespace Operation

/-- The values whose counts the caller gives up. -/
def gives : Operation → List Value
  | alloc object => object.body.edges
  | release id => [.obj id]
  | releaseValue v => [v]
  | releaseValues vs => vs
  | setProp _ _ v => [v]
  | setElement _ _ v => [v]
  | insertElement _ _ v => [v]
  | putEntry _ key v => [key, v]
  | _ => []

/-- The roots of a collection. -/
def roots? : Operation → Option (List Value)
  | collect roots => some roots
  | _ => none

/-- Does the operation, and says which values the caller gets a count of. -/
def perform : Operation → HeapM (List Value)
  | alloc object => do return [.obj (← Heap.alloc object)]
  | retain id => modifyGet fun h => (h.liveAmong [.obj id], h.retain id)
  | release id => modifyGet fun h => ([], h.release id)
  | retainValue v => modifyGet fun h => (h.liveAmong [v], h.retainValue v)
  | releaseValue v => modifyGet fun h => ([], h.releaseValue v)
  | releaseValues vs => modifyGet fun h => ([], h.releaseValues vs)
  | setProp id p v => do Heap.setProp id p v; return []
  | removeProp id p => do let _ ← Heap.removeProp id p; return []
  | setElement id index v => do Heap.setElement id index v; return []
  | insertElement id index v => do Heap.insertElement id index v; return []
  | removeElement id index => do return [← Heap.removeElement id index]
  | putEntry id key v => do Heap.putEntry id key v; return []
  | removeEntry id key => do let _ ← Heap.removeEntry id key; return []
  | beginSavepoint => modifyGet fun h => ([], h.beginSavepoint.2)
  | undoTo n => modifyGet fun h => ([], (h.undoTo n).2)
  | undoLast => modifyGet fun h => ([], h.undoLast.2)
  | commit => modifyGet fun h => ([], h.commit)
  | collect roots => modifyGet fun h => ([], (h.collect roots).2)

end Operation

/-- The savepoint that an operation goes back to. -/
def Operation.undoes? (h : Heap) : Operation → Option UInt32
  | undoTo n => some n
  | undoLast => h.undo.savepoints.getLast?.map Savepoint.id
  | _ => none

/-- What an operation that succeeds comes down to. -/
inductive Does (h : Heap) : Operation → List Value → Heap → Prop where
  /-- There was nothing to do. -/
  | idle {op : Operation} (hgives : op.gives = []) : Does h op [] h
  /-- A new object was made. -/
  | alloc {object : Object} {id : ObjectId} {h' : Heap} (ha : h.Allocated object id h') :
      Does h (.alloc object) [.obj id] h'
  /-- An object was changed. -/
  | edit {op : Operation} {id : ObjectId} {taken : List Value} {h' : Heap}
      (he : h.Edit id op.gives taken h') : Does h op taken h'
  /-- A value was retained. -/
  | retain {op : Operation} (v : Value) (hgives : op.gives = []) :
      Does h op (h.liveAmong [v]) (h.retainValue v)
  /-- What was given up was released. -/
  | release {op : Operation} : Does h op [] (h.releaseValues op.gives)
  /-- A savepoint was set. -/
  | beginSavepoint : Does h .beginSavepoint [] h.beginSavepoint.2
  /-- Changes were reverted. -/
  | undo {op : Operation} (n : UInt32) (hn : op.undoes? h = some n) (hgives : op.gives = []) :
      Does h op [] (h.undoTo n).2
  /-- The log was cleared. -/
  | commit : Does h .commit [] h.commit
  /-- The objects that cannot be reached were freed. -/
  | collect (roots : List Value) : Does h (.collect roots) [] (h.collect roots).2

variable {stale : Bool} {h h' : Heap} {rest : Multiset Value} {op : Operation} {taken : List Value}

/-- An operation changes nothing if it fails. -/
def Performs (h : Heap) (op : Operation) (x : HeapM (List Value)) : Prop :=
  (∃ e, x h = .error e h) ∨ ∃ taken h', x h = .ok taken h' ∧ h.Does op taken h'

theorem EditsAt.performs {α : Type} {x : HeapM α} {id : ObjectId} {taken : α → List Value}
    (he : EditsAt x h id op.gives taken) : h.Performs op (do return taken (← x)) := by
  rcases he with ⟨e, he⟩ | ⟨a, h', hok, hedit | ⟨rfl, hg, htk⟩⟩
  · exact .inl ⟨e, by simp only [bind, EStateM.bind, he]⟩
  · exact .inr ⟨_, h', by simp only [bind, EStateM.bind, hok, pure, EStateM.pure], .edit hedit⟩
  · refine .inr ⟨[], _, ?_, .idle hg⟩
    simp only [bind, EStateM.bind, hok, pure, EStateM.pure, htk]

/-- An operation on what is there fails and changes nothing, or does what it says. -/
theorem Operation.performs_of_ne_alloc (op : Operation) (hop : ∀ object, op ≠ .alloc object) :
    h.Performs op op.perform := by
  cases op with
  | alloc object => exact absurd rfl (hop object)
  | setProp id p v => exact (setProp_edits h id p v).performs
  | removeProp id p => exact (removeProp_edits h id p).performs
  | setElement id index v => exact (setElement_edits h id index v).performs
  | insertElement id index v => exact (insertElement_edits h id index v).performs
  | removeElement id index => exact (removeElement_edits h id index).performs
  | putEntry id key v => exact (putEntry_edits h id key v).performs
  | removeEntry id key => exact (removeEntry_edits h id key).performs
  | retain id => exact .inr ⟨_, _, rfl, .retain (.obj id) rfl⟩
  | retainValue v => exact .inr ⟨_, _, rfl, .retain v rfl⟩
  | release id => exact .inr ⟨_, _, rfl, .release⟩
  | releaseValue v => exact .inr ⟨_, _, rfl, .release⟩
  | releaseValues vs => exact .inr ⟨_, _, rfl, .release⟩
  | beginSavepoint => exact .inr ⟨_, _, rfl, .beginSavepoint⟩
  | undoTo n => exact .inr ⟨_, _, rfl, .undo n rfl rfl⟩
  | undoLast =>
    refine .inr ⟨_, _, rfl, ?_⟩
    cases hlast : h.undo.savepoints.getLast? with
    | none =>
      rw [Heap.undoLast, hlast]
      exact .idle rfl
    | some s =>
      rw [Heap.undoLast, hlast]
      have hundoes : undoes? h .undoLast = some s.id := by
        change h.undo.savepoints.getLast?.map Savepoint.id = _
        rw [hlast, Option.map_some]
      exact .undo s.id hundoes rfl
  | commit => exact .inr ⟨_, _, rfl, .commit⟩
  | collect roots => exact .inr ⟨_, _, rfl, .collect roots⟩

/-- So does a new object. -/
theorem Operation.performs (ht : h.Tidy) (op : Operation) : h.Performs op op.perform := by
  cases op with
  | alloc object =>
    rcases ht.alloc object with ⟨id, h', hok, ha⟩ | herr
    · refine .inr ⟨_, h', ?_, .alloc ha⟩
      simp only [perform, bind, EStateM.bind, hok, pure, EStateM.pure]
    · refine .inl ⟨.outOfMemory h.settings.maxObjects, ?_⟩
      simp only [perform, bind, EStateM.bind, herr]
  | _ => exact performs_of_ne_alloc _ fun _ hop => by cases hop

/-! ## What operations keep -/

/-- Retaining hands out a count exactly if there is an object to retain. -/
theorem Counted.retainValue_liveAmong (hc : h.Counted stale rest) (v : Value) :
    (h.retainValue v).Counted stale (h.liveAmong [v] + rest) := by
  cases hv : v.obj?.any h.contains with
  | true =>
    have hlive : h.liveAmong [v] = [v] := by simp [liveAmong, hv]
    rw [hlive]
    refine hc.retainValue fun id hid _ => .inr (.inl ?_)
    simpa [hid, Value.obj?] using hv
  | false =>
    have hdead : h.liveAmong [v] = [] := by simp [liveAmong, hv]
    have hsame : h.retainValue v = h := by
      cases v with
      | obj id =>
        have ho : h.occupant? id = none := by simpa [Value.obj?, contains] using hv
        simp [Heap.retainValue, Heap.retain, modifyOccupant_of_none _ ho, ho]
      | _ => rfl
    rw [hdead, hsame]
    simpa using hc

/-- One operation trades what the caller gave up for what it gets. -/
theorem Counted.does (hc : h.Counted stale (op.gives + rest)) (hd : h.Does op taken h')
    (hroots : ∀ roots, op = .collect roots → stale = false →
      ∀ id, .obj id ∈ rest → id.generation = 0 ∨ .obj id ∈ roots) :
    h'.Counted stale (taken + rest) := by
  have hnone (hgives : op.gives = []) : h.Counted stale rest := by simpa [hgives] using hc
  cases hd with
  | idle hgives => simpa using hnone hgives
  | alloc ha => exact hc.alloc ha
  | edit he => exact hc.edit he
  | retain v hgives => exact (hnone hgives).retainValue_liveAmong v
  | release => simpa using hc.releaseValues
  | beginSavepoint => simpa using (hnone rfl).beginSavepoint
  | undo n _ hgives => simpa using (hnone hgives).undoTo n
  | commit => simpa using (hnone rfl).commit
  | collect roots => simpa using (hnone rfl).collect fun hst id hid => hroots roots rfl hst id hid

/-- Every operation goes onward. -/
theorem Does.onward (hd : h.Does op taken h') (ht : h.Tidy) : h.Onward h' := by
  cases hd with
  | idle _ => exact .refl h
  | alloc ha => exact ha.onward
  | edit he => exact he.onward
  | retain v _ => exact (Shrinks.retainValues h [v]).toOnward
  | release => exact (Shrinks.releaseValues h _).toOnward
  | beginSavepoint => exact (Shrinks.beginSavepoint h).toOnward
  | undo n _ _ => exact .undoTo h n
  | commit => exact (Shrinks.commit h).toOnward
  | collect roots => exact (ht.shrinks_collect roots).toOnward

/-! ## A caller -/

/-- The names of objects that are not of the image. -/
def dynamicIds (vs : List Value) : Multiset ObjectId :=
  (Value.objects vs).filter (·.generation ≠ 0)

/-- A table and what its caller owns: one count for each time that a name occurs.
    Objects of the image need no counts. -/
structure Client where
  /-- The table. -/
  heap : Heap
  /-- What the caller owns. -/
  held : Multiset ObjectId

namespace Client

/-- The caller owns what it gives up, and names whatever it owns among the roots
    of a collection. -/
def Allows (c : Client) (op : Operation) : Prop :=
  dynamicIds op.gives ≤ c.held ∧ ∀ roots ∈ op.roots?, ∀ id ∈ c.held, .obj id ∈ roots

instance (c : Client) (op : Operation) : Decidable (c.Allows op) :=
  inferInstanceAs (Decidable (_ ∧ _))

/-- The caller after an operation. One that fails takes nothing. -/
def step (c : Client) (op : Operation) : Client :=
  match op.perform c.heap with
  | .ok taken h => ⟨h, c.held - dynamicIds op.gives + dynamicIds taken⟩
  | .error _ h => ⟨h, c.held⟩

/-- The caller after some operations. -/
def run (c : Client) (ops : List Operation) : Client := ops.foldl step c

/-- Every operation is allowed when its turn comes. -/
def AllowsAll (c : Client) : List Operation → Prop
  | [] => True
  | op :: ops => c.Allows op ∧ (c.step op).AllowsAll ops

instance decidableAllowsAll (c : Client) : (ops : List Operation) → Decidable (c.AllowsAll ops)
  | [] => .isTrue trivial
  | op :: ops =>
    have := decidableAllowsAll (c.step op) ops
    inferInstanceAs (Decidable (c.Allows op ∧ (c.step op).AllowsAll ops))

/-- The counts are owned by the objects, the log and the caller. -/
def Counted (c : Client) : Prop := c.heap.Counted false (c.held.map Value.obj)

variable {c : Client}

theorem count_dynamicIds (vs : List Value) {id : ObjectId} (hid : id.generation ≠ 0) :
    (dynamicIds vs).count id = (vs : Multiset Value).count (.obj id) := by
  rw [sameObjects_objects vs id, dynamicIds, Multiset.coe_count, Multiset.coe_count,
    List.count_filter (by simpa using hid),
    List.count_map_of_injective _ _ fun _ _ h => Value.obj.inj h]

theorem count_map_obj (M : Multiset ObjectId) (id : ObjectId) :
    (M.map Value.obj).count (.obj id) = M.count id :=
  Multiset.count_map_eq_count' _ _ (fun _ _ h => Value.obj.inj h) _

/-- What the caller gives up is part of what it owns. -/
theorem Counted.split (hc : c.Counted) {vs : List Value} (hle : dynamicIds vs ≤ c.held) :
    c.heap.Counted false (vs + (c.held - dynamicIds vs).map Value.obj) := by
  refine Heap.Counted.congr_dynamic hc fun id hid => ?_
  have := Multiset.count_le_of_le id hle
  rw [Multiset.count_add, count_map_obj, count_map_obj, Multiset.count_sub,
    count_dynamicIds vs hid] at *
  omega

/-- What the caller gets is added to what it owns. -/
theorem Counted.join {h : Heap} {vs : List Value} {M : Multiset ObjectId}
    (hc : h.Counted false (vs + M.map Value.obj)) : Counted ⟨h, M + dynamicIds vs⟩ := by
  refine Heap.Counted.congr_dynamic hc fun id hid => ?_
  rw [Multiset.count_add, count_map_obj, count_map_obj, Multiset.count_add,
    count_dynamicIds vs hid, add_comm]

theorem step_of_error {op : Operation} {e : HeapError}
    (herr : op.perform c.heap = .error e c.heap) : c.step op = c := by
  rw [step, herr]

theorem step_of_ok {op : Operation} {taken : List Value} {h : Heap}
    (hok : op.perform c.heap = .ok taken h) :
    c.step op = ⟨h, c.held - dynamicIds op.gives + dynamicIds taken⟩ := by
  rw [step, hok]

/-- One operation of a caller keeps the counts. -/
theorem Counted.step (hc : c.Counted) {op : Operation} (hop : c.Allows op) :
    (c.step op).Counted := by
  rcases op.performs hc.tidy with ⟨e, herr⟩ | ⟨taken, h', hok, hd⟩
  · rw [step_of_error herr]
    exact hc
  · rw [step_of_ok hok]
    refine join ((hc.split hop.1).does hd fun roots hroots _ id hid => .inr ?_)
    obtain ⟨id', hid', heq⟩ := Multiset.mem_map.1 hid
    obtain rfl := Value.obj.inj heq
    have hmem : id' ∈ c.held := Multiset.mem_of_le (Multiset.sub_le_self _ _) hid'
    exact hop.2 roots (by simp [hroots, Operation.roots?]) id' hmem

/-- Every run of a caller keeps the counts. -/
theorem Counted.run (hc : c.Counted) {ops : List Operation} (hops : c.AllowsAll ops) :
    (c.run ops).Counted := by
  induction ops generalizing c with
  | nil => exact hc
  | cons op ops ih => exact ih (hc.step hops.1) hops.2

end Client

/-! ## Runs on the objects of an image -/

/-- The table with one more object of an image, unless it cannot be defined. -/
def withDefined (h : Heap) (d : UInt32 × Object) : Heap :=
  match define d.1 d.2 h with
  | .ok _ h' => h'
  | .error _ h' => h'

theorem Imaged.withDefined (hi : h.Imaged) {d : UInt32 × Object}
    (hd : ∀ v ∈ d.2.body.edges, v.Portable) : (h.withDefined d).Imaged := by
  unfold Heap.withDefined
  rcases h.define_cases d.1 d.2 with ⟨e, herr⟩ | ⟨hn, hlt, hempty, hok⟩
  · rw [herr]
    exact hi
  · rw [hok]
    exact hi.define hn hlt hempty hd _

namespace Client

/-- A table with the objects of an image, and a caller that owns nothing. -/
def ofImage (settings : HeapSettings) (image : List (UInt32 × Object)) : Client :=
  ⟨(image.foldl withDefined (Heap.new settings)).openHoles, 0⟩

theorem counted_ofImage (settings : HeapSettings) {image : List (UInt32 × Object)}
    (himage : ∀ d ∈ image, ∀ v ∈ d.2.body.edges, v.Portable) :
    (ofImage settings image).Counted := by
  refine Imaged.openHoles ?_ fun _ id hid => by simp [ofImage] at hid
  refine List.foldlRecOn image _ (imaged_new settings) fun h hi d hd => ?_
  exact hi.withDefined (himage d hd)

/-- After any run of a caller that gives up only what it owns, the count of every
    object that can be freed is the number of times that its name is held by
    objects, by records and by the caller; and none of them holds the name of an
    object that has been freed. The run must not have lost a count at the largest
    number of them. -/
theorem refs_eq_occurrences (settings : HeapSettings) (image : List (UInt32 × Object))
    (himage : ∀ d ∈ image, ∀ v ∈ d.2.body.edges, v.Portable) (ops : List Operation)
    (hops : (ofImage settings image).AllowsAll ops)
    (hsat : ((ofImage settings image).run ops).heap.saturated = false) :
    let c := (ofImage settings image).run ops
    (∀ id o, c.heap.occupant? id = some o → o.persistent = false →
      o.refs.toNat = c.heap.edges.count (.obj id) + c.heap.undo.values.count (.obj id) +
        c.held.count id) ∧
    (∀ id : ObjectId, id.generation ≠ 0 →
      .obj id ∈ c.heap.edges ∨ .obj id ∈ c.heap.undo.values ∨ id ∈ c.held →
        c.heap.contains id = true) := by
  intro c
  have hb := ((counted_ofImage settings himage).run hops).balanced ⟨hsat, by simp⟩
  refine ⟨fun id o ho hp => ?_, fun id hid hheld => ?_⟩
  · rw [hb.exact id o ho hp, owned, Multiset.count_add, Multiset.count_add, count_map_obj,
      Multiset.coe_count, Multiset.coe_count]
  · have hmem : .obj id ∈ c.heap.owned + c.held.map Value.obj := by
      rw [owned, Multiset.mem_add, Multiset.mem_add, Multiset.mem_coe, Multiset.mem_coe]
      rcases hheld with hedge | hlog | hheld
      · exact .inl (.inl hedge)
      · exact .inl (.inr hlog)
      · exact .inr (Multiset.mem_map_of_mem _ hheld)
    rcases hb.known id hmem with h0 | hlive | ⟨hst, -⟩
    · exact absurd h0 hid
    · exact hlive
    · cases hst

/-- The value of a property of an image object is replaced while a savepoint
    stands, and the former one goes into a vector. -/
def replacing : List Operation :=
  [.alloc ⟨0, .vector [.obj ⟨1, 0⟩]⟩, .retain ⟨2, 1⟩, .beginSavepoint,
    .setProp ⟨1, 0⟩ 5 (.obj ⟨2, 1⟩), .setProp ⟨1, 0⟩ 5 .nil, .alloc ⟨0, .vector [.obj ⟨2, 1⟩]⟩,
    .retainValue (.obj ⟨2, 1⟩), .release ⟨3, 1⟩, .collect [.obj ⟨2, 1⟩]]

/-- At the end the replaced value is held once by a record and once by the
    caller. -/
theorem refs_eq_occurrences_replacing :
    let c := (ofImage {} [(1, ⟨0, .program [] .empty⟩)]).run replacing
    c.heap.refCount? ⟨2, 1⟩ = some 2 ∧
      ∀ o, c.heap.occupant? ⟨2, 1⟩ = some o → o.persistent = false →
        o.refs.toNat = c.heap.edges.count (.obj ⟨2, 1⟩) +
          c.heap.undo.values.count (.obj ⟨2, 1⟩) + c.held.count ⟨2, 1⟩ := by
  have himage : ∀ d ∈ [((1 : UInt32), (⟨0, .program [] .empty⟩ : Object))],
      ∀ v ∈ d.2.body.edges, v.Portable := by
    simp [Body.edges, PropTable.empty]
  have hops : (ofImage {} [(1, ⟨0, .program [] .empty⟩)]).AllowsAll replacing := by
    decide +kernel
  have hsat : ((ofImage {} [(1, ⟨0, .program [] .empty⟩)]).run replacing).heap.saturated =
      false := by
    cbv
  refine ⟨by cbv, fun o ho hp => ?_⟩
  exact (refs_eq_occurrences {} _ himage replacing hops hsat).1 ⟨2, 1⟩ o ho hp

end Client

end Heap

end StoryMachine
