import StoryMachine.Proofs.Machine.Restart
import StoryMachine.Proofs.Machine.Stays
import StoryMachine.Proofs.Table.Operations

/-!
# Lookup tables as programs see them

A program puts keys into a lookup table and takes them out, sets savepoints and goes back to
them, and makes new tables, while the host may do anything with the object table. To all of
this the tables are maps that keep the order in which keys come in: what a program can read
of a table is what its ledger says, and nothing else.

* `TableRequest`: what is asked of tables;
* `Machine.Told`: a table of an image, or a new one, with its ledger;
* `Machine.Reaches`: a machine after operations on its object table, and what they do to a
  ledger;
* `Machine.requested_reaches`: requests do to the tables what they do to the ledgers;
* `Machine.Shows`: what a program reads of a table;
* `Machine.Told.shows_history`: every table is read as its ledger says.
-/

namespace StoryMachine

/-! ## Requests -/

/-- What a program, or its host, asks for that lookup tables may be part of. -/
inductive TableRequest where
  /-- A container gets a value at a position or under a key. -/
  | setIndex (container position v : Value)
  /-- A key is taken out. -/
  | removeElement (this key : Value)
  /-- There is a new lookup table with keys and values in turn. -/
  | new (metaclass : MetaclassId) (args : List Value)
  /-- A savepoint is set. -/
  | savepoint
  /-- Back to the latest savepoint. -/
  | undo
  /-- The host does something with the object table. -/
  | operation (op : Heap.Operation)
deriving DecidableEq

/-- Does what is asked for. -/
def TableRequest.perform : TableRequest → MachineM Value
  | setIndex container position v => withElement container position v
  | removeElement this key => NativeMethod.removeElement.call this [key]
  | new metaclass args => construct metaclass .table args
  | savepoint => Intrinsic.savepoint.call []
  | undo => Intrinsic.undo.call []
  | operation op => do
    let _ ← onHeap op.perform
    return .nil

/-- The ledger of the table `t` after a request. -/
def Ledger.request (t : ObjectId) (l : Ledger) : TableRequest → Ledger
  | .setIndex container position v =>
    if container = .obj t then l.change (.put position v) else l
  | .removeElement this key => if this = .obj t then l.change (.remove key) else l
  | .new _ _ => l
  | .savepoint => l.save
  | .undo => l.undoLast
  | .operation op => l.step t op

namespace Machine

/-- The machine after a request, also after one that fails. -/
def requested (m : Machine) (r : TableRequest) : Machine :=
  match r.perform m with
  | .ok _ m' => m'
  | .error _ m' => m'

/-- The machine after some requests. -/
def served (m : Machine) (rs : List TableRequest) : Machine := rs.foldl requested m

/-- Whether the machine has the object after each of the requests. -/
def hasAfter (m : Machine) (t : ObjectId) : List TableRequest → Bool
  | [] => true
  | r :: rs => (m.requested r).heap.contains t && (m.requested r).hasAfter t rs

/-- The ledger is that of the table `t` of a machine that has come from another by requests.
    It starts with the table, which is one of the other machine or made on request, and goes
    on as long as the table is there. -/
inductive Told (base : Machine) (t : ObjectId) : Machine → Ledger → Prop
  /-- The table was there. -/
  | loaded {entries : List (Value × Value)} (hentries : base.heap.entriesAt? t = some entries) :
      Told base t base (.start base.heap.undo (History.putting [] (Body.table entries).edges))
  /-- The table has been made. No record is about an object that had its name before it. -/
  | made {m : Machine} (rs : List TableRequest) (metaclass : MetaclassId) (args : List Value)
      (hnew : construct metaclass .table args (base.served rs) = .ok (.obj t) m)
      (hother : ∀ r ∈ (base.served rs).heap.undo.records, r.target ≠ t) :
      Told base t m (.start (base.served rs).heap.undo (History.putting [] args))
  /-- There was a request, and the table is still there. -/
  | request {m : Machine} {l : Ledger} (hm : Told base t m l) (r : TableRequest)
      (hlive : (m.requested r).heap.contains t = true) :
      Told base t (m.requested r) (l.request t r)

theorem Told.served {base m : Machine} {t : ObjectId} {l : Ledger} (hm : base.Told t m l)
    {rs : List TableRequest} (hall : m.hasAfter t rs = true) :
    base.Told t (m.served rs) (rs.foldl (Ledger.request t) l) := by
  induction rs generalizing m l with
  | nil => exact hm
  | cons r rs ih =>
    rw [hasAfter, Bool.and_eq_true] at hall
    exact ih (hm.request r hall.1) hall.2

/-! ## What requests do to the object table -/

/-- A machine has come to another by operations on its object table, which make of a ledger
    of the table `t` what a function says. If the table is there at both ends, then it is there
    all the time. -/
structure Reaches (m : Machine) (t : ObjectId) (f : Ledger → Ledger) (m' : Machine) : Prop where
  /-- It is the same image. -/
  image : m'.image = m.image
  /-- There are such operations. -/
  heap : ∃ ops, m'.heap = m.heap.through ops ∧ (∀ l, Ledger.after t l ops = f l) ∧
    (m.heap.contains t = true → m'.heap.contains t = true → m.heap.HasThrough t ops)

/-- It has come there without freeing the table. -/
structure Retains (m : Machine) (t : ObjectId) (f : Ledger → Ledger) (m' : Machine) : Prop
    extends m.Reaches t f m' where
  /-- The table is there if it was. -/
  stays : m.heap.contains t = true → m'.heap.contains t = true

variable {m m' m₀ : Machine} {t id : ObjectId} {f : Ledger → Ledger} {v key : Value}
  {entries : List (Value × Value)} {α : Type}

theorem Reaches.refl (m : Machine) (t : ObjectId) : m.Reaches t (fun l => l) m :=
  ⟨rfl, [], rfl, fun _ => rfl, fun _ _ => trivial⟩

theorem Retains.refl (m : Machine) (t : ObjectId) : m.Retains t (fun l => l) m :=
  ⟨.refl m t, fun hlive => hlive⟩

/-- One more operation, which does not bring the table back. -/
theorem Reaches.step (hm : m₀.Reaches t f m) (op : Heap.Operation) (himage : m'.image = m.image)
    (hheap : m'.heap = m.heap.performed op)
    (hback : m₀.heap.contains t = true → m'.heap.contains t = true → m.heap.contains t = true) :
    m₀.Reaches t (fun l => (f l).step t op) m' := by
  obtain ⟨ops, hops, hf, hall⟩ := hm.heap
  have hops' : m'.heap = m₀.heap.through (ops ++ [op]) := by
    rw [hheap, hops, Heap.through_append]
    rfl
  refine ⟨himage.trans hm.image, ops ++ [op], hops', fun l => ?_, fun hlive hlive' => ?_⟩
  · rw [Ledger.after, List.foldl_append]
    exact congrArg (Ledger.step t · op) (hf l)
  · exact (hall hlive (hback hlive hlive')).concat (hops' ▸ hlive')

/-- The object table is the same. -/
theorem Reaches.congr (hm : m₀.Reaches t f m) (himage : m'.image = m.image)
    (hheap : m'.heap = m.heap) : m₀.Reaches t f m' :=
  ⟨himage.trans hm.image, hheap ▸ hm.heap⟩

theorem Retains.congr (hm : m₀.Retains t f m) (himage : m'.image = m.image)
    (hheap : m'.heap = m.heap) : m₀.Retains t f m' :=
  ⟨hm.toReaches.congr himage hheap, hheap ▸ hm.stays⟩

theorem Reaches.retainValues (hm : m₀.Reaches t f m) (vs : List Value) :
    m₀.Reaches t f { m with heap := m.heap.retainValues vs } := by
  induction vs generalizing m with
  | nil => exact hm
  | cons v vs ih =>
    have hfirst : m₀.Reaches t f { m with heap := m.heap.retainValue v } :=
      hm.step (.retainValue v) rfl rfl fun _ => (Heap.Touches.retainValue m.heap v).contains
    exact ih hfirst

theorem Retains.retainValues (hm : m₀.Retains t f m) (vs : List Value) :
    m₀.Retains t f { m with heap := m.heap.retainValues vs } :=
  ⟨hm.toReaches.retainValues vs, fun hlive =>
    (Heap.contains_retainValues m.heap vs t).trans (hm.stays hlive)⟩

/-! ### Parts that leave tables alone -/

theorem stays_of_peeks {I : Machine → Prop} {x : MachineM α} {P : Machine → α → Prop}
    (hI : ∀ m m', I m → m'.image = m.image → m'.heap = m.heap → I m')
    (hx : ∀ m : Machine, m.Peeks x (P m)) : Stays I x := fun m hm =>
  (hx m m (.refl m)).mono (fun _ _ ha => hI _ _ hm ha.1.beside.image ha.1.heap)
    fun _ _ he => hI _ _ hm he.1.beside.image he.1.heap

theorem owned_reaches (v : Value) : Stays (m₀.Reaches t f) (owned v) := fun _ hm =>
  hm.retainValues [v]

/-- An operation on the object table, whether it succeeds or fails. -/
theorem onHeap_reaches {x : HeapM α} (op : Heap.Operation) {k : α → List Value}
    (hop : op.perform = do return k (← x)) (hm : m₀.Reaches t f m)
    (hback : m₀.heap.contains t = true → (m.heap.performed op).contains t = true →
      m.heap.contains t = true) :
    Ends (onHeap x m) (fun _ => m₀.Reaches t fun l => (f l).step t op)
      fun _ => m₀.Reaches t fun l => (f l).step t op := by
  cases hr : x m.heap with
  | ok a h =>
    have hheap := Heap.performed_of_ok hop hr
    rw [onHeap_ok hr]
    exact hm.step op rfl hheap.symm (hheap ▸ hback)
  | error e h =>
    have hheap := Heap.performed_of_error hop hr
    rw [onHeap_error hr]
    exact hm.step op rfl hheap.symm (hheap ▸ hback)

/-- A new object does not get the name of the table, which is there. -/
theorem allocate_reaches (metaclass : MetaclassId) (body : Body) (hm : m₀.Retains t f m) :
    Ends (allocate metaclass body m) (fun _ => m₀.Reaches t f) fun _ => m₀.Reaches t f :=
  (onHeap_reaches (.alloc ⟨metaclass, body⟩) (k := fun id => [.obj id]) rfl hm.toReaches
    fun hlive _ => hm.stays hlive).bind (fun _ _ hm' => hm') fun _ _ hm' => hm'

theorem newList_reaches (items : List Value) (hm : m₀.Retains t f m) :
    Ends (newList items m) (fun _ => m₀.Reaches t f) fun _ => m₀.Reaches t f := by
  have hkind : Stays (m₀.Retains t f) (metaclassOf .list) := .get fun m _ => .liftExcept _
  refine (hkind m hm).bind (fun metaclass m' hm' => ?_) fun _ _ hm' => hm'.toReaches
  exact Ends.bind_ok rfl (allocate_reaches metaclass _ (hm'.retainValues items))

theorem releaseValues_reaches (vs : List Value) : Stays (m₀.Reaches t f) (releaseValues vs) :=
  fun m hm => hm.step (.releaseValues vs) rfl rfl fun _ =>
    (Heap.Touches.releaseValues m.heap vs).contains

theorem copyWithElement_reaches (container position v : Value) (hm : m₀.Retains t f m) :
    Ends (copyWithElement container position v m) (fun _ => m₀.Reaches t f)
      fun _ => m₀.Reaches t f := by
  have hpeeks {β : Type} {x : MachineM β} {P : Machine → β → Prop}
      (hx : ∀ m : Machine, m.Peeks x (P m)) : Stays (m₀.Retains t f) x :=
    stays_of_peeks (fun _ _ hm => hm.congr) hx
  refine (hpeeks (fun _ => items_peeks container) m hm).bind (fun items? m' hm' => ?_)
    fun _ _ hm' => hm'.toReaches
  split
  · exact hm'.toReaches
  · refine (hpeeks (fun _ => expectInt_peeks position) m' hm').bind (fun n m₁ hm₁ => ?_)
      fun _ _ hm' => hm'.toReaches
    exact (hpeeks (fun _ => zeroBased_peeks n _) m₁ hm₁).bind
      (fun i m₂ hm₂ => newList_reaches _ hm₂) fun _ _ hm' => hm'.toReaches

/-! ### Requests -/

/-- Values are given to an object by an operation. -/
theorem giveTo_reaches {x : HeapM α} (op : Heap.Operation) {k : α → List Value}
    (values : List Value) (hop : op.perform = do return k (← x)) (hother : ∀ object, op ≠ .alloc object)
    (hm : m₀.Reaches t f m) :
    Ends (giveTo values x m) (fun _ => m₀.Reaches t fun l => (f l).step t op)
      fun _ => m₀.Reaches t fun l => (f l).step t op := by
  have hdone := onHeap_reaches op hop (hm.retainValues values) fun _ =>
    (Heap.performed_touches hother).contains
  exact Ends.bind_ok rfl (hdone.onFault fun e m' hm' =>
    ⟨_, rfl, releaseValues_reaches values m' hm'⟩)

/-- An operation that does nothing may be thought to have been done. -/
theorem Retains.idle (hm : m₀.Retains t f m) {op : Heap.Operation}
    (hidle : m.heap.performed op = m.heap) :
    m₀.Retains t (fun l => (f l).step t op) m :=
  ⟨hm.toReaches.step op rfl hidle.symm fun _ hlive => hlive, hm.stays⟩

/-- A name that means no object. -/
theorem deref_eq_error (hnone : m.heap.get? id = none) :
    deref id m = .error (.failed (HeapError.invalidObject id).failure) m := by
  simp only [deref, bind, EStateM.bind, get, getThe, MonadStateOf.get, EStateM.get, Heap.deref,
    hnone]
  rfl

/-- Of the objects that a value can be given to only a lookup table gets a key. -/
theorem withElement_obj_reaches (m : Machine) (t id : ObjectId) (position v : Value) :
    Ends (withElement (.obj id) position v m)
      (fun _ => m.Reaches t fun l => l.step t (.putEntry id position v))
      fun _ => m.Reaches t fun l => l.step t (.putEntry id position v) := by
  have hother (hnone : m.heap.entriesAt? id = none) :
      m.Retains t (fun l => l.step t (.putEntry id position v)) m :=
    (Retains.refl m t).idle (Heap.performed_putEntry_of_none hnone position v)
  cases ho : m.heap.get? id with
  | none =>
    refine Ends.bind_error (deref_eq_error ho) (hother ?_).toReaches
    rw [Heap.entriesAt?, ho, Option.bind_none]
  | some o =>
    obtain ⟨metaclass, body⟩ := o
    refine Ends.bind_ok (deref_eq_ok ho) ?_
    cases body with
    | table entries =>
      have hdone := giveTo_reaches (.putEntry id position v) (k := fun _ => []) [position, v] rfl
        (fun _ he => by cases he) (Reaches.refl m t)
      exact hdone.bind (fun _ m' hm' => owned_reaches _ m' hm') fun _ _ hm' => hm'
    | vector items =>
      -- An element is replaced, which the ledger of a table does not know of.
      have hm := hother (by rw [Heap.entriesAt?, ho]; rfl)
      have hpeeks {β : Type} {x : MachineM β} {P : Machine → β → Prop}
          (hx : ∀ m : Machine, m.Peeks x (P m)) :
          Stays (m.Reaches t fun l => l.step t (.putEntry id position v)) x :=
        stays_of_peeks (fun _ _ hm => hm.congr) hx
      have hstore (n : Int32) : Stays (m.Reaches t fun l => l.step t (.putEntry id position v))
          (do let i ← zeroBased n items.length
              giveTo [v] (Heap.setElement id i v)
              owned (.obj id)) := by
        refine (hpeeks fun _ => zeroBased_peeks n _).bind fun i => ?_
        refine Stays.bind (fun m' hm' => ?_) fun _ => owned_reaches _
        exact giveTo_reaches (.setElement id i v) (k := fun _ => []) [v] rfl
          (fun _ he => by cases he) hm'
      exact (hpeeks fun _ => expectInt_peeks position).bind hstore m hm.toReaches
    | program | list | string =>
      -- There is a copy with another element, or nothing at all.
      exact copyWithElement_reaches _ _ _ (hother (by rw [Heap.entriesAt?, ho]; rfl))

/-- A key is taken out of lookup tables only. -/
theorem removeElement_obj_reaches (m : Machine) (t id : ObjectId) (key : Value) :
    Ends (NativeMethod.removeElement.call (.obj id) [key] m)
      (fun _ => m.Reaches t fun l => l.step t (.removeEntry id key))
      fun _ => m.Reaches t fun l => l.step t (.removeEntry id key) := by
  refine Ends.bind_ok (x := argument [key] 0) (a := key) rfl ?_
  cases hentries : m.heap.entriesAt? id with
  | none =>
    have hm := ((Retains.refl m t).idle (Heap.performed_removeEntry_of_none hentries key)).toReaches
    refine Ends.bind (tableEntries_peeks (.obj id) m (.refl m)) ?_ fun _ _ he =>
      hm.congr he.1.beside.image he.1.heap
    rintro entries m' ⟨-, id', o, hid, ho, hbody⟩
    obtain rfl := Value.obj.inj hid
    rw [Heap.entriesAt?_eq_some.2 ⟨o, ho, hbody⟩] at hentries
    cases hentries
  | some entries =>
    refine Ends.bind_ok (tableEntries_eq hentries) ?_
    cases hkey : entries.lookup key with
    | none =>
      have hidle := Heap.performed_removeEntry_of_not_mem hentries hkey
      exact ((Retains.refl m t).idle hidle).toReaches
    | some v =>
      have hdone := onHeap_reaches (.removeEntry id key) (k := fun _ => []) rfl
        ((Reaches.refl m t).retainValues [v]) fun _ => (Heap.performed_touches fun _ he => by cases he).contains
      refine Ends.bind_ok (x := owned v) (a := v) rfl ?_
      exact Ends.bind_ok rfl (hdone.bind (fun _ _ hm' => hm') fun _ _ hm' => hm')

theorem construct_table_reaches (metaclass : MetaclassId) (args : List Value) (m : Machine)
    (t : ObjectId) : Ends (construct metaclass .table args m)
      (fun _ => m.Reaches t fun l => l) fun _ => m.Reaches t fun l => l := by
  unfold construct
  dsimp only
  cases entriesOf? [] args with
  | none => exact .refl m t
  | some entries =>
    exact Ends.bind_ok rfl (allocate_reaches metaclass _ ((Retains.refl m t).retainValues _))

/-- A request does to the object table what it does to the ledger. -/
theorem requested_reaches (m : Machine) (t : ObjectId) (r : TableRequest) :
    m.Reaches t (fun l => l.request t r) (m.requested r) := by
  have hends : Ends (r.perform m) (fun _ => m.Reaches t fun l => l.request t r)
      fun _ => m.Reaches t fun l => l.request t r := by
    cases r with
    | setIndex container position v =>
      cases container with
      | obj id =>
        have hsame : (fun l : Ledger => l.request t (.setIndex (.obj id) position v)) =
            fun l => l.step t (.putEntry id position v) :=
          funext fun l => by simp only [Ledger.request, Ledger.step_putEntry, Value.obj.injEq]
        exact hsame ▸ withElement_obj_reaches m t id position v
      | _ => exact copyWithElement_reaches _ position v (.refl m t)
    | removeElement this key =>
      cases this with
      | obj id =>
        have hsame : (fun l : Ledger => l.request t (.removeElement (.obj id) key)) =
            fun l => l.step t (.removeEntry id key) :=
          funext fun l => by simp only [Ledger.request, Ledger.step_removeEntry, Value.obj.injEq]
        exact hsame ▸ removeElement_obj_reaches m t id key
      | _ => exact Reaches.refl m t
    | new metaclass args => exact construct_table_reaches metaclass args m t
    | savepoint => exact (Reaches.refl m t).step .beginSavepoint rfl rfl fun hlive _ => hlive
    | undo => exact (Reaches.refl m t).step .undoLast rfl rfl fun hlive _ => hlive
    | operation op =>
      have hdone := onHeap_reaches op (k := fun taken => taken) (bind_pure op.perform).symm
        (Reaches.refl m t) fun hlive _ => hlive
      exact hdone.bind (fun _ _ hm' => hm') fun _ _ hm' => hm'
  rw [requested]
  cases hr : r.perform m with
  | ok v m' =>
    rw [hr] at hends
    exact hends
  | error e m' =>
    rw [hr] at hends
    exact hends

/-! ## Tables and ledgers -/

section Load

variable {bs : Bytes} {settings : MachineSettings} {host : Host} {base : Machine}

/-- Nothing has been recorded. -/
theorem undo_of_load (hload : load bs settings host = .ok base) :
    base.heap.undo.records = #[] ∧ base.heap.undo.savepoints = [] := by
  obtain ⟨_, _, himage, -, -⟩ := parts_of_load hload
  obtain ⟨-, h, hheap, hh⟩ := Image.load_fits himage
  rw [hheap, hh.imaged.opened.frame.1]
  exact hh.imaged.silent

theorem orderly_of_load (hload : load bs settings host = .ok base) : base.heap.Orderly := by
  have hcounted := (load_sound true hload).1.counted
  refine ⟨hcounted.tidy, hcounted.ordered, fun _ r hr => ?_⟩
  rw [(undo_of_load hload).1] at hr
  exact absurd hr (Array.not_mem_empty r)

/-- An image has no lookup table with a key twice. -/
theorem keysDistinct_of_load (hload : load bs settings host = .ok base) :
    base.heap.KeysDistinct := by
  obtain ⟨_, _, himage, -, -⟩ := parts_of_load hload
  obtain ⟨-, l, _, _, -, -, hpopulated, hopened, -⟩ := Image.exists_of_load himage
  intro id entries hentries
  obtain ⟨o, ho, hbody⟩ := Heap.entriesAt?_eq_some.1 hentries
  obtain ⟨oc, hoc, rfl⟩ := Heap.get?_eq_some_iff.1 ho
  rw [hopened.occupant?] at hoc
  obtain ⟨d, hd, -, rfl⟩ := (hpopulated.stocked.holds id oc).1 hoc
  have hwell := hpopulated.wellFormed hd
  rw [hbody] at hwell
  exact hwell

end Load

/-- A new table is an object of its own. -/
theorem construct_table_eq_ok {metaclass : MetaclassId} {args : List Value} (ht : m.heap.Tidy)
    (hok : construct metaclass .table args m = .ok (.obj t) m') :
    ∃ entries, entriesOf? [] args = some entries ∧
      (m.heap.retainValues (Body.table entries).edges).Allocated ⟨metaclass, .table entries⟩ t
        m'.heap := by
  unfold construct at hok
  dsimp only at hok
  cases hmade : entriesOf? [] args with
  | none =>
    rw [hmade] at hok
    cases hok
  | some entries =>
    rw [hmade] at hok
    refine ⟨entries, rfl, ?_⟩
    have hok' : allocate metaclass (.table entries)
        { m with heap := m.heap.retainValues (Body.table entries).edges } = .ok (.obj t) m' := hok
    rcases (ht.retainValues (Body.table entries).edges).alloc ⟨metaclass, .table entries⟩ with
      ⟨id, h, halloc, ha⟩ | herr
    · rw [allocate, bind_eq_of_ok (onHeap_ok halloc)] at hok'
      cases hok'
      exact ha
    · rw [allocate, bind_eq_of_error (onHeap_error herr)] at hok'
      cases hok'

variable {base : Machine} {l : Ledger} {r : TableRequest}

theorem Reaches.orderly (hr : m.Reaches t f m') (ho : m.heap.Orderly) : m'.heap.Orderly := by
  obtain ⟨ops, hops, -⟩ := hr.heap
  exact hops ▸ ho.through ops

theorem served_orderly (ho : base.heap.Orderly) (rs : List TableRequest) :
    (base.served rs).image = base.image ∧ (base.served rs).heap.Orderly := by
  refine List.foldlRecOn (motive := fun m => m.image = base.image ∧ m.heap.Orderly) rs requested
    ⟨rfl, ho⟩ fun m hm r _ => ?_
  have hr := requested_reaches m default r
  exact ⟨hr.image.trans hm.1, hr.orderly hm.2⟩

/-- A name that a new table gets is new to the log, unless a generation has started again. -/
theorem target_ne_of_construct {metaclass : MetaclassId} {args : List Value}
    (rs : List TableRequest) (ho : base.heap.Orderly) (hwrap : m.heap.wrapped = false)
    (hnew : construct metaclass .table args (base.served rs) = .ok (.obj t) m) :
    ∀ r ∈ (base.served rs).heap.undo.records, r.target ≠ t := by
  obtain ⟨-, ho'⟩ := served_orderly ho rs
  obtain ⟨entries, -, ha⟩ := construct_table_eq_ok ho'.tidy hnew
  have hretained : ((base.served rs).heap.retainValues (Body.table entries).edges).Orderly :=
    ((Reaches.refl (base.served rs) t).retainValues _).orderly ho'
  have hother := hretained.target_ne (ha.onward.wrapped hwrap) ha
  rwa [Heap.undo_retainValues] at hother

theorem Told.orderly (hm : base.Told t m l) (ho : base.heap.Orderly) :
    m.image = base.image ∧ m.heap.Orderly := by
  induction hm with
  | loaded _ => exact ⟨rfl, ho⟩
  | @made m rs metaclass args hnew _ =>
    obtain ⟨himage, ho'⟩ := served_orderly ho rs
    have hr := construct_table_reaches metaclass args (base.served rs) t
    rw [hnew] at hr
    exact ⟨hr.image.trans himage, hr.orderly ho'⟩
  | @request m _ _ r _ ih =>
    have hr := requested_reaches m t r
    exact ⟨hr.image.trans ih.1, hr.orderly ih.2⟩

/-- A table follows its ledger. The induction is on what has been asked for. -/
theorem Told.follows (hm : base.Told t m l) (ho : base.heap.Orderly)
    (hsilent : base.heap.undo.records = #[]) (hdistinct : base.heap.KeysDistinct) :
    m.heap.Follows t l := by
  induction hm with
  | @loaded entries hentries =>
    obtain ⟨⟨metaclass, body⟩, hget, rfl⟩ := Heap.entriesAt?_eq_some.1 hentries
    refine ⟨_, hget, Ledger.tells_start (fun r hr => ?_) ?_⟩
    · rw [hsilent] at hr
      exact absurd hr (Array.not_mem_empty r)
    · exact History.lists_nil.putting_edges (hdistinct t entries hentries)
  | @made m rs metaclass args hnew hother =>
    obtain ⟨-, ho'⟩ := served_orderly ho rs
    obtain ⟨entries, hmade, ha⟩ := construct_table_eq_ok ho'.tidy hnew
    -- Keys and values are retained first, which does not concern the log.
    rw [← Heap.undo_retainValues _ (Body.table entries).edges] at hother ⊢
    exact Heap.follows_alloc ha (History.lists_nil.entriesOf? hmade) hother
  | @request m l hm r hlive ih =>
    obtain ⟨ops, hops, hledger, hall⟩ := (requested_reaches m t r).heap
    have hfollows := ih.through (hm.orderly ho).2 (hall ih.contains hlive)
    rwa [← hops, hledger] at hfollows

/-! ## What programs read -/

/-- What a program reads under a key of a table. -/
def reads (m : Machine) (t : ObjectId) (key : Value) : Option Value :=
  match elementAt (.obj t) key m with
  | .ok v _ => some v
  | .error _ _ => none

theorem reads_eq (hentries : m.heap.entriesAt? t = some entries) (key : Value) :
    m.reads t key = some ((entries.lookup key).getD .nil) := by
  obtain ⟨o, ho, hbody⟩ := Heap.entriesAt?_eq_some.1 hentries
  have hbodyOf : bodyOf? (.obj t) m = .ok (some (.table entries)) m := by
    change EStateM.Result.ok ((m.heap.get? t).map (·.body)) m = _
    rw [ho, Option.map_some, hbody]
  rw [reads, elementAt, bind_eq_of_ok hbodyOf]
  rfl

/-- The part makes a new list of the values, unless there is no room for one. -/
structure MakesList (m : Machine) (x : MachineM Value) (vs : List Value) : Prop where
  ends : Ends (x m)
    (fun v m' => ∃ id metaclass, v = .obj id ∧ m'.heap.get? id = some ⟨metaclass, .list vs⟩)
    fun e _ => e.isMemory = true

theorem newList_makesList (hready : m.image.Ready) (ht : m.heap.Tidy) (vs : List Value) :
    m.MakesList (newList vs) vs := by
  have hlist : Kind.list ∈ MetaclassTable.required := by decide
  obtain ⟨metaclass, hmetaclass⟩ := metaclassOf_eq_ok hready hlist
  refine ⟨Ends.bind_ok hmetaclass (Ends.bind_ok rfl ?_)⟩
  rcases (ht.retainValues vs).alloc ⟨metaclass, .list vs⟩ with ⟨id, h, hok, ha⟩ | herr
  · exact Ends.bind_ok (onHeap_ok hok) ⟨id, metaclass, rfl, ha.get?_new⟩
  · exact Ends.bind_error (onHeap_error herr) rfl

/-- What a program reads of the table `t` is what has been done to it. -/
structure Shows (m : Machine) (t : ObjectId) (cs : History) : Prop where
  /-- Under a key there is its value, and nil if the key is not there. -/
  reads : ∀ key, m.reads t key = some ((cs.value? key).getD .nil)
  /-- The table can tell which keys are there. -/
  present : ∀ key, NativeMethod.isKeyPresent.call (.obj t) [key] m =
    .ok (.ofBool (cs.value? key).isSome) m
  /-- The table has the entries that the history tells of, and there is only one list of
      these. -/
  listed : ∀ entries, m.heap.entriesAt? t = some entries ↔ cs.Lists entries
  /-- Keys and values are listed in the order in which the keys came in, each key once, and
      the number of entries is theirs. -/
  entries : ∃ entries, cs.Lists entries ∧ (entries.map Prod.fst).Nodup ∧
    m.MakesList (NativeMethod.keysToList.call (.obj t) []) (entries.map Prod.fst) ∧
    m.MakesList (NativeMethod.valsToList.call (.obj t) []) (entries.map Prod.snd) ∧
    NativeMethod.entryCount.call (.obj t) [] m = .ok (.ofCount entries.length) m

theorem Shows.keysToList {cs : History} (hshows : m.Shows t cs)
    (hentries : m.heap.entriesAt? t = some entries) :
    m.MakesList (NativeMethod.keysToList.call (.obj t) []) (entries.map Prod.fst) := by
  obtain ⟨entries', hlists, -, hkeys, -⟩ := hshows.entries
  obtain rfl := ((hshows.listed entries).1 hentries).unique hlists
  exact hkeys

theorem shows_of_lists {cs : History} (hready : m.image.Ready) (ht : m.heap.Tidy)
    (hentries : m.heap.entriesAt? t = some entries) (hlists : cs.Lists entries) : m.Shows t cs where
  reads key := by rw [reads_eq hentries, hlists.value]
  present key := by
    rw [isKeyPresent_eq hentries, any_eq_mem_keys]
    simp only [hlists.mem_keys_iff, Bool.decide_eq_true]
  listed entries' := by
    refine ⟨fun hentries' => ?_, fun hlists' => ?_⟩
    · obtain rfl := Option.some.inj (hentries.symm.trans hentries')
      exact hlists
    · rw [hlists'.unique hlists, hentries]
  entries := by
    have htable := tableEntries_eq hentries
    refine ⟨entries, hlists, hlists.nodup, ?_, ?_, ?_⟩
    · refine ⟨?_⟩
      rw [NativeMethod.call, bind_eq_of_ok htable]
      exact (newList_makesList hready ht _).ends
    · refine ⟨?_⟩
      rw [NativeMethod.call, bind_eq_of_ok htable]
      exact (newList_makesList hready ht _).ends
    · rw [NativeMethod.call, bind_eq_of_ok htable]
      rfl

end Machine

/-- The request gives a key of the table `t` a value. -/
def TableRequest.Puts (r : TableRequest) (t : ObjectId) (key v : Value) : Prop :=
  r = .setIndex (.obj t) key v ∨ r = .operation (.putEntry t key v)

/-- The request takes a key out of the table `t`. -/
def TableRequest.Takes (r : TableRequest) (t : ObjectId) (key : Value) : Prop :=
  r = .removeElement (.obj t) key ∨ r = .operation (.removeEntry t key)

theorem TableRequest.Puts.request_eq {r : TableRequest} {t : ObjectId} {key v : Value}
    (hr : r.Puts t key v) (l : Ledger) : l.request t r = l.change (.put key v) := by
  rcases hr with rfl | rfl <;> exact if_pos rfl

theorem TableRequest.Takes.request_eq {r : TableRequest} {t : ObjectId} {key : Value}
    (hr : r.Takes t key) (l : Ledger) : l.request t r = l.change (.remove key) := by
  rcases hr with rfl | rfl <;> exact if_pos rfl

namespace Machine

variable {bs : Bytes} {settings : MachineSettings} {host : Host} {base m : Machine} {t : ObjectId}
  {l : Ledger}

theorem Told.shows (hload : load bs settings host = .ok base) (hm : base.Told t m l) :
    m.Shows t l.history := by
  have ho := orderly_of_load hload
  obtain ⟨himage, ho'⟩ := hm.orderly ho
  have hfollows := hm.follows ho (undo_of_load hload).1 (keysDistinct_of_load hload)
  obtain ⟨entries, hentries, hlists⟩ := hfollows.exists_entries
  have hready : m.image.Ready := himage ▸ (load_sound true hload).1.ready
  exact shows_of_lists hready ho'.tidy hentries hlists

/-- Lookup tables are maps that keep the order in which keys come in. Whatever has been asked
    for since a table was there, in an image or made anew, what a program reads of it is what
    its ledger says: no key comes twice, and keys and values are listed in the order in which
    the keys came in. A key that is given a value has it then, a key that is taken out has
    nil, and all other keys have what they had. Going back leads to what had been done when
    the savepoint was set. -/
theorem Told.shows_history (hload : load bs settings host = .ok base) (hm : base.Told t m l) :
    m.Shows t l.history ∧
      (∀ r key v, r.Puts t key v → (m.requested r).heap.contains t = true →
        (m.requested r).reads t key = some v ∧
          ∀ key', key' ≠ key → (m.requested r).reads t key' = m.reads t key') ∧
      (∀ r key, r.Takes t key → (m.requested r).heap.contains t = true →
        (m.requested r).reads t key = some .nil ∧
          ∀ key', key' ≠ key → (m.requested r).reads t key' = m.reads t key') ∧
      ∀ r, (m.requested r).heap.contains t = true →
        (m.requested r).Shows t (l.request t r).history := by
  have hshows := hm.shows hload
  have hnext (r : TableRequest) (hlive : (m.requested r).heap.contains t = true) :
      (m.requested r).Shows t (l.request t r).history := (hm.request r hlive).shows hload
  refine ⟨hshows, fun r key v hput hlive => ?_, fun r key htake hlive => ?_, hnext⟩
  · have hreads := (hnext r hlive).reads
    rw [hput.request_eq] at hreads
    refine ⟨(hreads key).trans ?_, fun key' hkey' => (hreads key').trans ?_⟩
    · rw [Ledger.change, History.value?, if_pos rfl]
      rfl
    · rw [Ledger.change, History.value?, if_neg hkey', hshows.reads]
  · have hreads := (hnext r hlive).reads
    rw [htake.request_eq] at hreads
    refine ⟨(hreads key).trans ?_, fun key' hkey' => (hreads key').trans ?_⟩
    · rw [Ledger.change, History.value?, if_pos rfl]
      rfl
    · rw [Ledger.change, History.value?, if_neg hkey', hshows.reads]

/-- An image with a lookup table. -/
def almanac : Bytes :=
  ImageDraft.encode {
    metaclasses := #[("lookuptable", [])]
    code := ([Instr.retNil].foldl Assembler.emit (Assembler.method {})).finish.toArray
    objects := #[⟨1, 0, ObjectData.entries [(.int 1, .nil)]⟩]
    entry? := some 0 }

/-- A key of a table is taken out, another one comes in, and then the first one again. -/
def reordering (t : ObjectId) : List TableRequest :=
  [.savepoint, .removeElement (.obj t) (.int 1), .setIndex (.obj t) (.int 3) .nil,
    .setIndex (.obj t) (.int 1) .truth]

/-- A new table with two keys. Going back, the keys have their former places. -/
theorem shows_history_almanac : ∃ base m, load almanac {} {} = .ok base ∧
    construct 0 .table [.int 1, .nil, .int 2, .truth] base = .ok (.obj ⟨2, 1⟩) m ∧
    (m.served (reordering ⟨2, 1⟩)).MakesList (NativeMethod.keysToList.call (.obj ⟨2, 1⟩) [])
      [.int 2, .int 3, .int 1] ∧
    ((m.served (reordering ⟨2, 1⟩)).requested .undo).MakesList
      (NativeMethod.keysToList.call (.obj ⟨2, 1⟩) []) [.int 1, .int 2] := by
  have hrun : (load almanac {} {}).toOption.any (fun base =>
      decide (Ends (construct 0 .table [.int 1, .nil, .int 2, .truth] base) (fun v m =>
        v = .obj ⟨2, 1⟩ ∧ m.heap.wrapped = false ∧ m.hasAfter ⟨2, 1⟩ (reordering ⟨2, 1⟩) = true ∧
          (m.served (reordering ⟨2, 1⟩)).heap.entriesAt? ⟨2, 1⟩ =
            some [(.int 2, .truth), (.int 3, .nil), (.int 1, .truth)] ∧
          ((m.served (reordering ⟨2, 1⟩)).requested .undo).heap.contains ⟨2, 1⟩ = true ∧
          ((m.served (reordering ⟨2, 1⟩)).requested .undo).heap.entriesAt? ⟨2, 1⟩ =
            some [(.int 1, .nil), (.int 2, .truth)]) fun _ _ => False)) = true := by
    decide +kernel
  obtain ⟨base, hload, hrun⟩ := exists_load_of_any hrun
  simp only [decide_eq_true_eq] at hrun
  obtain ⟨v, m, hnew, hv, hwrap, hall, hentries, hlive, hentries'⟩ := hrun.exists_ok
  rw [hv] at hnew
  have hother := target_ne_of_construct [] (orderly_of_load hload) hwrap hnew
  have hm := (Told.made [] 0 _ hnew hother).served hall
  obtain ⟨hshows, -, -, hnext⟩ := Told.shows_history hload hm
  exact ⟨base, m, hload, hnew, hshows.keysToList hentries, (hnext .undo hlive).keysToList hentries'⟩

end Machine

end StoryMachine
