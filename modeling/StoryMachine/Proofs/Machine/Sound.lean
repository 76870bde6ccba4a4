import StoryMachine.Machine.Run
import StoryMachine.Proofs.Heap.Collect
import StoryMachine.Proofs.Heap.Image
import StoryMachine.Proofs.Heap.Savepoint
import StoryMachine.Proofs.Pool.Calls

/-!
# Machines that own what they hold

A machine owns a count of every value on its stack, of the receivers and definers
of its calls, of its global variables and of its last result. In the middle of an
instruction there are also counts in its *hands*: those of operands that have been
taken off, and of results that have not been put on yet. A machine is *sound* if
the counts of its object table are those of its places and its hands together.

An instruction is made of parts. Some only look at the machine, and others give a
value with a count of its own but leave the stack and the variables alone. A part
that runs out of memory may lose counts, and no other fault does.

* `Machine.Sound`: the invariant;
* `Ends`: what is true once a part has ended, with a result or a fault;
* `Machine.Peeks`, `Machine.Yields`: parts that look, and parts that give a value;
* `newString_yields`, `newList_yields`, `owned_yields`: where values come from.
-/

namespace StoryMachine

/-! ## How a part ends -/

section Ends

variable {ε σ α β : Type} {s : σ} {r : EStateM.Result ε σ α} {x : EStateM ε σ α}
  {f : α → EStateM ε σ β} {Q R : α → σ → Prop} {E F : ε → σ → Prop} {T : β → σ → Prop}

/-- What is true at the end: `Q` of a result, and `E` of a fault. -/
def Ends (r : EStateM.Result ε σ α) (Q : α → σ → Prop) (E : ε → σ → Prop) : Prop :=
  match r with
  | .ok a s => Q a s
  | .error e s => E e s

instance [∀ a s, Decidable (Q a s)] [∀ e s, Decidable (E e s)] : Decidable (Ends r Q E) :=
  match r with
  | .ok a s => inferInstanceAs (Decidable (Q a s))
  | .error e s => inferInstanceAs (Decidable (E e s))

theorem Ends.exists_ok (hr : Ends r Q fun _ _ => False) : ∃ a s, r = .ok a s ∧ Q a s := by
  cases r with
  | ok a s => exact ⟨a, s, rfl, hr⟩
  | error e s => exact hr.elim

theorem Ends.mono (hr : Ends r Q E) (hQ : ∀ a s, Q a s → R a s) (hE : ∀ e s, E e s → F e s) :
    Ends r R F := by
  cases r with
  | ok a s => exact hQ a s hr
  | error e s => exact hE e s hr

theorem Ends.and (hQ : Ends r Q E) (hR : Ends r R F) :
    Ends r (fun a s => Q a s ∧ R a s) fun e s => E e s ∧ F e s := by
  cases r with
  | ok a s => exact ⟨hQ, hR⟩
  | error e s => exact ⟨hQ, hR⟩

theorem Ends.bind (hx : Ends (x s) Q E) (hf : ∀ a s', Q a s' → Ends (f a s') T F)
    (hE : ∀ e s', E e s' → F e s') : Ends ((x >>= f) s) T F := by
  change Ends (EStateM.bind x f s) T F
  unfold EStateM.bind
  cases hr : x s with
  | ok a s' => exact hf a s' (by rwa [hr] at hx)
  | error e s' => exact hE e s' (by rwa [hr] at hx)

theorem bind_eq_of_ok {a : α} {s' : σ} (hx : x s = .ok a s') : (x >>= f) s = f a s' := by
  change EStateM.bind x f s = _
  rw [EStateM.bind, hx]

theorem bind_eq_of_error {e : ε} {s' : σ} (hx : x s = .error e s') : (x >>= f) s = .error e s' := by
  change EStateM.bind x f s = _
  rw [EStateM.bind, hx]

/-- A part that is known to succeed. -/
theorem Ends.bind_ok {a : α} {s' : σ} (hx : x s = .ok a s') (hf : Ends (f a s') T F) :
    Ends ((x >>= f) s) T F := by
  change Ends (EStateM.bind x f s) T F
  rwa [EStateM.bind, hx]

theorem Ends.bind_error {e : ε} {s' : σ} (hx : x s = .error e s') (hF : F e s') :
    Ends ((x >>= f) s) T F := by
  change Ends (EStateM.bind x f s) T F
  rwa [EStateM.bind, hx]

/-- A part that goes by the state. -/
theorem Ends.get {f : σ → EStateM ε σ β} (hf : Ends (f s s) T F) : Ends ((get >>= f) s) T F := hf

end Ends

section Cleanup

variable {α : Type} {m : Machine} {x : MachineM α} {cleanup : MachineM Unit}
  {Q R : α → Machine → Prop} {E F : Fault → Machine → Prop}

theorem attempt_ok {a : α} {m' : Machine} (hx : x m = .ok a m') :
    attempt x m = .ok (.ok a) m' := by
  rw [attempt, hx]

theorem attempt_error {e : Fault} {m' : Machine} (hx : x m = .error e m') :
    attempt x m = .ok (.error e) m' := by
  rw [attempt, hx]

theorem onFault_ok {a : α} {m' : Machine} (hx : x m = .ok a m') (cleanup : MachineM Unit) :
    onFault x cleanup m = .ok a m' :=
  bind_eq_of_ok (attempt_ok hx)

/-- A cleanup that cannot fault itself comes after a fault. -/
theorem Ends.onFault (hx : Ends (x m) Q E)
    (hE : ∀ e m', E e m' → ∃ m'', cleanup m' = .ok () m'' ∧ F e m'') :
    Ends (onFault x cleanup m) Q F := by
  cases hr : x m with
  | ok a m' =>
    rw [hr] at hx
    exact Ends.bind_ok (attempt_ok hr) hx
  | error e m' =>
    rw [hr] at hx
    obtain ⟨m'', hm'', hF⟩ := hE e m' hx
    exact Ends.bind_ok (attempt_error hr) (Ends.bind_ok hm'' hF)

/-- A cleanup that cannot fault itself comes at the end. -/
theorem Ends.andAfter (hx : Ends (x m) Q E)
    (hQ : ∀ a m', Q a m' → ∃ m'', cleanup m' = .ok () m'' ∧ R a m'')
    (hE : ∀ e m', E e m' → ∃ m'', cleanup m' = .ok () m'' ∧ F e m'') :
    Ends (andAfter x cleanup m) R F := by
  cases hr : x m with
  | ok a m' =>
    rw [hr] at hx
    obtain ⟨m'', hm'', hR⟩ := hQ a m' hx
    exact Ends.bind_ok (attempt_ok hr) (Ends.bind_ok hm'' hR)
  | error e m' =>
    rw [hr] at hx
    obtain ⟨m'', hm'', hF⟩ := hE e m' hx
    exact Ends.bind_ok (attempt_error hr) (Ends.bind_ok hm'' hF)

end Cleanup

/-- The fault is not an exception on its way, and so has no count with it. -/
def Fault.Plain : Fault → Prop
  | thrown _ => False
  | _ => True

/-- There was no room for an object. -/
def Fault.isMemory : Fault → Bool
  | failed f => f.code == .outOfMemory
  | _ => false

/-! ## The invariant -/

/-- What is true of every image that has been loaded. -/
structure Image.Ready (i : Image) : Prop where
  /-- Exported values are constants and image objects. -/
  exports : ∀ e ∈ i.exports, e.2.Portable
  /-- Objects hold such values only. -/
  objects : ∀ d ∈ i.objects, ∀ v ∈ d.2.body.edges, v.Portable
  /-- The machine can make objects of the kinds it makes on its own. -/
  required : ∀ kind ∈ MetaclassTable.required, i.metaclasses.hasKind kind = true
  /-- The identity is a digest. -/
  identity : i.identity.length = 32

/-- The place where the arguments of the outermost call start, if there is a call. -/
def Stack.base? (s : Stack) : Option Nat := s.frames.getLast?.map Frame.argBase

/-- What a machine is to keep to. -/
structure Terms where
  /-- Whether names may be held that have outlived their objects. -/
  stale : Bool
  /-- Where the outermost call starts, if there has to be one. -/
  base? : Option Nat
  /-- The names that the host has come to know. -/
  names : Set ObjectId

/-- The same, but there need not be a call. -/
def Terms.loose (t : Terms) : Terms := { t with base? := none }

namespace Machine

variable {terms : Terms} {m m' m'' : Machine} {held rest : Multiset Value} {v : Value}
  {vs : List Value}

/-- Everything that the machine owns a count of. -/
def placed (m : Machine) : Multiset Value := m.stack.held + m.globals.toList + {m.result}

/-- The counts are those of what the machine has in its places and in its hands.
    The image's objects are still there, so that a restart can put them back, the
    stack is within its limits, and the locals of each call end where its operands
    start. -/
structure Sound (m : Machine) (terms : Terms) (held : Multiset Value) : Prop where
  /-- The image is as a loaded one. -/
  ready : m.image.Ready
  /-- The objects of the image are there. -/
  defined : ∀ d ∈ m.image.objects, m.heap.isPersistent (.ofImage d.1) = true
  /-- There are not too many values on the stack. -/
  fits : m.stack.values.size ≤ m.stack.settings.stackSize
  /-- The operands of a call start after its locals. -/
  laidOut : ∀ f ∈ m.stack.frames, f.localBase + f.header.locals.toNat = f.stackBase
  /-- The outermost call starts where it has to. -/
  based : ∀ b ∈ terms.base?, m.stack.base? = some b
  /-- What the host knows means an object, or has outlived it. -/
  named : m.heap.wrapped = false → ∀ id ∈ terms.names, m.heap.Known true id
  /-- The counts are owned. -/
  counted : m.heap.Counted terms.stale (m.placed + held)

/-- The part has left the stack and the variables alone. -/
structure Beside (m m' : Machine) : Prop where
  /-- It is the same image. -/
  image : m'.image = m.image
  /-- And the same stack. -/
  stack : m'.stack = m.stack
  /-- The variables have their values. -/
  globals : m'.globals = m.globals
  /-- And so has the last result. -/
  result : m'.result = m.result
  /-- Names are as they were or have outlived their objects. -/
  onward : m.heap.Onward m'.heap

/-- Nothing that a part which only looks can change has changed: pages may have
    been read. -/
def Peeked (m m' : Machine) : Prop := ∃ pools, m.pools.Later pools ∧ m' = { m with pools }

/-- The value may be held: if it is the name of an object, then of one that is
    there, or was if names may outlive their objects. -/
def Knows (m : Machine) (terms : Terms) (v : Value) : Prop :=
  ∀ id, v = .obj id → m.heap.Reliable terms.stale → m.heap.Known terms.stale id

theorem Beside.refl (m : Machine) : m.Beside m := ⟨rfl, rfl, rfl, rfl, .refl _⟩

theorem Beside.trans (h₁ : m.Beside m') (h₂ : m'.Beside m'') : m.Beside m'' where
  image := h₂.image.trans h₁.image
  stack := h₂.stack.trans h₁.stack
  globals := h₂.globals.trans h₁.globals
  result := h₂.result.trans h₁.result
  onward := h₁.onward.trans h₂.onward

theorem Beside.placed (hb : m.Beside m') : m'.placed = m.placed := by
  rw [Machine.placed, Machine.placed, hb.stack, hb.globals, hb.result]

theorem Beside.withHeap {h : Heap} (hon : m.heap.Onward h) : m.Beside { m with heap := h } :=
  ⟨rfl, rfl, rfl, rfl, hon⟩

theorem Peeked.refl (m : Machine) : m.Peeked m := ⟨m.pools, .refl _, rfl⟩

theorem Peeked.beside (hp : m.Peeked m') : m.Beside m' := by
  obtain ⟨pools, -, rfl⟩ := hp
  exact ⟨rfl, rfl, rfl, rfl, .refl _⟩

theorem Peeked.heap (hp : m.Peeked m') : m'.heap = m.heap := by
  obtain ⟨pools, -, rfl⟩ := hp
  rfl

theorem Sound.beside (hm : m.Sound terms held) (hb : m.Beside m')
    (hc : m'.heap.Counted terms.stale (m.placed + rest)) : m'.Sound terms rest where
  ready := hb.image ▸ hm.ready
  defined d hd := hb.onward.persistent _ (hm.defined d (hb.image ▸ hd))
  fits := hb.stack ▸ hm.fits
  laidOut := hb.stack ▸ hm.laidOut
  based := hb.stack ▸ hm.based
  named hw id hid := hb.onward.known hw (hm.named (hb.onward.wrapped hw) id hid)
  counted := hb.placed ▸ hc

theorem Peeked.later (hp : m.Peeked m') : m.pools.Later m'.pools := by
  obtain ⟨pools, hlater, rfl⟩ := hp
  exact hlater

/-- Counts are not about the pools. -/
theorem Sound.withPools (hm : m.Sound terms held) (pools : Pools) :
    Sound { m with pools } terms held :=
  hm.beside ⟨rfl, rfl, rfl, rfl, .refl _⟩ hm.counted

theorem Sound.peeked (hm : m.Sound terms held) (hp : m.Peeked m') : m'.Sound terms held := by
  obtain ⟨pools, -, rfl⟩ := hp
  exact hm.withPools pools

theorem Sound.congr (hm : m.Sound terms held) (hs : Heap.SameObjects held rest) : m.Sound terms rest :=
  ⟨hm.ready, hm.defined, hm.fits, hm.laidOut, hm.based, hm.named, hm.counted.congr (hs.add_left _)⟩

theorem Sound.loose (hm : m.Sound terms held) : m.Sound terms.loose held :=
  ⟨hm.ready, hm.defined, hm.fits, hm.laidOut, fun _ hb => by simp [Terms.loose] at hb, hm.named,
    hm.counted⟩

theorem Sound.rebase (hm : m.Sound terms.loose held)
    (hb : ∀ b ∈ terms.base?, m.stack.base? = some b) : m.Sound terms held :=
  ⟨hm.ready, hm.defined, hm.fits, hm.laidOut, hb, hm.named, hm.counted⟩

/-! ## Values that may be held -/

theorem Knows.peeked (hk : m.Knows terms v) (hp : m.Peeked m') : m'.Knows terms v := by
  rw [Knows, hp.heap]
  exact hk

theorem Knows.of_portable (hv : v.Portable) : m.Knows terms v := fun id hid _ => .inl (hv id hid)

theorem Knows.of_contains {id : ObjectId} (hid : m.heap.contains id = true) : m.Knows terms (.obj id) :=
  fun _ he _ => .inr (.inl (Value.obj.inj he ▸ hid))

theorem Sound.knows_of_mem (hm : m.Sound terms held) (hv : v ∈ m.heap.owned + (m.placed + held)) :
    m.Knows terms v := by
  rintro id rfl hr
  exact (hm.counted.balanced hr).known id hv

theorem Sound.knows_owned (hm : m.Sound terms held) (hv : v ∈ m.placed + held) :
    m.Knows terms v :=
  hm.knows_of_mem (Multiset.mem_add.2 (.inr hv))

theorem Sound.knows_placed (hm : m.Sound terms held) (hv : v ∈ m.placed) : m.Knows terms v :=
  hm.knows_owned (Multiset.mem_add.2 (.inl hv))

theorem Sound.knows_held (hm : m.Sound terms held) (hv : v ∈ held) : m.Knows terms v :=
  hm.knows_owned (Multiset.mem_add.2 (.inr hv))

theorem Sound.knows_edge (hm : m.Sound terms held) {id : ObjectId} {o : Object}
    (ho : m.heap.get? id = some o) (hv : v ∈ o.body.edges) : m.Knows terms v := by
  obtain ⟨oc, hoc, rfl⟩ := Heap.get?_eq_some_iff.1 ho
  exact hm.knows_of_mem (Multiset.mem_add.2 (.inl (Heap.mem_owned_of_edge hoc hv)))

end Machine

end StoryMachine
