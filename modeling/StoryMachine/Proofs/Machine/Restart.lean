import StoryMachine.Proofs.Heap.Names
import StoryMachine.Proofs.Image.Accepted
import StoryMachine.Proofs.Machine.Aside

/-!
# The objects of the image

A machine that has been loaded has the objects of its image and no others, and each is
of a metaclass for its kind. A restart clears the object table and defines the objects
of the image again, which cannot fail.

* `Heap.Bears`, `Heap.Bears.foldl`: a table in which objects of an image are defined;
* `Machine.heap_of_load`, `Machine.bears_of_load`: a machine that has been loaded;
* `Machine.restart_eq_ok`, `Machine.Kept.restart`: a machine that has been restarted.
-/

namespace StoryMachine

/-! ## Metaclasses -/

/-- Entries are added at the end. -/
theorem MetaclassTable.get?_ensureRequired {t : MetaclassTable} {id : MetaclassId} {e : MetaclassEntry}
    (he : t.get? id = some e) : t.ensureRequired.get? id = some e := by
  have hfold (kinds : List Kind) (t : MetaclassTable) (he : t.get? id = some e) :
      (kinds.foldl (fun t kind =>
        if t.hasKind kind then t
        else ⟨t.entries.push { kind, requested := kind.version, props := [] }⟩) t).get? id =
        some e := by
    induction kinds generalizing t with
    | nil => exact he
    | cons kind kinds ih =>
      refine ih _ ?_
      dsimp only
      split
      · exact he
      · rw [get?] at he ⊢
        obtain ⟨hlt, hval⟩ := Array.getElem?_eq_some_iff.1 he
        rw [Array.getElem?_push_lt hlt, hval]
  exact hfold _ t he

namespace Heap

variable {base : Machine} {h h' : Heap} {ds : List (UInt32 × Object)} {n : UInt32} {object : Object}
  {id : ObjectId}

/-! ## Tables of image objects -/

/-- A table with objects of an image and no others, in which nothing has happened yet. -/
structure Bears (limits : HeapSettings) (h : Heap) (ds : List (UInt32 × Object)) : Prop where
  /-- The objects are these. -/
  holds : h.Holds ds
  /-- They have been counted. -/
  live : h.live = ds.length
  /-- There is nothing to go back to. -/
  undo : h.undo = { maxSavepoints := limits.maxSavepoints }
  /-- The limits are the given ones. -/
  limits : h.settings = limits

variable {limits : HeapSettings} {d : UInt32 × Object}

theorem withDefined_of_ok (hok : Heap.define d.1 d.2 h = .ok id h') : h.withDefined d = h' := by
  rw [Heap.withDefined, hok]

theorem bears_new (limits : HeapSettings) : (Heap.new limits).Bears limits [] :=
  ⟨holds_new limits, rfl, rfl, rfl⟩

theorem bears_clear (h : Heap) : h.clear.Bears h.settings [] where
  holds id o := by
    rw [occupant?_clear]
    constructor
    · intro ho
      cases ho
    · rintro ⟨d, hd, -⟩
      exact absurd hd List.not_mem_nil
  live := rfl
  undo := rfl
  limits := rfl

theorem Bears.openHoles (hb : h.Bears limits ds) (hsize : h.slots.size < 2 ^ 32) :
    h.openHoles.Bears limits ds := by
  have hop := opened_openHoles hsize
  refine ⟨fun id o => ?_, h.live_openHoles.trans hb.live, hop.frame.1.trans hb.undo,
    hop.frame.2.1.trans hb.limits⟩
  rw [hop.occupant?]
  exact hb.holds id o

/-- An object can be defined if its number is new and within the limits. -/
theorem Bears.withDefined (hb : h.Bears limits ds)
    (hd : d.1 ≠ 0 ∧ d.1.toNat < limits.maxObjects.toNat) (hnew : d.1 ∉ ds.map Prod.fst) :
    Heap.define d.1 d.2 h = .ok (.ofImage d.1) (h.withDefined d) ∧
      (h.withDefined d).Bears limits (ds ++ [d]) := by
  have hok := define_eq_ok hd.1 (hb.limits.symm ▸ hd.2) (hb.holds.isOccupied_eq_false hnew) d.2
  have hwith := hok
  rw [← withDefined_of_ok hok] at hwith
  obtain ⟨hholds, -, -, -, hsettings, hlive⟩ := hb.holds.define hwith
  refine ⟨hwith, hholds, ?_, ?_, hsettings.trans hb.limits⟩
  · rw [hlive, hb.live, List.length_append, List.length_singleton]
  · rw [withDefined_of_ok hok]
    exact (undo_place ..).trans hb.undo

/-- Objects can be defined one after the other if their numbers are all different. The
    induction is on the objects that are still to be defined. -/
theorem Bears.foldl {ds' : List (UInt32 × Object)} (hb : h.Bears limits ds)
    (hds : ∀ d ∈ ds', d.1 ≠ 0 ∧ d.1.toNat < limits.maxObjects.toNat)
    (hnodup : ((ds ++ ds').map Prod.fst).Nodup) {f : Heap → UInt32 × Object → Except Failure Heap}
    (hf : ∀ h d id h', Heap.define d.1 d.2 h = .ok id h' → f h d = .ok h') :
    ds'.foldlM f h = .ok (ds'.foldl Heap.withDefined h) ∧
      (ds'.foldl Heap.withDefined h).Bears limits (ds ++ ds') := by
  induction ds' generalizing h ds with
  | nil => exact ⟨rfl, (List.append_nil ds).symm ▸ hb⟩
  | cons d ds' ih =>
    obtain ⟨hd, hds⟩ := List.forall_mem_cons.1 hds
    rw [List.append_cons] at hnodup ⊢
    have hnew : d.1 ∉ ds.map Prod.fst := by
      simp only [List.map_append, List.nodup_append, List.map_cons, List.map_nil] at hnodup
      exact fun hmem => hnodup.1.2.2 _ hmem _ (List.mem_singleton.2 rfl) rfl
    obtain ⟨hok, hb'⟩ := hb.withDefined hd hnew
    obtain ⟨hfold, hb''⟩ := ih hb' hds hnodup
    refine ⟨?_, hb''⟩
    rw [List.foldlM_cons, hf h d _ _ hok]
    exact hfold

theorem Classed.clear (hc : h.Classed base) : h.clear.Classed base where
  limits := hc.limits
  size_ge := h.size_clear ▸ hc.size_ge
  size_le := h.size_clear ▸ hc.size_le
  typed _ id o ho := by
    rw [get?, occupant?_clear] at ho
    cases ho

theorem Classed.opened (hc : h.Classed base) (hop : h.Opened h') : h'.Classed base where
  limits := hop.frame.2.1.trans hc.limits
  size_ge := hop.size ▸ hc.size_ge
  size_le := by
    rw [hop.size, hop.frame.2.1]
    exact hc.size_le
  typed ht id o ho := by
    rw [get?, hop.occupant?] at ho
    exact hc.typed ht id o ho

/-- An object of the image goes to an empty slot. -/
theorem Classed.define (hc : h.Classed base)
    (ho : base.image.metaclasses.entries.size ≤ 65536 → object.Typed base.image.metaclasses)
    (hlt : n.toNat < h.settings.maxObjects.toNat) (hempty : h.isOccupied n.toNat = false) :
    Classed base { h.place n.toNat ⟨0, some ⟨object, 0, true⟩⟩ with live := h.live + 1 } where
  limits := (settings_place ..).trans hc.limits
  size_ge := by
    change _ ≤ (h.place _ _).slots.size
    rw [size_place]
    exact le_max_of_le_left hc.size_ge
  size_le := by
    change (h.place _ _).slots.size ≤ max 1 (h.place _ _).settings.maxObjects.toNat
    rw [size_place, settings_place]
    exact max_le hc.size_le (le_max_of_le_right hlt)
  typed ht id o hget := by
    have hocc : (h.place n.toNat ⟨0, some ⟨object, 0, true⟩⟩).occupant? id =
        if id = .ofImage n then some ⟨object, 0, true⟩ else h.occupant? id :=
      occupant?_place (.ofImage n) hempty rfl id
    obtain ⟨oc, hoc, rfl⟩ := get?_eq_some_iff.1 hget
    have hoc : (h.place n.toNat ⟨0, some ⟨object, 0, true⟩⟩).occupant? id = some oc := hoc
    rw [hocc] at hoc
    split at hoc
    · exact Option.some.inj hoc ▸ ho ht
    · exact hc.typed ht id _ (get?_eq_some_iff.2 ⟨oc, hoc, rfl⟩)

theorem Classed.withDefined (hc : h.Classed base)
    (hd : base.image.metaclasses.entries.size ≤ 65536 → d.2.Typed base.image.metaclasses) :
    (h.withDefined d).Classed base := by
  rcases h.define_cases d.1 d.2 with ⟨e, herr⟩ | ⟨-, hlt, hempty, hok⟩
  · rw [Heap.withDefined, herr]
    exact hc
  · rw [withDefined_of_ok hok]
    exact hc.define hd hlt hempty

theorem Classed.performed {op : Operation} (hc : h.Classed base)
    (hop : ∀ object, op = .alloc object → base.image.metaclasses.entries.size ≤ 65536 →
      object.Typed base.image.metaclasses) : (h.performed op).Classed base := by
  by_cases halloc : ∃ object, op = .alloc object
  · obtain ⟨object, rfl⟩ := halloc
    have hends := hc.alloc (hop object rfl)
    simp only [Heap.performed, Operation.perform, bind, EStateM.bind]
    cases hr : Heap.alloc object h with
    | ok id h' =>
      rw [hr] at hends
      exact hends
    | error e h' =>
      rw [hr] at hends
      exact hends
  · have hne : ∀ object, op ≠ .alloc object := fun object ho => halloc ⟨object, ho⟩
    rcases Operation.performs_of_ne_alloc (h := h) op hne with ⟨e, herr⟩ | ⟨taken, h', hok, hdoes⟩
    · rw [Heap.performed, herr]
      exact hc
    · rw [Heap.performed, hok]
      exact hc.ages ((hdoes.touches hne).ages)

end Heap

/-! ## Images that are loaded -/

namespace Loader

variable {settings : HeapSettings} {l l' : Loader} {b : Block}

/-- The objects have been defined one after the other. -/
def Built (settings : HeapSettings) (l : Loader) : Prop :=
  l.heap = l.objects.toList.foldl Heap.withDefined (.new settings)

theorem Built.defines {kind : Kind} {records : List DraftObject} (hl : l.Built settings)
    (hd : l.Defines kind records l') : l'.Built settings := by
  induction hd with
  | nil => exact hl
  | @cons l l' r records body id heap _ hdefine _ ih =>
    refine ih ?_
    rw [Built, Array.toList_push, List.foldl_append, ← hl]
    exact (Heap.withDefined_of_ok hdefine).symm

theorem Built.step (hl : l.Built settings) (hb : Step b l l') : l'.Built settings := by
  cases hb with
  | objects _ _ _ _ _ hdefines => exact hl.defines hdefines
  | _ => exact hl

theorem Built.foldlM {blocks : List Block} (hl : l.Built settings)
    (hok : blocks.foldlM Loader.block l = .ok l') : l'.Built settings :=
  foldlM_keeps (fun hl hb => hl.step (step_of_block hb)) hl hok

end Loader

/-- The objects of an image are defined in its order, and then the slots between them are
    opened. -/
theorem Image.heap_of_load {mode : PoolMode} {settings : HeapSettings} {image : Image} {pools : Pools}
    {heap : Heap} {bs : Bytes} (hok : Image.load bs mode settings = .ok (image, pools, heap)) :
    heap = (image.objects.toList.foldl Heap.withDefined (.new settings)).openHoles := by
  obtain ⟨l, hl⟩ := exists_loadedFrom hok
  have hobjects : image.objects = l.objects := hl.objects
  have hheap : heap = l.heap.openHoles := hl.heap
  have hstart : Loader.Built settings { pools := .new mode bs.toArray, heap := .new settings } := rfl
  have hbuilt : l.heap = l.objects.toList.foldl Heap.withDefined (.new settings) :=
    hstart.foldlM hl.taken
  rw [hheap, hobjects, hbuilt]

namespace Machine

variable {base m : Machine} {S : Stack → Prop} {bs : Bytes} {settings : MachineSettings} {host : Host}

/-- The objects of the image can all be defined, and are of metaclasses for their
    kinds. -/
structure Definable (base : Machine) : Prop where
  /-- No two have one number. -/
  nodup : (base.image.objects.toList.map Prod.fst).Nodup
  /-- The numbers are within the limits. -/
  numbers : ∀ d ∈ base.image.objects.toList, d.1 ≠ 0 ∧ d.1.toNat < base.heap.settings.maxObjects.toNat
  /-- They are of metaclasses for their kinds. -/
  typed : ∀ d ∈ base.image.objects.toList, d.2.Typed base.image.metaclasses

theorem heap_of_load (hok : load bs settings host = .ok m) :
    m.heap = Heap.filled settings.heap m.image.objects.toList := by
  obtain ⟨_, _, himage, -, -⟩ := parts_of_load hok
  rw [Heap.filled]
  exact Image.heap_of_load himage

theorem settings_of_load (hok : load bs settings host = .ok m) : m.heap.settings = settings.heap := by
  obtain ⟨_, _, himage, -, -⟩ := parts_of_load hok
  obtain ⟨-, l, _, _, -, -, hpopulated, hopened, -⟩ := Image.exists_of_load himage
  exact hopened.frame.2.1.trans hpopulated.stocked.limits

/-- The stack is empty. -/
theorem stack_of_load (hok : load bs settings host = .ok m) : m.stack = { settings := settings.stack } := by
  rw [load] at hok
  split at hok
  · cases hok
  obtain ⟨_, -, hok⟩ := Except.bind_eq_ok.1 hok
  obtain ⟨_, -, hok⟩ := Except.bind_eq_ok.1 hok
  rw [← Except.ok.inj hok]

theorem settings_stack_of_load (hok : load bs settings host = .ok m) :
    m.stack.settings = settings.stack := by
  rw [stack_of_load hok]

theorem definable_of_load (hok : load bs settings host = .ok m) : m.Definable := by
  obtain ⟨_, bytes, himage, -, -⟩ := parts_of_load hok
  obtain ⟨-, l, t, f, -, -, hpopulated, hopened, -, -, hobjects, hmetaclasses, hfinish⟩ :=
    Image.exists_of_load himage
  have hstocked := hpopulated.stocked
  refine ⟨hobjects ▸ hstocked.nodup, ?_, fun d hd => ?_⟩
  · rw [hobjects, settings_of_load hok]
    exact hstocked.numbers
  · rw [hobjects] at hd
    obtain ⟨i, hi, hdi⟩ := List.mem_iff_getElem.1 hd
    obtain ⟨t', ht', hdescribes⟩ :=
      hpopulated.described.get (hpopulated.described.length_eq ▸ hi) hi
    rw [(Loader.checked_of_finish hfinish).1.1] at ht'
    obtain rfl := Option.some.inj ht'
    rw [List.get_eq_getElem, List.get_eq_getElem, hdi] at hdescribes
    obtain ⟨-, hmetaclass, e, hget, hload⟩ := hdescribes
    rw [Object.Typed, hmetaclasses, hmetaclass, MetaclassTable.get?_ensureRequired hget,
      Option.map_some, (ObjectData.load_wellFormed hload).1]

theorem bears_of_load (hok : load bs settings host = .ok m) :
    m.heap.Bears settings.heap m.image.objects.toList := by
  have hd := definable_of_load hok
  have hfounded := Heap.founded_foldl_withDefined settings.heap m.image.objects.toList
  have hbears := ((Heap.bears_new settings.heap).foldl (settings_of_load hok ▸ hd.numbers) hd.nodup
    (f := fun h d => .ok (h.withDefined d)) fun h d id h' hdefine => by
      rw [Heap.withDefined_of_ok hdefine]).2
  rw [heap_of_load hok]
  exact hbears.openHoles (hfounded.size_le.trans_lt (max_lt (by decide) (UInt32.toNat_lt _)))

theorem classed_of_load (hok : load bs settings host = .ok m) : m.heap.Classed m := by
  have htidy := (load_sound true hok).1.counted.tidy
  refine ⟨rfl, le_rfl, htidy.size_le, fun _ id o ho => ?_⟩
  obtain ⟨oc, hoc, rfl⟩ := Heap.get?_eq_some_iff.1 ho
  obtain ⟨d, hmem, -, rfl⟩ := ((bears_of_load hok).holds id oc).1 hoc
  exact (definable_of_load hok).typed d hmem

/-! ## Restarts -/

/-- The table of a machine that has been restarted. -/
def refilled (m : Machine) : Heap :=
  (m.image.objects.toList.foldl Heap.withDefined m.heap.clear).openHoles

variable {m' : Machine}

theorem Kept.bears_foldl (hm : m.Kept base S) (hd : base.Definable)
    {f : Heap → UInt32 × Object → Except Failure Heap}
    (hf : ∀ h d id h', Heap.define d.1 d.2 h = .ok id h' → f h d = .ok h') :
    m.image.objects.toList.foldlM f m.heap.clear =
        .ok (m.image.objects.toList.foldl Heap.withDefined m.heap.clear) ∧
      (m.image.objects.toList.foldl Heap.withDefined m.heap.clear).Bears m.heap.settings
        m.image.objects.toList := by
  refine m.heap.bears_clear.foldl ?_ ?_ hf
  · rw [hm.same, hm.classed.limits]
    exact hd.numbers
  · rw [hm.same]
    exact hd.nodup

/-- The objects of the image can be defined again. -/
theorem restart_eq_ok (hm : m.Kept base S) (hd : base.Definable) : m.restart =
    .ok { m with heap := m.refilled, globals := m.globals.map fun _ => .nil, result := .nil } := by
  unfold restart
  dsimp only
  rw [← Array.foldlM_toList, (hm.bears_foldl hd fun h d id h' hok => by rw [hok]).1]
  rfl

theorem Kept.classed_foldl (hm : m.Kept base S) (hd : base.Definable) :
    (m.image.objects.toList.foldl Heap.withDefined m.heap.clear).Classed base := by
  refine List.foldlRecOn _ _ hm.classed.clear fun h hc d hmem => hc.withDefined fun _ => ?_
  rw [hm.same] at hmem
  exact hd.typed d hmem

theorem Kept.classed_refilled (hm : m.Kept base S) (hd : base.Definable) :
    m.refilled.Classed base :=
  (hm.classed_foldl hd).opened (Heap.opened_openHoles (hm.classed_foldl hd).size_lt)

theorem Kept.bears_refilled (hm : m.Kept base S) (hd : base.Definable) :
    m.refilled.Bears base.heap.settings base.image.objects.toList := by
  have hb := (hm.bears_foldl hd (f := fun h d => .ok (h.withDefined d)) fun h d id h' hok => by
    rw [Heap.withDefined_of_ok hok]).2.openHoles (hm.classed_foldl hd).size_lt
  rw [hm.classed.limits] at hb
  exact hm.same ▸ hb

theorem Kept.restart (hm : m.Kept base S) (hd : base.Definable) (hok : m.restart = .ok m') :
    m'.Kept base S ∧ m'.stack = m.stack := by
  rw [restart_eq_ok hm hd] at hok
  obtain rfl := Except.ok.inj hok
  exact ⟨⟨hm.same, hm.stack, hm.classed_refilled hd⟩, rfl⟩

end Machine

end StoryMachine
