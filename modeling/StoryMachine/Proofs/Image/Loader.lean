import StoryMachine.Proofs.Heap.Clear
import StoryMachine.Proofs.Image.Parts
import StoryMachine.Proofs.Machine.Sound
import StoryMachine.Proofs.Value.Portable

/-!
# What a loaded image is like

Whatever bytes an image is loaded from, its objects hold constants and image objects
only, and so do its exports. The machine has a metaclass for every kind of which it
makes objects on its own.

* `ObjectData.load_portable`: the content of an object;
* `Loader.Fits.block`: what one block adds;
* `Machine.load_sound`: a machine that has just been loaded.
-/

namespace StoryMachine

/-! ## Object data -/

namespace ObjectData

variable {bs rest : Bytes} {body : Body}

theorem part_eq_ok {α : Type} {r : Reader α} {a : α} (ha : part r bs = .ok (a, rest)) :
    r bs = some (a, rest) := Parser.of_eq_ok.1 ha

theorem values_set_portable {t : PropTable} {p : PropId} {v : Value}
    (ht : ∀ w ∈ t.entries.map Prod.snd, w.Portable) (hv : v.Portable) :
    ∀ w ∈ (t.set p v).entries.map Prod.snd, w.Portable := by
  intro w hw
  obtain ⟨e, he, rfl⟩ := List.mem_map.1 hw
  rcases PropTable.mem_insertEntry he with rfl | he
  · exact hv
  · exact ht _ (List.mem_map_of_mem he)

theorem props_portable {n : Nat} {t t' : PropTable} (ht : ∀ v ∈ t.entries.map Prod.snd, v.Portable)
    (hp : props n t bs = .ok (t', rest)) : ∀ v ∈ t'.entries.map Prod.snd, v.Portable := by
  induction n generalizing t bs with
  | zero =>
    obtain ⟨rfl, -⟩ := Parser.pure_eq_ok.1 hp
    exact ht
  | succ n ih =>
    obtain ⟨p, mid, -, hp⟩ := Parser.bind_eq_ok.1 hp
    obtain ⟨v, mid', hv, hp⟩ := Parser.bind_eq_ok.1 hp
    split at hp
    · cases hp
    split at hp
    · cases hp
    exact ih (values_set_portable ht (Reader.value_portable (part_eq_ok hv))) hp

theorem elements_portable {items : List Value} (hi : elements bs = .ok (items, rest)) :
    ∀ v ∈ items, v.Portable := by
  obtain ⟨n, mid, -, hi⟩ := Parser.bind_eq_ok.1 hi
  obtain ⟨vs, mid', hvs, hi⟩ := Parser.bind_eq_ok.1 hi
  obtain ⟨_, mid'', -, hi⟩ := Parser.bind_eq_ok.1 hi
  obtain ⟨rfl, -⟩ := Parser.pure_eq_ok.1 hi
  exact Reader.forall_mem_replicate (fun _ _ _ => Reader.value_portable) (part_eq_ok hvs)

theorem tableEntries_portable {n : Nat} {read entries : List (Value × Value)}
    (hread : ∀ e ∈ read, e.1.Portable ∧ e.2.Portable)
    (he : tableEntries n read bs = .ok (entries, rest)) :
    ∀ e ∈ entries, e.1.Portable ∧ e.2.Portable := by
  induction n generalizing read bs with
  | zero =>
    obtain ⟨rfl, -⟩ := Parser.pure_eq_ok.1 he
    simpa using hread
  | succ n ih =>
    obtain ⟨k, mid, hk, he⟩ := Parser.bind_eq_ok.1 he
    obtain ⟨v, mid', hv, he⟩ := Parser.bind_eq_ok.1 he
    split at he
    · cases he
    refine ih (List.forall_mem_cons.2 ⟨⟨?_, ?_⟩, hread⟩) he
    · exact Reader.value_portable (part_eq_ok hk)
    · exact Reader.value_portable (part_eq_ok hv)

/-- A body of a kind, and the reading that its values come from. -/
inductive Loaded : Kind → Body → Prop
  | program {n : Nat} {bs rest : Bytes} {table : PropTable} (supers : List UInt32)
      (htable : props n .empty bs = .ok (table, rest)) :
      Loaded .program (.program (supers.map .ofImage) table)
  | list {bs rest : Bytes} {items : List Value} (hitems : elements bs = .ok (items, rest)) :
      Loaded .list (.list items)
  | vector {bs rest : Bytes} {items : List Value} (hitems : elements bs = .ok (items, rest)) :
      Loaded .vector (.vector items)
  | string (text : String) : Loaded .string (.string text)
  | table {n : Nat} {bs rest : Bytes} {entries : List (Value × Value)}
      (hentries : tableEntries n [] bs = .ok (entries, rest)) : Loaded .table (.table entries)

theorem loaded_of_load {kind : Kind} (hok : load kind bs = .ok body) : Loaded kind body := by
  obtain ⟨⟨body', rest⟩, hr, heq⟩ := Except.map_eq_ok.1 hok
  obtain rfl : body' = body := heq
  cases kind with
  | program =>
    obtain ⟨_, _, -, hr⟩ := Parser.bind_eq_ok.1 hr
    obtain ⟨_, _, -, hr⟩ := Parser.bind_eq_ok.1 hr
    obtain ⟨_, _, -, hr⟩ := Parser.bind_eq_ok.1 hr
    obtain ⟨supers, _, -, hr⟩ := Parser.bind_eq_ok.1 hr
    obtain ⟨table, _, htable, hr⟩ := Parser.bind_eq_ok.1 hr
    obtain ⟨_, _, -, hr⟩ := Parser.bind_eq_ok.1 hr
    obtain ⟨rfl, -⟩ := Parser.pure_eq_ok.1 hr
    exact .program supers htable
  | list =>
    obtain ⟨items, _, hitems, hr⟩ := Parser.bind_eq_ok.1 hr
    obtain ⟨rfl, -⟩ := Parser.pure_eq_ok.1 hr
    exact .list hitems
  | vector =>
    obtain ⟨items, _, hitems, hr⟩ := Parser.bind_eq_ok.1 hr
    obtain ⟨rfl, -⟩ := Parser.pure_eq_ok.1 hr
    exact .vector hitems
  | string =>
    obtain ⟨_, _, -, hr⟩ := Parser.bind_eq_ok.1 hr
    obtain ⟨text, _, -, hr⟩ := Parser.bind_eq_ok.1 hr
    obtain ⟨_, _, -, hr⟩ := Parser.bind_eq_ok.1 hr
    obtain ⟨rfl, -⟩ := Parser.pure_eq_ok.1 hr
    exact .string text
  | table =>
    obtain ⟨_, _, -, hr⟩ := Parser.bind_eq_ok.1 hr
    obtain ⟨entries, _, hentries, hr⟩ := Parser.bind_eq_ok.1 hr
    obtain ⟨_, _, -, hr⟩ := Parser.bind_eq_ok.1 hr
    obtain ⟨rfl, -⟩ := Parser.pure_eq_ok.1 hr
    exact .table hentries

theorem load_portable {kind : Kind} (hb : load kind bs = .ok body) :
    ∀ v ∈ body.edges, v.Portable := by
  cases loaded_of_load hb with
  | program supers htable =>
    refine List.forall_mem_append.2 ⟨fun v hv => ?_, props_portable (by simp [PropTable.empty]) htable⟩
    obtain ⟨id, hid, rfl⟩ := List.mem_map.1 hv
    obtain ⟨n, -, rfl⟩ := List.mem_map.1 hid
    exact Value.portable_ofImage n
  | list hitems | vector hitems => exact elements_portable hitems
  | string => exact List.forall_mem_nil _
  | table hentries =>
    have hentries := tableEntries_portable (List.forall_mem_nil _) hentries
    intro v hv
    obtain ⟨e, he, hv⟩ := List.mem_flatMap.1 hv
    rcases List.mem_pair.1 hv with rfl | rfl
    · exact (hentries e he).1
    · exact (hentries e he).2

end ObjectData

/-! ## Blocks -/

namespace Loader

variable {settings : HeapSettings} {l l' : Loader} {bs rest : Bytes} {b : Block}

/-- What is true of an image as far as it has been loaded. -/
structure Fits (settings : HeapSettings) (l : Loader) : Prop where
  /-- The objects have been defined. -/
  refilled : (Heap.new settings).Refilled (l.objects.toList.map Prod.fst) l.heap
  /-- They hold constants and image objects. -/
  objects : ∀ d ∈ l.objects, ∀ v ∈ d.2.body.edges, v.Portable
  /-- Such values are exported. -/
  exports : ∀ e ∈ l.exports, e.2.Portable

theorem Fits.congr (hl : l.Fits settings) (hheap : l'.heap = l.heap)
    (hobjects : l'.objects = l.objects) (hexports : l'.exports = l.exports) : l'.Fits settings := by
  refine ⟨?_, ?_, ?_⟩
  · rw [hheap, hobjects]
    exact hl.refilled
  · rw [hobjects]
    exact hl.objects
  · rw [hexports]
    exact hl.exports

/-- An object is read from its three fields and defined, and then come the others. -/
theorem objectEntries_succ_eq_ok {metaclass : MetaclassId} {kind : Kind} {large : Bool} {n : Nat} :
    objectEntries metaclass kind large (n + 1) l bs = .ok (l', rest) ↔
      ∃ id mid length mid₁ data mid₂ body id' heap, part "OBJS" Reader.u32 bs = .ok (id, mid) ∧
        part "OBJS" (Reader.nat (if large then 4 else 2)) mid = .ok (length, mid₁) ∧
        part "OBJS" (Reader.bytes length) mid₁ = .ok (data, mid₂) ∧
        ObjectData.load kind data = .ok body ∧
        Heap.define id ⟨metaclass, body⟩ l.heap = .ok id' heap ∧
        objectEntries metaclass kind large n
          { l with heap, objects := l.objects.push (id, ⟨metaclass, body⟩) } mid₂ = .ok (l', rest) := by
  rw [Loader.objectEntries]
  constructor
  · intro hok
    obtain ⟨id, mid, hid, hok⟩ := Parser.bind_eq_ok.1 hok
    obtain ⟨length, mid₁, hlength, hok⟩ := Parser.bind_eq_ok.1 hok
    obtain ⟨data, mid₂, hdata, hok⟩ := Parser.bind_eq_ok.1 hok
    cases hload : ObjectData.load kind data with
    | error e =>
      rw [hload] at hok
      cases hok
    | ok body =>
      rw [hload] at hok
      obtain ⟨_, _, hbody, hok⟩ := Parser.bind_eq_ok.1 hok
      obtain ⟨rfl, rfl⟩ := Parser.pure_eq_ok.1 hbody
      cases hdefine : Heap.define id ⟨metaclass, body⟩ l.heap with
      | error e h =>
        simp only [hdefine] at hok
        cases hok
      | ok id' heap =>
        simp only [hdefine] at hok
        exact ⟨id, mid, length, mid₁, data, mid₂, body, id', heap, hid, hlength, hdata, hload,
          hdefine, hok⟩
  · rintro ⟨id, mid, length, mid₁, data, mid₂, body, id', heap, hid, hlength, hdata, hload, hdefine,
      hok⟩
    refine Parser.bind_eq_ok.2 ⟨id, mid, hid, Parser.bind_eq_ok.2 ⟨length, mid₁, hlength,
      Parser.bind_eq_ok.2 ⟨data, mid₂, hdata, ?_⟩⟩⟩
    rw [hload]
    refine Parser.bind_eq_ok.2 ⟨body, mid₂, rfl, ?_⟩
    simp only [hdefine]
    exact hok

theorem Fits.objectEntries {metaclass : MetaclassId} {kind : Kind} {large : Bool} {n : Nat}
    (hl : l.Fits settings) (hok : objectEntries metaclass kind large n l bs = .ok (l', rest)) :
    l'.Fits settings := by
  induction n generalizing l bs with
  | zero =>
    obtain ⟨rfl, -⟩ := Parser.pure_eq_ok.1 hok
    exact hl
  | succ n ih =>
    obtain ⟨id, _, _, _, data, mid, body, _, heap, -, -, -, hdata, hdefine, hok⟩ :=
      objectEntries_succ_eq_ok.1 hok
    have hportable := ObjectData.load_portable hdata
    have hobjects : ∀ d ∈ l.objects.push (id, ⟨metaclass, body⟩),
        ∀ v ∈ d.2.body.edges, v.Portable := fun d hd => by
      rcases Array.mem_push.1 hd with hd | rfl
      · exact hl.objects d hd
      · exact hportable
    have hrefilled : (Heap.new settings).Refilled
        ((l.objects.push (id, ⟨metaclass, body⟩)).toList.map Prod.fst) heap := by
      simpa using hl.refilled.define hportable hdefine
    have hfits : Fits settings
        { l with heap, objects := l.objects.push (id, ⟨metaclass, body⟩) } :=
      ⟨hrefilled, hobjects, hl.exports⟩
    exact ih hfits hok

theorem symbolEntries_portable {n : Nat} {e e' : Exports} (he : ∀ d ∈ e, d.2.Portable)
    (hok : symbolEntries n e bs = .ok (e', rest)) : ∀ d ∈ e', d.2.Portable := by
  induction n generalizing e bs with
  | zero =>
    obtain ⟨rfl, -⟩ := Parser.pure_eq_ok.1 hok
    exact he
  | succ n ih =>
    obtain ⟨v, mid, hv, hok⟩ := Parser.bind_eq_ok.1 hok
    obtain ⟨name, mid, -, hok⟩ := Parser.bind_eq_ok.1 hok
    refine ih (List.forall_mem_append.2 ⟨fun d hd => he d (List.mem_of_mem_filter hd), ?_⟩) hok
    simpa using Reader.value_portable (Parser.of_eq_ok.1 hv)

theorem Fits.metaclassTable (hl : l.Fits settings) (hok : metaclassTable l bs = .ok l') :
    l'.Fits settings := by
  unfold Loader.metaclassTable at hok
  split at hok
  · cases hok
  obtain ⟨p, -, hok⟩ := Except.bind_eq_ok.1 hok
  obtain ⟨q, -, hok⟩ := Except.bind_eq_ok.1 hok
  obtain rfl := Except.ok.inj hok
  exact hl.congr rfl rfl rfl

theorem Fits.functionSetTable (hl : l.Fits settings) (hok : functionSetTable l bs = .ok l') :
    l'.Fits settings := by
  unfold Loader.functionSetTable at hok
  split at hok
  · cases hok
  obtain ⟨p, -, hok⟩ := Except.bind_eq_ok.1 hok
  obtain ⟨q, -, hok⟩ := Except.bind_eq_ok.1 hok
  obtain rfl := Except.ok.inj hok
  exact hl.congr rfl rfl rfl

theorem Fits.poolDefinition (hl : l.Fits settings) (hok : poolDefinition l bs = .ok l') :
    l'.Fits settings := by
  obtain ⟨p, -, hok⟩ := Except.bind_eq_ok.1 hok
  obtain ⟨pools, -, hok⟩ := Except.bind_eq_ok.1 hok
  obtain rfl := Except.ok.inj hok
  exact hl.congr rfl rfl rfl

theorem Fits.poolPage (hl : l.Fits settings) (hok : poolPage l b = .ok l') :
    l'.Fits settings := by
  have hadd {data : Except Failure PageData} {add : PageData → Except Failure Pools}
      (hok : (data >>= fun data => add data >>= fun pools => pure { l with pools }) = .ok l') :
      l'.Fits settings := by
    obtain ⟨data, -, hok⟩ := Except.bind_eq_ok.1 hok
    obtain ⟨pools, -, hok⟩ := Except.bind_eq_ok.1 hok
    obtain rfl := Except.ok.inj hok
    exact hl.congr rfl rfl rfl
  unfold Loader.poolPage at hok
  by_cases hsize : b.size.toNat < pageFieldsSize
  · rw [if_pos hsize] at hok
    cases hok
  rw [if_neg hsize] at hok
  dsimp only at hok
  split at hok
  · cases hok
  obtain ⟨p, -, hok⟩ := Except.bind_eq_ok.1 hok
  split at hok
  · exact hadd hok
  split at hok
  · exact hadd hok
  · exact hadd hok

theorem Fits.objectRun (hl : l.Fits settings) (hok : objectRun l bs = .ok l') :
    l'.Fits settings := by
  unfold Loader.objectRun at hok
  split at hok
  · cases hok
  obtain ⟨p, -, hok⟩ := Except.bind_eq_ok.1 hok
  dsimp only at hok
  split at hok
  · cases hok
  obtain ⟨q, hq, hok⟩ := Except.bind_eq_ok.1 hok
  split at hok
  · cases hok
  obtain rfl := Except.ok.inj hok
  exact hl.objectEntries hq

theorem Fits.symbols (hl : l.Fits settings) (hok : symbols l bs = .ok l') : l'.Fits settings := by
  obtain ⟨p, -, hok⟩ := Except.bind_eq_ok.1 hok
  obtain ⟨q, hq, hok⟩ := Except.bind_eq_ok.1 hok
  obtain rfl := Except.ok.inj hok
  exact ⟨hl.refilled, hl.objects, symbolEntries_portable hl.exports hq⟩

theorem Fits.entryPoint (hl : l.Fits settings) (hok : entryPoint l bs = .ok l') :
    l'.Fits settings := by
  unfold Loader.entryPoint at hok
  split at hok
  · cases hok
  obtain ⟨p, -, hok⟩ := Except.bind_eq_ok.1 hok
  dsimp only at hok
  split at hok
  · cases hok
  split at hok
  · cases hok
  obtain rfl := Except.ok.inj hok
  exact hl.congr rfl rfl rfl

theorem fits_new (settings : HeapSettings) (pools : Pools) :
    Fits settings { pools, heap := .new settings } := by
  refine ⟨(Heap.imaged_new settings).refilled, fun d hd => ?_, fun e he => ?_⟩
  · exact absurd hd (Array.not_mem_empty d)
  · exact absurd he List.not_mem_nil

/-- Only runs of objects and exports matter. -/
theorem Fits.block (hl : l.Fits settings) (hok : block l b = .ok l') : l'.Fits settings := by
  have hpayload {f : Bytes → Except Failure Loader}
      (hf : ∀ bs l', f bs = .ok l' → l'.Fits settings) (hok : payload b >>= f = .ok l') :
      l'.Fits settings := by
    obtain ⟨bs, -, hok⟩ := Except.bind_eq_ok.1 hok
    exact hf bs l' hok
  unfold Loader.block at hok
  split at hok
  · obtain rfl := Except.ok.inj hok
    exact hl
  split at hok
  · exact hpayload (fun _ _ => hl.metaclassTable) hok
  split at hok
  · exact hpayload (fun _ _ => hl.functionSetTable) hok
  split at hok
  · exact hpayload (fun _ _ => hl.poolDefinition) hok
  split at hok
  · exact hl.poolPage hok
  split at hok
  · exact hpayload (fun _ _ => hl.objectRun) hok
  split at hok
  · exact hpayload (fun _ _ => hl.symbols) hok
  split at hok
  · exact hpayload (fun _ _ => hl.entryPoint) hok
  split at hok
  · cases hok
  · obtain rfl := Except.ok.inj hok
    exact hl

/-- What every block keeps is true once all are in. The induction is on the blocks. -/
theorem foldlM_keeps {P : Loader → Prop} {blocks : List Block}
    (hblock : ∀ {b : Block} {l l' : Loader}, P l → l.block b = .ok l' → P l') (hl : P l)
    (hok : blocks.foldlM Loader.block l = .ok l') : P l' := by
  induction blocks generalizing l with
  | nil =>
    obtain rfl := Except.ok.inj hok
    exact hl
  | cons b blocks ih =>
    rw [List.foldlM_cons] at hok
    obtain ⟨l₁, hb, hok⟩ := Except.bind_eq_ok.1 hok
    exact ih (hblock hl hb) hok

theorem Fits.foldlM {blocks : List Block} (hl : l.Fits settings)
    (hok : blocks.foldlM Loader.block l = .ok l') : l'.Fits settings :=
  foldlM_keeps (fun hl hb => hl.block hb) hl hok

end Loader

/-! ## Machines -/

namespace MetaclassTable

variable {t : MetaclassTable} {kind kind' : Kind}

theorem hasKind_push (ht : t.hasKind kind = true) (e : MetaclassEntry) :
    hasKind ⟨t.entries.push e⟩ kind = true := by
  obtain ⟨e', he', hkind⟩ := Array.any_eq_true'.1 ht
  exact Array.any_eq_true'.2 ⟨e', Array.mem_push_of_mem _ he', hkind⟩

/-- A table that has what is missing of some kinds added has them all. -/
theorem hasKind_foldl (kinds : List Kind) (t : MetaclassTable)
    (hk : kind ∈ kinds ∨ t.hasKind kind = true) :
    (kinds.foldl (fun t kind => if t.hasKind kind then t
      else ⟨t.entries.push { kind, requested := kind.version, props := [] }⟩) t).hasKind kind
      = true := by
  induction kinds generalizing t with
  | nil => exact hk.resolve_left List.not_mem_nil
  | cons kind' kinds ih =>
    rw [List.foldl_cons]
    refine ih _ ?_
    rcases hk with hk | hk
    · rcases List.mem_cons.1 hk with rfl | hk
      · right
        split
        · assumption
        · exact Array.any_eq_true'.2 ⟨_, Array.mem_push_self, by simp⟩
      · exact .inl hk
    · right
      split
      · exact hk
      · exact hasKind_push hk _

theorem hasKind_ensureRequired (t : MetaclassTable) (hk : kind ∈ required) :
    t.ensureRequired.hasKind kind = true :=
  hasKind_foldl required t (.inl hk)

end MetaclassTable

theorem Image.load_fits {bs : Bytes} {mode : PoolMode} {settings : HeapSettings} {image : Image}
    {pools : Pools} {heap : Heap} (hok : Image.load bs mode settings = .ok (image, pools, heap)) :
    image.Ready ∧ ∃ h, heap = h.openHoles ∧
      (Heap.new settings).Refilled (image.objects.toList.map Prod.fst) h := by
  obtain ⟨l, hl⟩ := exists_loadedFrom hok
  obtain ⟨t, -, -, hmetaclasses : image.metaclasses = _⟩ := hl.finish
  have hexports : image.exports = l.exports := hl.exports
  have hobjects : image.objects = l.objects := hl.objects
  have hidentity : image.identity = Sha256.digest bs := hl.identity
  have hfits := (Loader.fits_new settings (.new mode bs.toArray)).foldlM hl.taken
  refine ⟨⟨hexports ▸ hfits.exports, hobjects ▸ hfits.objects, fun kind hkind => ?_,
    hidentity ▸ Sha256.length_digest bs⟩, _, hl.heap, hobjects ▸ hfits.refilled⟩
  exact hmetaclasses ▸ t.hasKind_ensureRequired hkind

namespace Machine

/-- A machine that has just been loaded holds nothing but nil. -/
theorem load_sound {bs : Bytes} {settings : MachineSettings} {host : Host} {m : Machine}
    (stale : Bool) (hok : Machine.load bs settings host = .ok m) :
    m.Sound ⟨stale, none, ∅⟩ 0 ∧ m.stack.frames = [] := by
  unfold Machine.load at hok
  split at hok
  · cases hok
  obtain ⟨⟨image, pools, heap⟩, himage, hok⟩ := Except.bind_eq_ok.1 hok
  obtain ⟨_, -, hok⟩ := Except.bind_eq_ok.1 hok
  obtain rfl := Except.ok.inj hok
  obtain ⟨hready, h, rfl, hh⟩ := Image.load_fits himage
  refine ⟨⟨hready, fun d hd => ?_, Nat.zero_le _, fun f hf => ?_, fun b hb => ?_,
    fun _ id hid => absurd hid (Set.notMem_empty id), ?_⟩, rfl⟩
  · have := hh.defined d.1 (List.mem_map_of_mem hd.val)
    rwa [Heap.isPersistent, hh.imaged.opened.occupant?]
  · exact absurd hf List.not_mem_nil
  · exact absurd hb (Option.not_mem_none b)
  · refine hh.imaged.openHoles fun _ id hid => ?_
    simp [placed, Stack.held] at hid

theorem exists_load_of_any {bs : Bytes} {settings : MachineSettings} {host : Host}
    {p : Machine → Bool} (hany : (load bs settings host).toOption.any p = true) :
    ∃ m, load bs settings host = .ok m ∧ p m = true := by
  cases hload : load bs settings host with
  | error f => simp [hload, Except.toOption] at hany
  | ok m => exact ⟨m, rfl, by simpa [hload, Except.toOption] using hany⟩

end Machine

end StoryMachine
