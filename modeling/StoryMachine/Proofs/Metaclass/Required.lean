import StoryMachine.Proofs.Image.Front
import StoryMachine.Proofs.Metaclass.Data
import StoryMachine.Proofs.SavedState.Format

/-!
# Metaclasses that are always there

The machine makes objects of four kinds on its own. If an image has no metaclass for one of them,
one is added behind those of the image. Which metaclass an object has is said in two bytes, as the
place of the first entry of its kind. An image may have 65535 metaclasses, so that there may be room
for one more only; the places of those that are added after it are cut off, and are those of other
entries.

* `MetaclassTable.place?`, `MetaclassTable.kind_get?_iff`: first entries, and what two bytes say of
  their places;
* `MetaclassTable.toList_ensureRequired`: what is added to a table;
* `MetaclassTable.idOf_ensureRequired_iff`, `MetaclassTable.idOf_crowded_list`: the kinds that are
  found under their places, and one that is not.
-/

namespace StoryMachine

namespace MetaclassTable

variable {t : MetaclassTable} {kind : Kind} {i : Nat}

/-! ## First entries -/

/-- The place of the first entry of a kind, which need not fit into two bytes. -/
def place? (t : MetaclassTable) (kind : Kind) : Option Nat :=
  t.entries.findIdx? (·.kind == kind)

theorem idOf_of_place? (hi : t.place? kind = some i) : t.idOf kind = .ok (.ofNat i) := by
  rw [place?] at hi
  rw [idOf, hi]

/-- No two kinds have one name. -/
theorem idByName?_name (t : MetaclassTable) (kind : Kind) :
    t.idByName? kind.name = (t.place? kind).map UInt16.ofNat := by
  have hname : (fun e : MetaclassEntry => e.kind.name == kind.name) = (·.kind == kind) := by
    funext e
    rw [Bool.eq_iff_iff, beq_iff_eq, beq_iff_eq, Kind.name_injective.eq_iff]
  rw [idByName?, hname, place?]

/-- The entry at what two bytes say of the place is of the kind exactly if they say all of it. If
    they do not, it comes before the first entry of the kind. -/
theorem kind_get?_iff (hi : t.place? kind = some i) :
    (t.get? (.ofNat i)).map (·.kind) = some kind ↔ i < 65536 := by
  obtain ⟨hlt, hkind, hfirst⟩ := Array.findIdx?_eq_some_iff_getElem.1 hi
  have hplace : (UInt16.ofNat i).toNat = i % 65536 := UInt16.toNat_ofNat' ..
  rw [get?, hplace]
  constructor
  · intro hget
    by_contra hge
    -- A place that is cut off gets lower, and no entry before the first one is of the kind.
    have hearlier : i % 65536 < i := by omega
    rw [Array.getElem?_eq_getElem (hearlier.trans hlt), Option.map_some, Option.some.injEq] at hget
    exact hfirst _ hearlier (beq_iff_eq.2 hget)
  · intro hroom
    rw [Nat.mod_eq_of_lt hroom, Array.getElem?_eq_getElem hlt, Option.map_some,
      beq_iff_eq.1 hkind]

theorem exists_place? (hkind : t.hasKind kind = true) :
    ∃ i < t.entries.size, t.place? kind = some i := by
  have hsome : (t.place? kind).isSome = true := by rwa [place?, Array.findIdx?_isSome]
  obtain ⟨i, hi⟩ := Option.isSome_iff_exists.1 hsome
  exact ⟨i, (Array.findIdx?_eq_some_iff_getElem.1 hi).1, hi⟩

/-! ## What is added -/

/-- The required kinds of which a table has no entry. -/
def missing (t : MetaclassTable) : List Kind := required.filter (!t.hasKind ·)

/-- The entry that is added for a kind. -/
def added (kind : Kind) : MetaclassEntry := { kind, requested := kind.version, props := [] }

theorem mem_missing : kind ∈ t.missing ↔ kind ∈ required ∧ t.hasKind kind = false := by
  rw [missing, List.mem_filter, Bool.not_eq_true']

theorem length_missing_le (t : MetaclassTable) : t.missing.length ≤ 4 :=
  List.length_filter_le _ required

/-- One entry is added for each kind that is missing. What is added for one kind does not make up
    for another. -/
theorem toList_foldl {kinds : List Kind} (hkinds : kinds.Nodup) (t : MetaclassTable) :
    (kinds.foldl (fun t kind => if t.hasKind kind then t else ⟨t.entries.push (added kind)⟩)
      t).entries.toList = t.entries.toList ++ (kinds.filter (!t.hasKind ·)).map added := by
  induction kinds generalizing t with
  | nil => simp
  | cons kind kinds ih =>
    obtain ⟨hnot, hkinds⟩ := List.nodup_cons.1 hkinds
    rw [List.foldl_cons, ih hkinds]
    cases hkind : t.hasKind kind with
    | true => simp [hkind]
    | false =>
      -- The kinds that follow are others, and are missing as they were before.
      have hsame : ∀ kind' ∈ kinds,
          (!hasKind ⟨t.entries.push (added kind)⟩ kind') = !t.hasKind kind' := by
        intro kind' hmem
        have hne : (kind == kind') = false := beq_false_of_ne fun heq => hnot (heq ▸ hmem)
        rw [hasKind, Array.any_push, hasKind]
        simp [added, hne]
      simp [hkind, List.filter_congr hsame]

/-- The required kinds that are missing are added behind what is there, in their order. -/
theorem toList_ensureRequired (t : MetaclassTable) :
    t.ensureRequired.entries.toList = t.entries.toList ++ t.missing.map added :=
  toList_foldl (by decide) t

theorem place?_eq_append (t : MetaclassTable) (kind : Kind) :
    t.ensureRequired.place? kind = (t.place? kind).or
      ((t.missing.findIdx? (· == kind)).map (· + t.entries.size)) := by
  have hlist (t : MetaclassTable) : t.place? kind = t.entries.toList.findIdx? (·.kind == kind) := by
    rw [← List.findIdx?_toArray, Array.toArray_toList, place?]
  rw [hlist, toList_ensureRequired, List.findIdx?_append, ← hlist, List.findIdx?_map,
    Array.length_toList]
  rfl

/-- A kind that is there stays in its place. -/
theorem place?_ensureRequired_of_hasKind (hi : t.place? kind = some i) :
    t.ensureRequired.place? kind = some i := by
  rw [place?_eq_append, hi, Option.some_or]

/-- A kind that is missing comes behind all that is there. -/
theorem place?_ensureRequired_of_mem (hkind : kind ∈ t.missing) :
    t.ensureRequired.place? kind = some (t.entries.size + t.missing.idxOf kind) := by
  have hnone : t.place? kind = none := by
    rw [place?, ← Option.not_isSome_iff_eq_none, Array.findIdx?_isSome, Bool.not_eq_true]
    exact (mem_missing.1 hkind).2
  have hplace : t.missing.findIdx? (· == kind) = some (t.missing.idxOf kind) :=
    List.findIdx?_eq_some_of_exists ⟨kind, hkind, beq_self_eq_true kind⟩
  rw [place?_eq_append, hnone, Option.none_or, hplace, Option.map_some, Nat.add_comm]

/-! ## What is found -/

/-- The place of the first entry of a kind can be said in two bytes: the kind is there, or there is
    room for what is added for it. -/
def HasRoom (t : MetaclassTable) (kind : Kind) : Prop :=
  t.hasKind kind = true ∨ t.entries.size + t.missing.idxOf kind < 65536

instance (t : MetaclassTable) (kind : Kind) : Decidable (t.HasRoom kind) :=
  inferInstanceAs (Decidable (_ ∨ _))

/-- There is room for all kinds behind as many as 65532 entries. -/
theorem hasRoom_of_size_le (hsize : t.entries.size ≤ 65532) (hkind : kind ∈ required) :
    t.HasRoom kind := by
  rw [HasRoom, or_iff_not_imp_left, Bool.not_eq_true]
  intro hnone
  have hlt := List.idxOf_lt_length_iff.2 (mem_missing.2 ⟨hkind, hnone⟩)
  have hle := t.length_missing_le
  omega

/-- The first entry of a kind that is there or that is required. -/
theorem exists_place?_ensureRequired (hsize : t.entries.size ≤ 65535)
    (hkind : kind ∈ required ∨ t.hasKind kind = true) :
    ∃ i, t.ensureRequired.place? kind = some i ∧ (i < 65536 ↔ t.HasRoom kind) := by
  cases hhas : t.hasKind kind with
  | true =>
    -- All places of what an image has can be said.
    obtain ⟨i, hlt, hi⟩ := exists_place? hhas
    exact ⟨i, place?_ensureRequired_of_hasKind hi, iff_of_true (by omega) (.inl hhas)⟩
  | false =>
    have hmem := mem_missing.2 ⟨hkind.resolve_right (by simp [hhas]), hhas⟩
    refine ⟨_, place?_ensureRequired_of_mem hmem, ?_⟩
    simp [HasRoom, hhas]

/-- **Required metaclasses are found.** Whatever metaclasses an image has, every kind that is there
    or that is required has a number, by kind and by name. Under this number there is an entry of
    the kind and of the name exactly if there was room for it. -/
theorem idOf_ensureRequired_iff (hsize : t.entries.size ≤ 65535)
    (hkind : kind ∈ required ∨ t.hasKind kind = true) :
    ∃ id, t.ensureRequired.idOf kind = .ok id ∧
      t.ensureRequired.idByName? kind.name = some id ∧
      ((t.ensureRequired.get? id).map (·.kind) = some kind ↔ t.HasRoom kind) ∧
      ((t.ensureRequired.get? id).map (·.kind.name) = some kind.name ↔ t.HasRoom kind) := by
  obtain ⟨i, hi, hroom⟩ := exists_place?_ensureRequired hsize hkind
  have hget := (kind_get?_iff hi).trans hroom
  refine ⟨_, idOf_of_place? hi, ?_, hget, ?_⟩
  · rw [idByName?_name, hi, Option.map_some]
  · rw [← hget, ← (Option.map_injective Kind.name_injective).eq_iff, Option.map_map,
      Option.map_some]
    rfl

/-! ## Tables of images -/

theorem size_of_add {t' : MetaclassTable} {dep : String} {props : List PropId}
    {id : MetaclassId} (hok : t.add dep props = .ok (id, t')) :
    t'.entries.size = t.entries.size + 1 := by
  obtain ⟨⟨name, requested⟩, -, hok⟩ := Except.bind_eq_ok.1 hok
  dsimp only at hok
  split at hok
  · cases hok
  · obtain ⟨_, -, hok⟩ := Except.bind_eq_ok.1 hok
    obtain ⟨-, rfl⟩ := Prod.mk.inj (Except.ok.inj hok)
    exact Array.size_push _

end MetaclassTable

theorem Loader.size_of_metaclassEntries {n : Nat} {t t' : MetaclassTable} {bs rest : Bytes}
    (hok : metaclassEntries n t bs = .ok (t', rest)) :
    t'.entries.size = t.entries.size + n := by
  induction n generalizing t bs with
  | zero =>
    obtain ⟨rfl, -⟩ := Parser.pure_eq_ok.1 hok
    rfl
  | succ n ih =>
    obtain ⟨length, _, -, hok⟩ := Parser.bind_eq_ok.1 hok
    obtain ⟨entry, _, -, hok⟩ := Parser.bind_eq_ok.1 hok
    obtain ⟨q, _, -, hok⟩ := Parser.bind_eq_ok.1 hok
    obtain ⟨⟨id, t₁⟩, _, hadd, hok⟩ := Parser.bind_eq_ok.1 hok
    rw [ih hok, MetaclassTable.size_of_add (Parser.lift_eq_ok.1 hadd).1]
    omega

/-- The number of metaclasses is said in two bytes. -/
theorem Block.GivesTable.size_le {b : Block} {t : MetaclassTable} (hb : b.GivesTable t) :
    t.entries.size ≤ 65535 := by
  obtain ⟨-, n, rest, rest', -, hentries⟩ := hb
  have hsize := Loader.size_of_metaclassEntries hentries
  have hn := n.toNat_lt
  have hnone : ({} : MetaclassTable).entries.size = 0 := rfl
  omega

/-- The table of a machine is one that an image has, with what is missing of it. -/
theorem Machine.exists_metaclasses_of_load {bs : Bytes} {settings : MachineSettings} {host : Host}
    {m : Machine} (hok : load bs settings host = .ok m) :
    ∃ t : MetaclassTable, t.entries.size ≤ 65535 ∧ m.image.metaclasses = t.ensureRequired := by
  obtain ⟨-, t, ⟨b, -, hb⟩, hmetaclasses, -⟩ := (accepted_of_load hok).objects
  exact ⟨t, hb.size_le, hmetaclasses⟩

/-! ## A crowded table -/

namespace MetaclassTable

/-- As many lookup tables as an image can have. -/
def crowded : MetaclassTable := ⟨.replicate 65535 ⟨.table, 0, []⟩⟩

theorem size_crowded : crowded.entries.size = 65535 := Array.size_replicate

theorem missing_crowded : crowded.missing = required := by
  refine List.filter_eq_self.2 fun kind hkind => ?_
  rw [hasKind, crowded, Array.any_replicate, if_neg (by decide)]
  revert kind
  decide

/-- For the first kind that is added there is room. -/
theorem idOf_crowded_program : ∃ id, crowded.ensureRequired.idOf .program = .ok id ∧
    crowded.ensureRequired.idByName? "tads-object" = some id ∧
    (crowded.ensureRequired.get? id).map (·.kind) = some .program := by
  have hrequired : Kind.program ∈ required := by decide
  obtain ⟨id, hid, hname, hkind, -⟩ := idOf_ensureRequired_iff size_crowded.le (.inl hrequired)
  refine ⟨id, hid, hname, hkind.2 (.inr ?_)⟩
  rw [size_crowded, missing_crowded]
  decide

/-- The draft of an image with a lookup table and as many metaclasses for it as there may be. -/
def crowdedDraft : ImageDraft where
  metaclasses := .replicate 65535 ("lookuptable", [])
  code := #[0, 0, 0, 0, 0, 0, 0, 0, 0, 0, 0x30]
  objects := #[⟨1, 0, ObjectData.entries []⟩]
  entry? := some 0

theorem metaclasses_crowdedDraft :
    crowdedDraft.metaclasses = .replicate 65535 ("lookuptable", []) := rfl

theorem forall_mem_crowdedDraft {P : String × List PropId → Prop} (hp : P ("lookuptable", [])) :
    ∀ p ∈ crowdedDraft.metaclasses, P p := by
  intro p hmem
  rw [metaclasses_crowdedDraft] at hmem
  rwa [Array.eq_of_mem_replicate hmem]

theorem fits_crowdedDraft : crowdedDraft.Fits where
  version := rfl
  names := ⟨forall_mem_crowdedDraft (by decide), by decide, by decide⟩
  values := by decide
  counts := ⟨by rw [metaclasses_crowdedDraft, Array.size_replicate], by decide, by decide⟩
  functionSets := by decide
  entries := forall_mem_crowdedDraft (by decide)
  pools := by decide
  blocks := by
    have hsame : ∀ p ∈ crowdedDraft.metaclasses, ImageDraft.metaclassEntry p.1 p.2 =
        ImageDraft.metaclassEntry "lookuptable" [] := forall_mem_crowdedDraft rfl
    have hpayload : crowdedDraft.metaclassPayload =
        ObjectData.count crowdedDraft.metaclasses.size ++
          crowdedDraft.metaclasses.toList.flatMap
            fun _ => ImageDraft.metaclassEntry "lookuptable" [] := by
      refine congrArg (ObjectData.count crowdedDraft.metaclasses.size ++ ·) ?_
      exact List.flatMap_congr fun p hp => hsame p (Array.mem_toList_iff.1 hp)
    have hlength : (ImageDraft.metaclassEntry "lookuptable" []).length = 18 := by decide
    have htable : crowdedDraft.metaclassPayload.length < 2 ^ 32 := by
      rw [hpayload, List.length_append, ObjectData.length_count,
        ObjectData.length_flatMap_of_forall (fun _ => hlength), Array.length_toList,
        metaclasses_crowdedDraft, Array.size_replicate]
      decide
    -- Only the table is too long to be evaluated.
    have hothers : ∀ b ∈ [⟨Block.functionSets, true, crowdedDraft.functionSetPayload⟩] ++
        ImageDraft.runsOf crowdedDraft.groups ++
        (if crowdedDraft.symbols.isEmpty then []
          else [⟨Block.symbols, false, crowdedDraft.symbolPayload⟩]) ++
        [⟨Block.entryPoint, true, ImageDraft.entryPayload 0⟩], b.payload.length < 2 ^ 32 := by
      decide +kernel
    exact ImageDraft.forall_blocks_lt rfl (by decide) rfl
      (List.forall_mem_cons.2 ⟨htable, hothers⟩)

theorem complete_crowdedDraft : crowdedDraft.Complete [(1, ⟨0, .table []⟩)] {} where
  nodup := by decide
  numbers := by decide
  supers := by decide
  code := by decide
  entry := ⟨0, rfl, by decide⟩

theorem answers_crowdedDraft : List.Forall₂ (fun p e => MetaclassEntry.Answers e p.1 p.2)
    crowdedDraft.metaclasses.toList crowded.entries.toList := by
  have hdeps : crowdedDraft.metaclasses.toList =
      crowded.entries.toList.map fun _ => ("lookuptable", []) := by
    rw [metaclasses_crowdedDraft, crowded, Array.toList_replicate, Array.toList_replicate,
      List.map_replicate]
  rw [hdeps]
  refine List.forall₂_map_left_iff.2 (List.forall₂_same.2 fun e he => ?_)
  rw [Array.eq_of_mem_replicate (Array.mem_toList_iff.1 he)]
  exact ⟨⟨"lookuptable", by decide +kernel, by decide +kernel⟩, by decide, rfl⟩

theorem exists_load_crowdedDraft : ∃ image pools heap,
    Image.load crowdedDraft.encode .inMemory {} = .ok (image, pools, heap) ∧
      image.metaclasses = crowded.ensureRequired := by
  have hfirst : crowded.get? 0 = some ⟨.table, 0, []⟩ := by
    rw [get?, crowded, Array.getElem?_replicate]
    rfl
  obtain ⟨l, hl, -, hload⟩ := Image.exists_load_encode fits_crowdedDraft complete_crowdedDraft rfl
    (by decide) answers_crowdedDraft (f := ⟨#[]⟩) .nil (.cons ⟨rfl, rfl, _, hfirst, rfl⟩ .nil)
  obtain ⟨ofs, -, hfinish⟩ := hl.finish_eq_ok complete_crowdedDraft (by decide)
  rw [hfinish] at hload
  exact ⟨_, _, _, hload, by rw [ImageDraft.image]⟩

/-- There is none for the second, so that a lookup table is found instead. -/
theorem idOf_crowded_list : ∃ image pools heap,
    Image.load crowdedDraft.encode .inMemory {} = .ok (image, pools, heap) ∧
      image.metaclasses.idOf .list = .ok 0 ∧
      (image.metaclasses.get? 0).map (·.kind) = some .table := by
  have htable : crowded.place? .table = some 0 := by
    rw [place?, crowded, Array.findIdx?_replicate]
    rfl
  have hlist : crowded.ensureRequired.place? .list = some 65536 := by
    rw [place?_ensureRequired_of_mem (by rw [missing_crowded]; decide), size_crowded,
      missing_crowded]
    rfl
  have hzero : UInt16.ofNat 65536 = 0 := by decide
  obtain ⟨image, pools, heap, hload, hmetaclasses⟩ := exists_load_crowdedDraft
  refine ⟨image, pools, heap, hload, ?_, ?_⟩
  · rw [hmetaclasses, idOf_of_place? hlist, hzero]
  · rw [hmetaclasses]
    exact (kind_get?_iff (place?_ensureRequired_of_hasKind htable)).2 (by decide)

end MetaclassTable

end StoryMachine
