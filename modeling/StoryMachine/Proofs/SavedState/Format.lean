import StoryMachine.Proofs.Bytes
import StoryMachine.Proofs.Object.PropTable
import StoryMachine.Proofs.SavedState.Accepted
import StoryMachine.Proofs.Value.Portable

/-!
# Reading back what was saved

Each part of a state is read back from the bytes that were written for it, as long as
the numbers in it fit into the bytes that are there for them. Only of an object's
metaclass there is no more than the name, so that it is read back as the first
metaclass with that name.

* `Body.Fits`: the numbers in a body fit;
* `reads_value`, `reads_body`, `reads_objectOf`: the parts of a state;
* `reads_objectsAfter`: the objects one after the other;
* `parse_encode_eq_ok_iff`: whole states.
-/

namespace StoryMachine

/-! ## Values -/

namespace Value

theorem toNat_join (index generation : UInt32) :
    (index.toUInt64 ||| (generation.toUInt64 <<< 32)).toNat =
      2 ^ 32 * generation.toNat + index.toNat := by
  have hlt : 2 ^ 32 * generation.toNat < 2 ^ 64 := by
    have := generation.toNat_lt
    omega
  have hshift : (generation.toUInt64 <<< 32).toNat = 2 ^ 32 * generation.toNat := by
    rw [UInt64.toNat_shiftLeft, UInt32.toNat_toUInt64, Nat.shiftLeft_eq, mul_comm]
    exact Nat.mod_eq_of_lt hlt
  rw [UInt64.toNat_or, hshift, UInt32.toNat_toUInt64, Nat.or_comm,
    ← Nat.two_pow_add_eq_or_of_lt index.toNat_lt]

theorem toUInt32_join (index generation : UInt32) :
    (index.toUInt64 ||| (generation.toUInt64 <<< 32)).toUInt32 = index := by
  apply UInt32.toNat_inj.1
  rw [UInt64.toNat_toUInt32, toNat_join, Nat.mul_add_mod, Nat.mod_eq_of_lt index.toNat_lt]

theorem toUInt32_join_shift (index generation : UInt32) :
    ((index.toUInt64 ||| (generation.toUInt64 <<< 32)) >>> 32).toUInt32 = generation := by
  have h32 : (32 : UInt64).toNat % 64 = 32 := rfl
  have hindex := index.toNat_lt
  have hgeneration := generation.toNat_lt
  apply UInt32.toNat_inj.1
  rw [UInt64.toNat_toUInt32, UInt64.toNat_shiftRight, toNat_join, h32, Nat.shiftRight_eq_div_pow]
  omega

/-- The eight bytes of content say everything, together with the type. -/
theorem ofPayload_payload (v : Value) : ofPayload v.payload v.dataType = v := by
  cases v with
  | obj id =>
    rw [payload, dataType, ofPayload, toUInt32_join, toUInt32_join_shift]
  | _ => simp [payload, dataType, ofPayload]

end Value

namespace PropTable

theorem insertEntry_of_lt {p : PropId} {v : Value} {es : List (PropId × Value)}
    (hes : ∀ e ∈ es, e.1 < p) : insertEntry p v es = es ++ [(p, v)] := by
  induction es with
  | nil => rfl
  | cons e es ih =>
    obtain ⟨he, hes⟩ := List.forall_mem_cons.1 hes
    rw [insertEntry, if_pos he, ih hes, List.cons_append]

theorem entries_foldl_set {t : PropTable} {es : List (PropId × Value)}
    (hes : (t.entries ++ es).Pairwise (·.1 < ·.1)) :
    (es.foldl (fun t (p, v) => t.set p v) t).entries = t.entries ++ es := by
  induction es generalizing t with
  | nil => rw [List.foldl_nil, List.append_nil]
  | cons e es ih =>
    have hset : (t.set e.1 e.2).entries = t.entries ++ [e] :=
      insertEntry_of_lt fun e' he' =>
        (List.pairwise_append.1 hes).2.2 e' he' e List.mem_cons_self
    rw [List.append_cons, ← hset] at hes ⊢
    exact ih hes

/-- A table is the one of its own entries. -/
theorem ofList_entries (t : PropTable) : ofList t.entries = t := by
  have hentries : (ofList t.entries).entries = t.entries :=
    entries_foldl_set (t := empty) t.ascending
  obtain ⟨es, hes⟩ := t
  cases hof : ofList es
  simp_all

end PropTable

/-- The numbers in a body fit into the bytes that are there for them. -/
def Body.Fits : Body → Prop
  | program supers props => supers.length < 2 ^ 16 ∧ props.size < 2 ^ 16
  | list items => items.length < 2 ^ 32
  | vector items => items.length < 2 ^ 32
  | string text => (Bytes.ofText text).length < 2 ^ 32
  | table entries => entries.length < 2 ^ 32

instance : DecidablePred Body.Fits
  | .program _ _ => inferInstanceAs (Decidable (_ ∧ _))
  | .list _ | .vector _ | .string _ | .table _ => inferInstanceAs (Decidable (_ < _))

theorem Kind.name_injective : Function.Injective name := by
  intro kind kind' he
  cases kind <;> cases kind' <;> first | rfl | exact absurd he (by decide)

theorem Kind.length_ofText_name (kind : Kind) : (Bytes.ofText kind.name).length < 256 := by
  cases kind <;> decide

/-- The name of its metaclass says of which kind an object is. -/
theorem Object.Typed.name {t : MetaclassTable} {o : Object} (ho : o.Typed t) :
    (t.get? o.metaclass).map (·.kind.name) = some o.body.kind.name := by
  have hmap : (t.get? o.metaclass).map (·.kind.name) =
      ((t.get? o.metaclass).map (·.kind)).map Kind.name := by
    rw [Option.map_map]
    rfl
  rw [hmap, ho, Option.map_some]

/-- An object is named by the first metaclass for its kind. -/
theorem Object.Typed.exists_idByName? {t : MetaclassTable} {o : Object} (ho : o.Typed t) :
    ∃ metaclass entry, t.idByName? o.body.kind.name = some metaclass ∧
      t.get? metaclass = some entry ∧ entry.kind = o.body.kind := by
  obtain ⟨e, he, hkind⟩ := Option.map_eq_some_iff.1 ho
  obtain ⟨hlt, hentry⟩ := Array.getElem?_eq_some_iff.1 he
  have hname : (t.entries[o.metaclass.toNat].kind.name == o.body.kind.name) = true := by
    rw [hentry, hkind, beq_self_eq_true]
  cases hfind : t.entries.findIdx? (·.kind.name == o.body.kind.name) with
  | none =>
    exact absurd hname (by simpa using Array.findIdx?_eq_none_iff.1 hfind _ (Array.getElem_mem hlt))
  | some i =>
    -- The first entry of that name comes no later than that of the object, so its place
    -- is the place of a metaclass, too.
    obtain ⟨hi, hfound, hfirst⟩ := Array.findIdx?_eq_some_iff_getElem.1 hfind
    have hle : i ≤ o.metaclass.toNat := not_lt.1 fun hlt' => hfirst _ hlt' hname
    have hi' : (UInt16.ofNat i).toNat = i :=
      UInt16.toNat_ofNat_of_lt' (hle.trans_lt o.metaclass.toNat_lt)
    refine ⟨UInt16.ofNat i, t.entries[i], ?_, ?_, ?_⟩
    · rw [MetaclassTable.idByName?, hfind, Option.map_some]
    · rw [MetaclassTable.get?, hi', Array.getElem?_eq_getElem hi]
    · exact Kind.name_injective (beq_iff_eq.1 hfound)

/-- No metaclass has the empty name. -/
theorem MetaclassTable.idByName?_empty (t : MetaclassTable) : t.idByName? "" = none := by
  have hname (kind : Kind) : (kind.name == "") = false := by cases kind <;> decide
  rw [idByName?, Array.findIdx?_eq_none_iff.2 fun e _ => hname e.kind, Option.map_none]

/-- An object of the first metaclass for its kind. -/
def Object.renamed (t : MetaclassTable) (o : Object) : Object :=
  ⟨(t.idByName? o.body.kind.name).getD 0, o.body⟩

theorem Object.Typed.renamed {t : MetaclassTable} {o : Object} (ho : o.Typed t) :
    (o.renamed t).Typed t := by
  obtain ⟨metaclass, entry, hid, hentry, hkind⟩ := ho.exists_idByName?
  rw [Typed, Object.renamed, hid, Option.getD_some, hentry, Option.map_some, hkind]

/-- An object as it is read back, which is of the first metaclass for its kind. -/
def SavedObject.renamed (t : MetaclassTable) (o : SavedObject) : SavedObject :=
  { o with object := ⟨(t.idByName? o.object.body.kind.name).getD 0, o.object.body⟩ }

namespace SavedState

variable {h : Heap} {t : MetaclassTable} {α : Type} {bs : Bytes}

open StoryMachine.Parser (Reads)

theorem reads_part {r : Reader α} {a : α} (hr : r.Reads bs a) : Reads (part r) bs a :=
  .of hr truncated

theorem reads_value (v : Value) : Reads value (valueBytes v) v := by
  have htype : Reads (part Reader.u8) [v.dataType.code] _ := reads_part (Reader.reads_u8 _)
  refine htype.bind ?_
  refine .last (reads_part (Reader.reads_u64 v.payload)) ?_
  rw [DataType.ofCode?_code]
  change Reads (pure (Value.ofPayload v.payload v.dataType)) [] v
  rw [Value.ofPayload_payload]
  exact .pure v

theorem reads_objectId (id : ObjectId) : Reads objectId (idBytes id) id :=
  .bind (reads_part (Reader.reads_u32 id.index))
    (.last (reads_part (Reader.reads_u32 id.generation)) (.pure id))

/-! ## Several parts in a row -/

theorem reads_count16 {n : Nat} (hn : n < 2 ^ 16) :
    Reads (part Reader.u16) (count16 n) (UInt16.ofNat n) ∧ (UInt16.ofNat n).toNat = n :=
  ⟨reads_part (Reader.reads_u16 _), UInt16.toNat_ofNat_of_lt' hn⟩

theorem reads_count32 {n : Nat} (hn : n < 2 ^ 32) :
    Reads (part Reader.u32) (count32 n) (UInt32.ofNat n) ∧ (UInt32.ofNat n).toNat = n :=
  ⟨reads_part (Reader.reads_u32 _), UInt32.toNat_ofNat_of_lt' hn⟩

theorem reads_itemsAfter {item : Parser α} {f : α → Bytes} {as : List α}
    (hitem : ∀ a ∈ as, Reads item (f a) a) (read : List α) :
    Reads (itemsAfter item as.length read) (as.flatMap f) (read.reverse ++ as) := by
  induction as generalizing read with
  | nil =>
    rw [List.append_nil]
    exact .pure _
  | cons a as ih =>
    obtain ⟨ha, has⟩ := List.forall_mem_cons.1 hitem
    have hrest := ih has (a :: read)
    rw [List.reverse_cons, List.append_assoc, List.singleton_append] at hrest
    exact ha.bind hrest

theorem reads_items {item : Parser α} {f : α → Bytes} {as : List α}
    (hitem : ∀ a ∈ as, Reads item (f a) a) :
    Reads (items as.length item) (as.flatMap f) as :=
  reads_itemsAfter hitem []

theorem reads_values {vs : List Value} (hvs : vs.length < 2 ^ 32) :
    Reads values (count32 vs.length ++ vs.flatMap valueBytes) vs := by
  obtain ⟨hcount, hn⟩ := reads_count32 hvs
  refine hcount.bind ?_
  rw [hn]
  exact reads_items fun v _ => reads_value v

/-! ## Objects -/

theorem reads_body {b : Body} (hb : b.Fits) : Reads (body b.kind) (bodyBytes b) b := by
  cases b with
  | program supers props =>
    obtain ⟨hsupers, hn⟩ := reads_count16 hb.1
    obtain ⟨hprops, hn'⟩ := reads_count16 hb.2
    rw [bodyBytes, List.append_assoc, List.append_assoc]
    refine hsupers.bind ?_
    rw [hn]
    refine (reads_items fun id _ => reads_objectId id).bind (hprops.bind ?_)
    rw [hn', PropTable.size]
    refine .last (reads_items fun e _ => ?_) ?_
    · exact .bind (reads_part (Reader.reads_u16 e.1)) (.last (reads_value e.2) (.pure e))
    · rw [PropTable.ofList_entries]
      exact .pure _
  | list items => exact .last (reads_values hb) (.pure _)
  | vector items => exact .last (reads_values hb) (.pure _)
  | string text =>
    obtain ⟨hcount, hn⟩ := reads_count32 hb
    refine hcount.bind ?_
    rw [hn]
    exact .last (reads_part (Reader.reads_text text)) (.pure _)
  | table entries =>
    obtain ⟨hcount, hn⟩ := reads_count32 hb
    refine hcount.bind ?_
    rw [hn]
    refine .last (reads_items fun e _ => ?_) (.pure _)
    exact .bind (reads_value e.1) (.last (reads_value e.2) (.pure e))

theorem reads_nameBytes {o : Object} (ho : o.Typed t) :
    Reads (part Reader.name) (nameBytes t o.metaclass) o.body.kind.name := by
  rw [nameBytes, ho.name, Option.getD_some]
  exact reads_part (Reader.reads_name o.body.kind.length_ofText_name)

theorem reads_objectOf {o : SavedObject} (htyped : o.object.Typed t) (hfits : o.object.body.Fits) :
    Reads (objectOf t o.id) ((if o.persistent then 1 else 0) :: nameBytes t o.object.metaclass ++
      bodyBytes o.object.body) (o.renamed t) := by
  obtain ⟨metaclass, entry, hid, hentry, hkind⟩ := htyped.exists_idByName?
  have hflag : Reads (part Reader.u8) [if o.persistent then 1 else 0] _ :=
    reads_part (Reader.reads_u8 _)
  refine hflag.bind ?_
  refine .bind (reads_nameBytes htyped) ?_
  simp only [hid, hentry, hkind]
  refine .last (reads_body hfits) ?_
  have hrenamed : o.renamed t = ⟨o.id, (if o.persistent then 1 else 0) != (0 : UInt8),
      ⟨metaclass, o.object.body⟩⟩ := by
    rw [SavedObject.renamed, hid]
    cases o.persistent <;> rfl
  rw [hrenamed]
  exact .pure _

theorem flatMap_objectBytes (t : MetaclassTable) (o : SavedObject) (os : List SavedObject)
    (rest : Bytes) : (o :: os).flatMap (objectBytes t) ++ rest =
      idBytes o.id ++ ((if o.persistent then 1 else 0) :: nameBytes t o.object.metaclass ++
        bodyBytes o.object.body ++ (os.flatMap (objectBytes t) ++ rest)) := by
  simp [objectBytes]

/-- The induction is on the objects that are still to be read. -/
theorem reads_objectsAfter {os : List SavedObject} (hos : Placeable h t os)
    (hfits : ∀ o ∈ os, o.object.body.Fits) (slots : Std.HashSet UInt32)
    (hslots : ∀ o ∈ os, slots.contains o.id.index = false) (read : List SavedObject) :
    Reads (objectsAfter h t os.length slots read) (os.flatMap (objectBytes t))
      (read.reverse ++ os.map (·.renamed t)) := by
  induction os generalizing slots read with
  | nil =>
    rw [List.map_nil, List.append_nil]
    exact .pure _
  | cons o os ih =>
    obtain ⟨hnew, hslots⟩ := List.forall_mem_cons.1 hslots
    obtain ⟨hfit, hfits⟩ := List.forall_mem_cons.1 hfits
    obtain ⟨hid, hrestorable⟩ := List.forall_mem_cons.1 hos.restorable
    obtain ⟨htype, htyped⟩ := List.forall_mem_cons.1 hos.typed
    obtain ⟨hfirst, hdistinct⟩ := List.nodup_cons.1 hos.distinct
    have hcheck : checkId h o.id = .ok () := by rw [checkId, hid]
    have hrest := ih ⟨hrestorable, hdistinct, htyped⟩ hfits (slots.insert o.id.index)
      (fun o' ho' => ?_) (o.renamed t :: read)
    · -- The checks of the name read nothing. From then on its slot is taken.
      rw [List.reverse_cons, List.append_assoc, List.singleton_append] at hrest
      have hbytes := flatMap_objectBytes t o os []
      rw [List.append_nil, List.append_nil] at hbytes
      rw [hbytes]
      refine (reads_objectId o.id).bind (.lift hcheck (.guard (by simp [hnew]) ?_))
      exact (reads_objectOf htype hfit).bind hrest
    · -- None of the other objects has that slot.
      have hne : o.id.index ≠ o'.id.index := fun he =>
        hfirst (List.mem_map.2 ⟨o', ho', he.symm⟩)
      rw [Std.HashSet.contains_insert, hslots o' ho', Bool.or_false, beq_eq_false_iff_ne]
      exact hne

/-! ## Whole states -/

/-- The numbers in a state fit into the bytes that are there for them. -/
structure Fits (s : SavedState) : Prop where
  /-- The number of objects fits. -/
  objects : s.objects.length < 2 ^ 32
  /-- So does the number of globals. -/
  globals : s.globals.length < 2 ^ 16
  /-- And so do the numbers in each object. -/
  bodies : ∀ o ∈ s.objects, o.object.body.Fits

instance (s : SavedState) : Decidable s.Fits :=
  decidable_of_iff (s.objects.length < 2 ^ 32 ∧ s.globals.length < 2 ^ 16 ∧
      ∀ o ∈ s.objects, o.object.body.Fits)
    ⟨fun ⟨h₁, h₂, h₃⟩ => ⟨h₁, h₂, h₃⟩, fun ⟨h₁, h₂, h₃⟩ => ⟨h₁, h₂, h₃⟩⟩

/-- A state as it is read back. -/
def renamed (s : SavedState) (t : MetaclassTable) : SavedState :=
  { s with objects := s.objects.map (·.renamed t) }

variable {s : SavedState} {identity : Bytes}

theorem closed_renamed_iff : (s.renamed t).Closed ↔ s.Closed := by
  have hids : (s.renamed t).objects.map (·.id) = s.objects.map (·.id) := List.map_map
  have hheld : (s.renamed t).held = s.held := congrArg (· ++ s.globals) (List.flatMap_map ..)
  rw [Closed, Closed, hids, hheld]

theorem state_content (hs : Placeable h t s.objects) (hfits : s.Fits) :
    state h t (count32 s.objects.length ++ s.objects.flatMap (objectBytes t) ++
      count16 s.globals.length ++ s.globals.flatMap valueBytes) = .ok (s.renamed t, []) := by
  obtain ⟨hobjects, hn⟩ := reads_count32 hfits.objects
  obtain ⟨hglobals, hn'⟩ := reads_count16 hfits.globals
  have hread := reads_objectsAfter hs hfits.bodies {} (by simp) []
  have hvalues : Reads (items s.globals.length value) (s.globals.flatMap valueBytes) s.globals :=
    reads_items fun v _ => reads_value v
  rw [List.append_assoc, List.append_assoc]
  refine Parser.bind_eq_ok.2 ⟨_, _, hobjects _, ?_⟩
  rw [hn]
  refine Parser.bind_eq_ok.2 ⟨_, _, hread _, Parser.bind_eq_ok.2 ⟨_, _, hglobals _, ?_⟩⟩
  rw [hn']
  have hvalues := hvalues []
  rw [List.append_nil] at hvalues
  exact Parser.bind_eq_ok.2 ⟨_, _, hvalues, rfl⟩

/-- The content is found again between the version and the checksum. -/
theorem payload_encode (s : SavedState) (t : MetaclassTable)
    (hidentity : identity.length = digestSize) :
    payload (s.encode t identity) = .ok (identity ++ (count32 s.objects.length ++
      s.objects.flatMap (objectBytes t) ++ count16 s.globals.length ++
      s.globals.flatMap valueBytes)) := by
  generalize hbody : count32 s.objects.length ++ s.objects.flatMap (objectBytes t) ++
    count16 s.globals.length ++ s.globals.flatMap valueBytes = body
  have hcontent : s.content t identity =
      signature ++ (Bytes.u16 formatVersion ++ (identity ++ body)) := by
    simp [content, ← hbody]
  -- All that matters of the checksum is its length, which says where the content ends.
  generalize hdigest : Sha256.digest (s.content t identity) = digest
  have hlength : digest.length = digestSize := hdigest ▸ Sha256.length_digest _
  have hencode : s.encode t identity = s.content t identity ++ digest := by
    rw [encode, hdigest]
  have htake : (s.encode t identity).take ((s.encode t identity).length - digestSize) =
      s.content t identity := by
    rw [hencode, List.length_append, hlength, Nat.add_sub_cancel, List.take_left]
  have hdrop : (s.encode t identity).drop ((s.encode t identity).length - digestSize) = digest := by
    rw [hencode, List.length_append, hlength, Nat.add_sub_cancel, List.drop_left]
  have hlong : ¬(s.encode t identity).length < signature.length + 2 + 2 * digestSize := by
    have hversion : (Bytes.u16 formatVersion).length = 2 := rfl
    simp only [hencode, hcontent, List.length_append, hlength, hidentity, hversion]
    omega
  have hversion : part Reader.u16 ((s.encode t identity).drop signature.length) =
      .ok (formatVersion, identity ++ body ++ digest) := by
    rw [hencode, hcontent, List.append_assoc, List.drop_left, List.append_assoc]
    exact reads_part (Reader.reads_u16 formatVersion) _
  have hbegin : (s.encode t identity).take signature.length = signature := by
    rw [hencode, hcontent, List.append_assoc, List.take_left]
  have hend : (s.content t identity).drop (signature.length + 2) = identity ++ body := by
    have hstart : signature.length + 2 = (signature ++ Bytes.u16 formatVersion).length := by
      rw [List.length_append]
      rfl
    rw [hcontent, ← List.append_assoc, hstart, List.drop_left]
  unfold payload
  refine Except.guard_eq_ok.2 ⟨not_not.2 hbegin, ?_⟩
  refine Except.bind_eq_ok.2 ⟨_, hversion, ?_⟩
  refine Except.guard_eq_ok.2 ⟨not_not.2 rfl, ?_⟩
  refine Except.guard_eq_ok.2 ⟨hlong, ?_⟩
  refine Except.guard_eq_ok.2 ⟨not_not.2 (by rw [htake, hdrop, hdigest]), ?_⟩
  exact congrArg Except.ok (by rw [htake, hend])

/-- What is read back from the bytes of a state is the state, where each object is of
    the first metaclass for its kind, unless something is missing from it. -/
theorem parse_encode_eq_ok_iff {s' : SavedState} (hs : Placeable h t s.objects) (hfits : s.Fits)
    (hidentity : identity.length = digestSize) :
    parse h t identity (s.encode t identity) = .ok s' ↔ s.Closed ∧ s' = s.renamed t := by
  have howner := reads_part (Reader.reads_bytes identity)
  rw [hidentity] at howner
  have hparse : parse h t identity (s.encode t identity) =
      (s.renamed t).checkReferences >>= fun _ => .ok (s.renamed t) := by
    unfold parse
    simp only [payload_encode s t hidentity, bind, Except.bind, howner _, ne_eq, not_true,
      if_false, state_content hs hfits]
    rfl
  rw [hparse, ← closed_renamed_iff (t := t), ← checkReferences_eq_ok_iff]
  refine Except.bind_eq_ok.trans ⟨?_, ?_⟩
  · rintro ⟨_, hclosed, heq⟩
    exact ⟨hclosed, (Except.ok.inj heq).symm⟩
  · rintro ⟨hclosed, rfl⟩
    exact ⟨(), hclosed, rfl⟩

/-- The first object of what has been written is the first one that is checked. -/
theorem exists_objectOf_of_parse_encode {s' : SavedState} {o : SavedObject}
    {os : List SavedObject} (hobjects : s.objects = o :: os) (hlength : os.length + 1 < 2 ^ 32)
    (hidentity : identity.length = digestSize)
    (hparse : parse h t identity (s.encode t identity) = .ok s') :
    h.checkRestorable o.id = .ok () ∧ ∃ o' bs rest,
      objectOf t o.id ((if o.persistent then 1 else 0) :: nameBytes t o.object.metaclass ++ bs) =
        .ok (o', rest) := by
  have howner := reads_part (Reader.reads_bytes identity)
  rw [hidentity] at howner
  obtain ⟨hobjects', hn⟩ := reads_count32 hlength
  obtain ⟨content, hcontent, hparse⟩ := Except.bind_eq_ok.1 hparse
  rw [payload_encode s t hidentity] at hcontent
  obtain rfl := Except.ok.inj hcontent
  obtain ⟨⟨owner, rest⟩, hread, hparse⟩ := Except.bind_eq_ok.1 hparse
  rw [howner] at hread
  obtain ⟨rfl, rfl⟩ := Prod.mk.inj (Except.ok.inj hread)
  obtain ⟨-, hparse⟩ := Except.guard_eq_ok.1 hparse
  obtain ⟨⟨s'', _⟩, hstate, -⟩ := Except.bind_eq_ok.1 hparse
  rw [hobjects, List.length_cons, List.append_assoc, List.append_assoc] at hstate
  obtain ⟨n, mid, hread, hstate⟩ := Parser.bind_eq_ok.1 hstate
  rw [hobjects'] at hread
  obtain ⟨rfl, rfl⟩ := Prod.mk.inj (Except.ok.inj hread)
  obtain ⟨_, _, hos, -⟩ := Parser.bind_eq_ok.1 hstate
  rw [hn, flatMap_objectBytes, List.append_assoc] at hos
  obtain ⟨id, mid, hread, hos⟩ := Parser.bind_eq_ok.1 hos
  rw [reads_objectId] at hread
  obtain ⟨rfl, rfl⟩ := Prod.mk.inj (Except.ok.inj hread)
  obtain ⟨_, _, hlift, hos⟩ := Parser.bind_eq_ok.1 hos
  obtain ⟨hcheck, rfl⟩ := Parser.lift_eq_ok.1 hlift
  obtain ⟨-, hos⟩ := Parser.guard_eq_ok.1 hos
  obtain ⟨o', rest, ho, -⟩ := Parser.bind_eq_ok.1 hos
  exact ⟨checkId_eq_ok hcheck, o', _, rest, ho⟩

/-- There is a metaclass for the first object of what has been written and is
    accepted. An object of none is written under the empty name. -/
theorem isSome_get?_of_parse_encode {s' : SavedState} {o : SavedObject}
    {os : List SavedObject} (hobjects : s.objects = o :: os) (hlength : os.length + 1 < 2 ^ 32)
    (hidentity : identity.length = digestSize)
    (hparse : parse h t identity (s.encode t identity) = .ok s') :
    (t.get? o.object.metaclass).isSome = true := by
  obtain ⟨-, o', bs, rest, ho⟩ := exists_objectOf_of_parse_encode hobjects hlength hidentity hparse
  rw [← Option.ne_none_iff_isSome]
  intro hnone
  -- The flag and the empty name are read back, and the name is looked up in vain.
  have hname : nameBytes t o.object.metaclass = [0] := by
    rw [nameBytes, hnone]
    decide
  have hempty := reads_part (Reader.reads_name (s := "") (by decide))
  rw [hname] at ho
  obtain ⟨_, _, hflag, ho⟩ := Parser.bind_eq_ok.1 ho
  rw [List.cons_append, ← List.singleton_append, reads_part (Reader.reads_u8 _)] at hflag
  obtain ⟨rfl, rfl⟩ := Prod.mk.inj (Except.ok.inj hflag)
  obtain ⟨name, _, hread, ho⟩ := Parser.bind_eq_ok.1 ho
  have hread : part Reader.name (UInt8.ofNat (Bytes.ofText "").length :: Bytes.ofText "" ++ bs) =
      _ := hread
  rw [hempty] at hread
  obtain ⟨rfl, rfl⟩ := Prod.mk.inj (Except.ok.inj hread)
  rw [t.idByName?_empty] at ho
  cases ho

end SavedState

end StoryMachine
