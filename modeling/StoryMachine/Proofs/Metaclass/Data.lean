import StoryMachine.Proofs.Object.PropTable
import StoryMachine.Proofs.Text.Cut
import StoryMachine.Proofs.Value.Portable

/-!
# Object data that is read back

What is written for an object, its *content*, is read back as a body unless a property or a key
comes twice, and nothing shorter or longer is read in its place: the first bytes of the data say
how long it is.

* `ObjectData.Content`: what is written for an object;
* `ObjectData.Content.Becomes`, `ObjectData.Content.Distinct`: the body that it is read as, and
  when there is one;
* `ObjectData.length?`, `ObjectData.length?_of_load`: how long data is;
* `ObjectData.tableEntries_flatMap`, `ObjectData.exists_props_eq_ok`: entries and properties that
  were written;
* `ObjectData.load_encode`: data that is read back.
-/

namespace StoryMachine

namespace ObjectData

/-! ## What is written -/

/-- What is written for an object. -/
inductive Content where
  /-- Of a program object, the numbers of its superclasses, and its properties. -/
  | program (supers : List UInt32) (props : List (PropId × Value))
  /-- Of a list, its elements. -/
  | list (vs : List Value)
  /-- Of a vector, its elements. -/
  | vector (vs : List Value)
  /-- Of a string, its text. -/
  | string (s : String)
  /-- Of a lookup table, its entries. -/
  | table (es : List (Value × Value))
deriving DecidableEq, Repr

namespace Content

/-- The kind of the object. -/
def kind : Content → Kind
  | program _ _ => .program
  | list _ => .list
  | vector _ => .vector
  | string _ => .string
  | table _ => .table

/-- The bytes that are written. -/
def encode : Content → Bytes
  | program supers props => ObjectData.program supers props
  | list vs | vector vs => items vs
  | string s => text s
  | table es => entries es

/-- Numbers of parts can be written in two bytes. A text is cut off where that is too few for its
    length. -/
def Fits : Content → Prop
  | program supers props => supers.length ≤ 65535 ∧ props.length ≤ 65535
  | list vs | vector vs => vs.length ≤ 65535
  | string _ => True
  | table es => es.length ≤ 65535

instance (c : Content) : Decidable c.Fits := by
  cases c <;> unfold Fits <;> infer_instance

/-- No property has the number zero or comes twice, and neither does a key as it is written. -/
def Distinct : Content → Prop
  | program _ props => (∀ p ∈ props, p.1 ≠ 0) ∧ (props.map Prod.fst).Nodup
  | table es => (es.map fun e => e.1.written).Nodup
  | _ => True

instance (c : Content) : Decidable c.Distinct := by
  cases c <;> unfold Distinct <;> infer_instance

/-- The body that is read. -/
def Becomes : Content → Body → Prop
  | program supers props, b => ∃ t, b = .program (supers.map .ofImage) t ∧
      ∀ p, t.get? p = (props.lookup p).map Value.written
  | list vs, b => b = .list (vs.map Value.written)
  | vector vs, b => b = .vector (vs.map Value.written)
  | string s, b => ∃ t, b = .string t ∧ Bytes.LongestStart 65535 s t
  | table es, b => b = .table (es.map fun e => (e.1.written, e.2.written))

end Content

/-! ## How long data is -/

variable {bs rest : Bytes} {kind : Kind} {body : Body}

/-- How many bytes the data of an object takes up, as its first bytes say. -/
def length? : Kind → Reader Nat
  | .program => do
    let supers ← Reader.u16
    let props ← Reader.u16
    return 6 + 4 * supers.toNat + 7 * props.toNat
  | .list | .vector => do return 2 + 5 * (← Reader.u16).toNat
  | .string => do return 2 + (← Reader.u16).toNat
  | .table => do return 2 + 10 * (← Reader.u16).toNat

/-- What follows the data does not change how long it is. -/
theorem length?_append {n : Nat} (hn : length? kind bs = some (n, rest)) (more : Bytes) :
    length? kind (bs ++ more) = some (n, rest ++ more) := by
  have hcount {f : UInt16 → Nat} (hn : (do return f (← Reader.u16) : Reader Nat) bs =
      some (n, rest)) : (do return f (← Reader.u16) : Reader Nat) (bs ++ more) =
        some (n, rest ++ more) := by
    obtain ⟨k, mid, hk, hpure⟩ := Reader.bind_eq_some.1 hn
    obtain ⟨rfl, rfl⟩ := Reader.pure_eq_some.1 hpure
    rw [Reader.u16_eq_some_iff.1 hk, List.append_assoc]
    exact Reader.bind_eq_some.2 ⟨k, _, Reader.reads_u16 k _, rfl⟩
  cases kind with
  | program =>
    obtain ⟨k, mid, hk, hn⟩ := Reader.bind_eq_some.1 hn
    obtain ⟨k', mid', hk', hpure⟩ := Reader.bind_eq_some.1 hn
    obtain ⟨rfl, rfl⟩ := Reader.pure_eq_some.1 hpure
    rw [Reader.u16_eq_some_iff.1 hk, Reader.u16_eq_some_iff.1 hk', List.append_assoc,
      List.append_assoc]
    exact Reader.bind_eq_some.2 ⟨k, _, Reader.reads_u16 k _,
      Reader.bind_eq_some.2 ⟨k', _, Reader.reads_u16 k' _, rfl⟩⟩
  | list | vector | string | table => exact hcount hn

theorem takes_part {α : Type} {r : Reader α} {n : Nat} (hr : r.Takes n) : (part r).Takes n := .of hr _

theorem finish_eq_ok {reason : String} {u : Unit} :
    finish reason bs = .ok (u, rest) ↔ bs = [] ∧ rest = [] := by
  change (if bs ≠ [] then throw (bad reason) else pure () : Parser Unit) bs = _ ↔ _
  split
  · next hne => exact ⟨fun hok => (by cases hok), fun h => absurd h.1 hne⟩
  · next hnil =>
    obtain rfl := not_not.1 hnil
    rw [Parser.pure_eq_ok]
    exact ⟨fun h => ⟨rfl, h.2.symm⟩, fun h => ⟨rfl, h.2.symm⟩⟩

/-- What has been taken before nothing is left is all there is. -/
theorem length_eq_of_finish {α β : Type} {p : Parser α} {f : α → β} {reason : String} {n : Nat}
    {b : β} (hp : p.Takes n)
    (hok : (do let a ← p; finish reason; return f a : Parser β) bs = .ok (b, rest)) :
    bs.length = n := by
  obtain ⟨a, mid, ha, hok⟩ := Parser.bind_eq_ok.1 hok
  obtain ⟨_, _, hfinish, -⟩ := Parser.bind_eq_ok.1 hok
  obtain ⟨hle, hmid⟩ := hp _ _ _ ha
  rw [(finish_eq_ok.1 hfinish).1, eq_comm, List.drop_eq_nil_iff] at hmid
  omega

theorem takes_props (n : Nat) (t : PropTable) : (props n t).Takes (7 * n) := by
  induction n generalizing t with
  | zero => exact .pure t
  | succ n ih =>
    have hn : 7 * (n + 1) = 2 + (5 + 7 * n) := by omega
    rw [hn]
    refine (takes_part Reader.takes_u16).bind fun p => ?_
    refine (takes_part Reader.takes_value).bind fun v => ?_
    exact .guard (.guard (ih _))

theorem takes_tableEntries (n : Nat) (read : List (Value × Value)) :
    (tableEntries n read).Takes (10 * n) := by
  induction n generalizing read with
  | zero => exact .pure _
  | succ n ih =>
    have hn : 10 * (n + 1) = 5 + (5 + 10 * n) := by omega
    rw [hn]
    refine (takes_part Reader.takes_value).bind fun k => ?_
    refine (takes_part Reader.takes_value).bind fun v => ?_
    exact .guard (ih _)

/-- Data whose parts are counted first says how long it is. -/
theorem length?_of_counted {α β : Type} {p : UInt16 → Parser α} {f : α → β} {reason : String}
    {g : UInt16 → Nat} {b : β} (hp : ∀ n, (p n).Takes (g n))
    (hok : (do let n ← part Reader.u16; let a ← p n; finish reason; return f a : Parser β) bs =
      .ok (b, rest)) :
    ∃ rest, (do return 2 + g (← Reader.u16) : Reader Nat) bs = some (bs.length, rest) := by
  obtain ⟨n, mid, hn, hok⟩ := Parser.bind_eq_ok.1 hok
  have hread := Parser.of_eq_ok.1 hn
  have hlength := length_eq_of_finish (hp n) hok
  obtain rfl := Reader.u16_eq_some_iff.1 hread
  refine ⟨mid, Reader.bind_eq_some.2 ⟨n, mid, hread, ?_⟩⟩
  rw [List.length_append, hlength, Bytes.u16, Bytes.length_ofNat]
  rfl

/-- What has been read says how long it is. -/
theorem length?_of_load (hok : load kind bs = .ok body) :
    ∃ rest, length? kind bs = some (bs.length, rest) := by
  have hbody : ∃ rest, ObjectData.body kind bs = .ok (body, rest) := by
    rw [load] at hok
    cases hr : ObjectData.body kind bs with
    | error e => rw [hr] at hok; cases hok
    | ok r =>
      rw [hr] at hok
      obtain rfl := Except.ok.inj hok
      exact ⟨r.2, rfl⟩
  obtain ⟨rest, hok⟩ := hbody
  have helements (n : UInt16) : (part (Reader.replicate n.toNat Reader.value)).Takes (5 * n.toNat) :=
    takes_part (Reader.takes_replicate Reader.takes_value n.toNat)
  cases kind with
  | program =>
    obtain ⟨k, mid, hk, hok⟩ := Parser.bind_eq_ok.1 hok
    obtain ⟨k', mid', hk', hok⟩ := Parser.bind_eq_ok.1 hok
    obtain ⟨_, mid₂, hflags, hok⟩ := Parser.bind_eq_ok.1 hok
    obtain ⟨supers, mid₃, hsupers, hok⟩ := Parser.bind_eq_ok.1 hok
    refine ⟨mid', Reader.bind_eq_some.2 ⟨k, mid, Parser.of_eq_ok.1 hk, Reader.bind_eq_some.2
      ⟨k', mid', Parser.of_eq_ok.1 hk', ?_⟩⟩⟩
    -- What is left gets shorter with each part.
    obtain ⟨hle, rfl⟩ := takes_part Reader.takes_u16 _ _ _ hk
    obtain ⟨hle', rfl⟩ := takes_part Reader.takes_u16 _ _ _ hk'
    obtain ⟨hle₂, rfl⟩ := takes_part Reader.takes_u16 _ _ _ hflags
    obtain ⟨hle₃, rfl⟩ :=
      takes_part (Reader.takes_replicate Reader.takes_u32 k.toNat) _ _ _ hsupers
    have hlength := length_eq_of_finish (takes_props k'.toNat .empty) hok
    simp only [List.length_drop] at hle' hle₂ hle₃ hlength
    have hall : 6 + 4 * k.toNat + 7 * k'.toNat = bs.length := by omega
    rw [hall]
    rfl
  | list =>
    obtain ⟨items, _, hitems, -⟩ := Parser.bind_eq_ok.1 hok
    exact length?_of_counted (f := id) helements hitems
  | vector =>
    obtain ⟨items, _, hitems, -⟩ := Parser.bind_eq_ok.1 hok
    exact length?_of_counted (f := id) helements hitems
  | string => exact length?_of_counted (fun n => takes_part (Reader.takes_text n.toNat)) hok
  | table => exact length?_of_counted (fun n => takes_tableEntries n.toNat []) hok

/-! ## Reading back -/

theorem reads_count {n : Nat} (hn : n ≤ 65535) :
    Reader.u16.Reads (count n) (UInt16.ofNat n) ∧ (UInt16.ofNat n).toNat = n :=
  ⟨Reader.reads_u16 _, UInt16.toNat_ofNat_of_lt' (Nat.lt_succ_of_le hn)⟩

theorem length_count (n : Nat) : (count n).length = 2 := Bytes.length_ofNat _ _

theorem length_flatMap_of_forall {α : Type} {f : α → Bytes} {n : Nat} (hf : ∀ a, (f a).length = n)
    (as : List α) : (as.flatMap f).length = n * as.length := by
  induction as with
  | nil => rfl
  | cons a as ih =>
    rw [List.flatMap_cons, List.length_append, hf, ih, List.length_cons, Nat.mul_succ, Nat.add_comm]

theorem length_items (vs : List Value) : (items vs).length = 2 + 5 * vs.length := by
  rw [items, List.length_append, length_count, length_flatMap_of_forall Value.length_portable]
  rfl

theorem length_entries (es : List (Value × Value)) : (entries es).length = 2 + 10 * es.length := by
  have hentry (e : Value × Value) : (e.1.portable ++ e.2.portable).length = 10 := by
    rw [List.length_append, Value.length_portable, Value.length_portable]
    rfl
  rw [entries, List.length_append, length_count]
  exact congrArg _ (length_flatMap_of_forall hentry es)

theorem length_program (supers : List UInt32) (ps : List (PropId × Value)) :
    (program supers ps).length = 6 + 4 * supers.length + 7 * ps.length := by
  have hsuper (n : UInt32) : (Bytes.u32 n).length = 4 := Bytes.length_ofNat _ _
  have hflags : (Bytes.u16 0).length = 2 := Bytes.length_ofNat _ _
  have hprop (p : PropId × Value) : (Bytes.u16 p.1 ++ p.2.portable).length = 7 := by
    rw [List.length_append, Value.length_portable, Bytes.u16, Bytes.length_ofNat]
    rfl
  simp only [program, List.length_append, length_count, hflags, length_flatMap_of_forall hsuper]
  exact congrArg _ (length_flatMap_of_forall hprop ps)

/-- What is written says how long it is. -/
theorem Content.length?_encode {c : Content} (hc : c.Fits) :
    ∃ rest, length? c.kind c.encode = some (c.encode.length, rest) := by
  have hcounted {n : Nat} (hn : n ≤ 65535) (f : Nat → Nat) (more : Bytes) :
      (do return 2 + f (← Reader.u16).toNat : Reader Nat) (count n ++ more) =
        some (2 + f n, more) := by
    obtain ⟨hread, hback⟩ := reads_count hn
    have hall := hread.map (fun n => 2 + f n.toNat) more
    rwa [hback] at hall
  cases c with
  | program supers ps =>
    obtain ⟨hsupers, hback⟩ := reads_count hc.1
    obtain ⟨hprops, hback'⟩ := reads_count hc.2
    have hall := hsupers.bind (f := fun n => do
      return 6 + 4 * n.toNat + 7 * (← Reader.u16).toNat) (hprops.map _)
    rw [hback, hback', ← length_program supers ps] at hall
    obtain ⟨rest, hencode⟩ : ∃ rest, encode (.program supers ps) =
        count supers.length ++ count ps.length ++ rest :=
      ⟨_, by rw [encode, ObjectData.program, List.append_assoc, List.append_assoc]⟩
    exact ⟨_, (congrArg _ hencode).trans (hall rest)⟩
  | list vs => exact ⟨_, (length_items vs).symm ▸ hcounted hc (5 * ·) _⟩
  | vector vs => exact ⟨_, (length_items vs).symm ▸ hcounted hc (5 * ·) _⟩
  | string s =>
    obtain ⟨t, ht, hkept⟩ := Bytes.exists_cutText_eq 65535 s
    have hlength : (text s).length = 2 + (Bytes.ofText t).length := by
      rw [text, hkept, List.length_append, length_count]
    have hall := hcounted ht.fits id (Bytes.ofText t)
    rw [encode, hlength, text, hkept]
    exact ⟨_, hall⟩
  | table es => exact ⟨_, (length_entries es).symm ▸ hcounted hc (10 * ·) _⟩

/-- What comes after a part that was written. -/
theorem bind_part_append {α β : Type} {r : Reader α} {a : α} (hr : r.Reads bs a) (f : α → Parser β)
    (more : Bytes) : (part r >>= f) (bs ++ more) = f a more := by
  change (part r (bs ++ more) >>= fun p => f p.1 p.2) = _
  rw [part, Parser.Reads.of hr]
  rfl

/-- An entry is read unless its key has come before. -/
theorem tableEntries_append (n : Nat) (read : List (Value × Value)) (k v : Value) (more : Bytes) :
    tableEntries (n + 1) read (k.portable ++ (v.portable ++ more)) =
      if read.any (·.1 == k.written) then .error (bad "duplicate lookup table key")
      else tableEntries n ((k.written, v.written) :: read) more := by
  rw [tableEntries, bind_part_append (Reader.reads_written k),
    bind_part_append (Reader.reads_written v)]
  split <;> rfl

/-- Entries that were written are read unless a key comes twice. The induction is on those that
    are still to come. -/
theorem tableEntries_flatMap (es read : List (Value × Value)) (hread : (read.map Prod.fst).Nodup) :
    tableEntries es.length read ((es.flatMap fun (k, v) => k.portable ++ v.portable) ++ rest) =
      if (read.map Prod.fst ++ es.map fun e => e.1.written).Nodup
      then .ok (read.reverse ++ es.map fun e => (e.1.written, e.2.written), rest)
      else .error (bad "duplicate lookup table key") := by
  induction es generalizing read with
  | nil =>
    rw [List.map_nil, List.append_nil, if_pos hread, List.map_nil, List.append_nil]
    rfl
  | cons e es ih =>
    rw [List.flatMap_cons, List.append_assoc, List.append_assoc, List.length_cons,
      tableEntries_append]
    -- The key has come before, or it is one more that may not come again.
    have hany : read.any (·.1 == e.1.written) = true ↔ e.1.written ∈ read.map Prod.fst := by
      rw [List.any_eq_true, List.mem_map]
      exact exists_congr fun r => and_congr_right fun _ => beq_iff_eq
    split
    · next hbefore =>
      rw [if_neg fun hnodup => ?_]
      exact (List.nodup_append'.1 hnodup).2.2 (hany.1 hbefore) List.mem_cons_self
    · next hnew =>
      have hperm : (((e.1.written, e.2.written) :: read).map Prod.fst ++
          es.map fun e => e.1.written).Perm
            (read.map Prod.fst ++ (e :: es).map fun e => e.1.written) := List.perm_middle.symm
      rw [ih ((e.1.written, e.2.written) :: read) (List.nodup_cons.2 ⟨mt hany.2 hnew, hread⟩)]
      rw [List.reverse_cons, List.append_assoc, List.singleton_append, List.map_cons (l := es)]
      exact if_congr hperm.nodup_iff rfl rfl

/-- A property is read unless its number is zero or has come before. -/
theorem props_append (n : Nat) (t : PropTable) (p : PropId) (v : Value) (more : Bytes) :
    props (n + 1) t (Bytes.u16 p ++ (v.portable ++ more)) =
      if p = 0 then .error (bad "property id 0")
      else if t.contains p then .error (bad "property defined twice")
      else props n (t.set p v.written) more := by
  rw [props, bind_part_append (Reader.reads_u16 p), bind_part_append (Reader.reads_written v)]
  by_cases hp : p = 0
  · subst hp
    rfl
  · have hvalid : ¬(!PropId.isValid p) = true := by simpa [PropId.isValid] using hp
    dsimp only
    rw [if_neg hvalid, if_neg hp]
    split <;> rfl

/-- Properties that were written are read where none has the number zero and none comes twice. -/
theorem exists_props_eq_ok {ps : List (PropId × Value)} {t : PropTable}
    (hvalid : ∀ p ∈ ps, p.1 ≠ 0) (hnodup : (ps.map Prod.fst).Nodup)
    (hnew : ∀ p ∈ ps, t.contains p.1 = false) :
    ∃ t', (∀ p, t'.get? p = ((ps.lookup p).map Value.written).or (t.get? p)) ∧
      Parser.Reads (props ps.length t) (ps.flatMap fun (p, v) => Bytes.u16 p ++ v.portable) t' := by
  induction ps generalizing t with
  | nil => exact ⟨t, fun _ => rfl, .pure t⟩
  | cons p ps ih =>
    obtain ⟨hp, hvalid⟩ := List.forall_mem_cons.1 hvalid
    obtain ⟨hpnew, hnew⟩ := List.forall_mem_cons.1 hnew
    obtain ⟨hnot, hnodup⟩ := List.nodup_cons.1 hnodup
    have hnew' (q : PropId × Value) (hq : q ∈ ps) :
        (t.set p.1 p.2.written).contains q.1 = false := by
      have hne : q.1 ≠ p.1 := fun heq => hnot (heq ▸ List.mem_map_of_mem hq)
      rw [PropTable.contains, PropTable.get?_set, if_neg hne]
      exact hnew q hq
    obtain ⟨t', ht', hread⟩ := ih hvalid hnodup hnew'
    refine ⟨t', fun q => ?_, fun rest => ?_⟩
    · rw [ht', PropTable.get?_set, List.lookup_cons]
      by_cases hq : q = p.1
      · -- The property does not come again.
        have hnone : ps.lookup p.1 = none :=
          List.lookup_eq_none_iff.2 fun r hr => by
            have hne : p.1 ≠ r.1 := fun heq => hnot (heq ▸ List.mem_map_of_mem hr)
            exact bne_iff_ne.2 hne
        rw [hq, hnone, if_pos rfl, beq_self_eq_true]
        rfl
      · rw [if_neg hq, beq_eq_false_iff_ne.2 hq]
    · rw [List.flatMap_cons, List.append_assoc, List.append_assoc, List.length_cons, props_append,
        if_neg hp, hpnew]
      exact hread rest

/-- Properties that were written are refused otherwise. -/
theorem exists_props_eq_error {ps : List (PropId × Value)} {t : PropTable}
    (hps : ¬((∀ p ∈ ps, p.1 ≠ 0 ∧ t.contains p.1 = false) ∧ (ps.map Prod.fst).Nodup)) :
    ∃ why, ∀ rest, props ps.length t
      ((ps.flatMap fun (p, v) => Bytes.u16 p ++ v.portable) ++ rest) = .error (bad why) := by
  induction ps generalizing t with
  | nil => exact absurd ⟨List.forall_mem_nil _, .nil⟩ hps
  | cons p ps ih =>
    have hcons (rest : Bytes) := props_append ps.length t p.1 p.2
      ((ps.flatMap fun (p, v) => Bytes.u16 p ++ v.portable) ++ rest)
    simp only [List.flatMap_cons, List.append_assoc, List.length_cons, hcons]
    by_cases hp : p.1 = 0
    · exact ⟨_, fun _ => if_pos hp⟩
    by_cases ht : t.contains p.1 = true
    · exact ⟨_, fun _ => by rw [if_neg hp, if_pos ht]⟩
    · simp only [if_neg hp, if_neg ht]
      refine ih fun hrest => hps ⟨List.forall_mem_cons.2 ⟨⟨hp, by simpa using ht⟩, fun q hq => ?_⟩, ?_⟩
      · have hnew := (hrest.1 q hq).2
        rw [PropTable.contains, PropTable.get?_set] at hnew
        split at hnew
        · cases hnew
        · exact ⟨(hrest.1 q hq).1, hnew⟩
      · refine List.nodup_cons.2 ⟨fun hmem => ?_, hrest.2⟩
        obtain ⟨q, hq, heq⟩ := List.mem_map.1 hmem
        have hnew := (hrest.1 q hq).2
        rw [PropTable.contains, PropTable.get?_set, if_pos heq] at hnew
        cases hnew

/-- Values that were written. -/
theorem reads_values (vs : List Value) : (Reader.replicate vs.length Reader.value).Reads
    (vs.flatMap Value.portable) (vs.map Value.written) := by
  have hvalue (v : Value) (hv : v ∈ vs.map Value.written) : Reader.value.Reads v.portable v := by
    obtain ⟨v, -, rfl⟩ := List.mem_map.1 hv
    exact Reader.reads_portable v.isSome_portable?_written
  have hread := Reader.reads_replicate hvalue
  rwa [List.length_map, List.flatMap_map, funext Value.portable_written] at hread

/-- Nothing is left of what was written. -/
theorem bind_finish {α β : Type} {p : Parser α} {a : α} (hp : p bs = .ok (a, [])) (f : α → β)
    (reason : String) :
    (do let a ← p; finish reason; return f a : Parser β) bs = .ok (f a, []) :=
  Parser.bind_eq_ok.2 ⟨a, [], hp, Parser.bind_eq_ok.2 ⟨(), [], finish_eq_ok.2 ⟨rfl, rfl⟩, rfl⟩⟩

theorem bind_error {α β : Type} {p : Parser α} {e : Failure} (hp : p bs = .error e)
    (f : α → Parser β) : (p >>= f) bs = .error e := by
  change (p bs >>= fun r => f r.1 r.2) = _
  rw [hp]
  rfl

theorem elements_items {vs : List Value} (hvs : vs.length ≤ 65535) :
    elements (items vs) = .ok (vs.map Value.written, []) := by
  obtain ⟨hread, hback⟩ := reads_count hvs
  rw [elements, items, bind_part_append hread, hback]
  exact bind_finish (Parser.Reads.of (reads_values vs) _).whole id _

theorem stringBody_text {s t : String} (ht : Bytes.LongestStart 65535 s t)
    (hkept : Bytes.cutText 65535 (Bytes.ofText s) = Bytes.ofText t) :
    stringBody (text s) = .ok (.string t, []) := by
  obtain ⟨hread, hback⟩ := reads_count ht.fits
  rw [stringBody, text, hkept, bind_part_append hread, hback]
  exact bind_finish (Parser.Reads.of (Reader.reads_text t) _).whole _ _

theorem programBody_program {supers : List UInt32} {ps : List (PropId × Value)}
    (hsupers : supers.length ≤ 65535) (hps : ps.length ≤ 65535) :
    programBody (program supers ps) = (do
      let table ← props ps.length .empty
      finish "trailing bytes after properties"
      return .program (supers.map .ofImage) table : Parser Body)
        (ps.flatMap fun (p, v) => Bytes.u16 p ++ v.portable) := by
  obtain ⟨hread, hback⟩ := reads_count hsupers
  obtain ⟨hread', hback'⟩ := reads_count hps
  have hnumbers : (Reader.replicate supers.length Reader.u32).Reads (supers.flatMap Bytes.u32)
      supers := Reader.reads_replicate fun n _ => Reader.reads_u32 n
  rw [programBody, program, List.append_assoc, List.append_assoc, List.append_assoc,
    bind_part_append hread, bind_part_append hread', bind_part_append (Reader.reads_u16 0), hback,
    bind_part_append hnumbers, hback']

theorem tableBody_entries {es : List (Value × Value)} (hes : es.length ≤ 65535) :
    tableBody (entries es) = if (es.map fun e => e.1.written).Nodup
      then .ok (.table (es.map fun e => (e.1.written, e.2.written)), [])
      else .error (bad "duplicate lookup table key") := by
  obtain ⟨hread, hback⟩ := reads_count hes
  have hentries := @tableEntries_flatMap [] es [] .nil
  rw [List.append_nil, List.map_nil, List.nil_append, List.reverse_nil, List.nil_append] at hentries
  rw [tableBody, entries, bind_part_append hread, hback]
  split
  · next hnodup =>
    rw [if_pos hnodup] at hentries
    exact bind_finish hentries _ _
  · next hnodup =>
    rw [if_neg hnodup] at hentries
    exact bind_error hentries _

namespace Content

variable {c : Content}

/-- What has no property and no key twice is read as the body that it becomes. -/
theorem exists_load_eq_ok (hc : c.Fits) (hdistinct : c.Distinct) :
    ∃ b, c.Becomes b ∧ load c.kind c.encode = .ok b := by
  cases c with
  | program supers ps =>
    obtain ⟨hvalid, hnodup⟩ := hdistinct
    obtain ⟨t, ht, hread⟩ := exists_props_eq_ok (t := .empty) hvalid hnodup fun _ _ => rfl
    refine ⟨_, ⟨t, rfl, fun p => by rw [ht]; exact Option.or_none⟩, ?_⟩
    exact congrArg _ ((programBody_program hc.1 hc.2).trans (bind_finish hread.whole _ _))
  | list vs =>
    exact ⟨_, rfl, congrArg _ (Parser.bind_eq_ok.2 ⟨_, _, elements_items hc, rfl⟩)⟩
  | vector vs =>
    exact ⟨_, rfl, congrArg _ (Parser.bind_eq_ok.2 ⟨_, _, elements_items hc, rfl⟩)⟩
  | string s =>
    obtain ⟨t, ht, hkept⟩ := Bytes.exists_cutText_eq 65535 s
    exact ⟨_, ⟨t, rfl, ht⟩, congrArg _ (stringBody_text ht hkept)⟩
  | table es => exact ⟨_, rfl, congrArg _ ((tableBody_entries hc).trans (if_pos hdistinct))⟩

/-- Anything else is refused. -/
theorem exists_load_eq_error (hc : c.Fits) (hdistinct : ¬c.Distinct) :
    ∃ why, load c.kind c.encode = .error (bad why) := by
  cases c with
  | program supers ps =>
    obtain ⟨why, hread⟩ := @exists_props_eq_error ps .empty fun hps =>
      hdistinct ⟨fun p hp => (hps.1 p hp).1, hps.2⟩
    have hwhole := hread []
    rw [List.append_nil] at hwhole
    exact ⟨why, congrArg _ ((programBody_program hc.1 hc.2).trans (bind_error hwhole _))⟩
  | list vs => exact absurd trivial hdistinct
  | vector vs => exact absurd trivial hdistinct
  | string s => exact absurd trivial hdistinct
  | table es => exact ⟨_, congrArg _ ((tableBody_entries hc).trans (if_neg hdistinct))⟩

/-- Data that says how long it is goes on with neither less nor more. -/
theorem exists_load_eq_error_of_ne (hc : c.Fits) (hne : bs ≠ c.encode)
    (hpart : bs <+: c.encode ∨ c.encode <+: bs) : ∃ e, load c.kind bs = .error e := by
  cases hok : load c.kind bs with
  | error e => exact ⟨e, rfl⟩
  | ok body =>
    obtain ⟨rest, hlength⟩ := length?_of_load hok
    obtain ⟨rest', hlength'⟩ := length?_encode hc
    -- Of two of which one starts with the other both say the same.
    rcases hpart with ⟨more, hmore⟩ | ⟨more, hmore⟩
    · have hmore' := length?_append hlength more
      rw [hmore, hlength'] at hmore'
      have heq := (Prod.mk.inj (Option.some.inj hmore')).1
      exact absurd (List.IsPrefix.eq_of_length ⟨more, hmore⟩ heq.symm) hne
    · have hmore' := length?_append hlength' more
      rw [hmore, hlength] at hmore'
      have heq := (Prod.mk.inj (Option.some.inj hmore')).1
      exact absurd (List.IsPrefix.eq_of_length ⟨more, hmore⟩ heq.symm).symm hne

end Content

/-- **Data is read back.** What was written for an object is read as the body that it becomes if
    no property and no key comes twice, and is refused if one does. Nothing that it goes on from,
    and nothing that goes on from it, is read. -/
theorem load_encode (c : Content) (hc : c.Fits) :
    (c.Distinct → ∃ b, c.Becomes b ∧ load c.kind c.encode = .ok b) ∧
      (¬c.Distinct → ∃ why, load c.kind c.encode = .error (bad why)) ∧
      ∀ bs, bs ≠ c.encode → (bs <+: c.encode ∨ c.encode <+: bs) →
        ∃ e, load c.kind bs = .error e :=
  ⟨Content.exists_load_eq_ok hc, Content.exists_load_eq_error hc, fun _ =>
    Content.exists_load_eq_error_of_ne hc⟩

/-- A value without a portable form is read as nil, so that two such keys are one key twice. -/
theorem load_encode_floats :
    (∃ b, (Content.program [1] [(7, .float 0), (9, .int 5)]).Becomes b ∧
        load .program (program [1] [(7, .float 0), (9, .int 5)]) = .ok b) ∧
      (∃ why, load .table (entries [(.float 0, .int 1), (.nil, .int 2)]) = .error (bad why)) ∧
      ∃ e, load .string ((text "ab").take 3) = .error e :=
  ⟨(load_encode (.program [1] [(7, .float 0), (9, .int 5)]) (by decide)).1 (by decide),
    (load_encode (.table [(.float 0, .int 1), (.nil, .int 2)]) (by decide)).2.1 (by decide),
    (load_encode (.string "ab") trivial).2.2 _ (by decide +kernel) (.inl (List.take_prefix _ _))⟩

end ObjectData

end StoryMachine
