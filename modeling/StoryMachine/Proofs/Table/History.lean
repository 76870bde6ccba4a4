import StoryMachine.Proofs.Machine.Tables

/-!
# What has been done to a table

A lookup table is told by its *history*: the keys that were given values and those that were
taken out, one after the other. The value of a key is the last one it was given since it was
taken out, and its place among the others goes by when it came in, which is the first time
that it was given a value since it was taken out.

* `History.value?`, `History.since`: the value of a key, and when it came in;
* `History.Lists`: entries that say what a history does;
* `Lists.put`, `Lists.remove`: entries after one more change;
* `Lists.putting`, `Lists.entriesOf?`: the entries that a table starts with.
-/

namespace StoryMachine

/-! ## Histories -/

/-- One change of a lookup table. -/
inductive TableChange where
  /-- A key is given a value. -/
  | put (key value : Value)
  /-- A key is taken out. -/
  | remove (key : Value)
deriving DecidableEq, Repr

/-- What has been done to a lookup table, the latest first. -/
abbrev History := List TableChange

namespace History

/-- The value that a key has been given since it was taken out, if it has been given one. -/
def value? : History → Value → Option Value
  | [], _ => none
  | .put k v :: cs, key => if key = k then some v else value? cs key
  | .remove k :: cs, key => if key = k then none else value? cs key

/-- When a key that is there came in: the number of changes before the first one since the key
    was taken out that gave it a value. -/
def since : History → Value → Nat
  | [], _ => 0
  | .put k _ :: cs, key => if key = k ∧ value? cs k = none then cs.length else since cs key
  | .remove _ :: cs, key => since cs key

/-- Keys and values in turn are put in, after what has been done before. -/
def putting (cs : History) : List Value → History
  | k :: v :: rest => putting (.put k v :: cs) rest
  | _ => cs

variable {cs : History} {key value : Value}

/-- A key that is there came in before now. -/
theorem since_lt_length (hv : cs.value? key = some value) : cs.since key < cs.length := by
  induction cs generalizing value with
  | nil => cases hv
  | cons c cs ih =>
    rw [List.length_cons]
    cases c with
    | put k w =>
      rw [since]
      rw [value?] at hv
      split_ifs with hnew
      · exact Nat.lt_succ_self _
      · by_cases hk : key = k
        · -- The key was there before it got this value.
          obtain ⟨w', hw'⟩ := Option.ne_none_iff_exists'.1 fun hnone => hnew ⟨hk, hnone⟩
          exact Nat.lt_succ_of_lt (ih (hk ▸ hw'))
        · rw [if_neg hk] at hv
          exact Nat.lt_succ_of_lt (ih hv)
    | remove k =>
      rw [value?] at hv
      split_ifs at hv
      exact Nat.lt_succ_of_lt (ih hv)

end History

/-! ## Entries with a key put in or taken out -/

/-- The entries after a key has been given a value: in its place, or at the end if it was not
    there. -/
def putIn (entries : List (Value × Value)) (key value : Value) : List (Value × Value) :=
  match entries.findIdx? (·.1 == key) with
  | none => entries ++ [(key, value)]
  | some i => entries.set i (key, value)

section Entries

variable {entries : List (Value × Value)} {key value : Value}

theorem putIn_cons (e : Value × Value) (entries : List (Value × Value)) (key value : Value) :
    putIn (e :: entries) key value =
      if e.1 = key then (key, value) :: entries else e :: putIn entries key value := by
  rw [putIn, List.findIdx?_cons, putIn]
  by_cases he : e.1 = key
  · simp [he]
  · simp only [beq_iff_eq, if_neg he]
    cases entries.findIdx? (·.1 == key) <;> rfl

theorem lookup_cons_eq_ite (e : Value × Value) (entries : List (Value × Value)) (key : Value) :
    (e :: entries).lookup key = if key = e.1 then some e.2 else entries.lookup key := by
  rw [List.lookup_cons]
  by_cases hk : key = e.1
  · rw [beq_iff_eq.2 hk, if_pos hk]
  · rw [beq_false_of_ne hk, if_neg hk]

theorem lookup_putIn (entries : List (Value × Value)) (key value key' : Value) :
    (putIn entries key value).lookup key' =
      if key' = key then some value else entries.lookup key' := by
  induction entries with
  | nil => exact lookup_cons_eq_ite (key, value) [] key'
  | cons e entries ih =>
    rw [putIn_cons, lookup_cons_eq_ite]
    by_cases he : e.1 = key
    · rw [if_pos he, lookup_cons_eq_ite, he]
      split_ifs <;> rfl
    · rw [if_neg he, lookup_cons_eq_ite, ih]
      split_ifs with hk hk'
      · exact absurd (hk.symm.trans hk') he
      · rfl
      · rfl
      · rfl

/-- A key that comes in goes to the end, and one that is there keeps its place. -/
theorem keys_putIn (entries : List (Value × Value)) (key value : Value) :
    (putIn entries key value).map Prod.fst =
      if key ∈ entries.map Prod.fst then entries.map Prod.fst
      else entries.map Prod.fst ++ [key] := by
  induction entries with
  | nil => rfl
  | cons e entries ih =>
    rw [putIn_cons, List.map_cons]
    by_cases he : e.1 = key
    · simp [he]
    · rw [if_neg he, List.map_cons, ih]
      simp only [List.mem_cons, Ne.symm he, false_or]
      split <;> rfl

theorem lookup_eq_none_iff_not_mem :
    entries.lookup key = none ↔ key ∉ entries.map Prod.fst := by
  rw [List.lookup_eq_none_iff, List.mem_map]
  simp only [bne_iff_ne, ne_eq, not_exists, not_and]
  exact forall₂_congr fun e _ => not_congr eq_comm

theorem lookup_eraseP (hnodup : (entries.map Prod.fst).Nodup) (key key' : Value) :
    (entries.eraseP (·.1 == key)).lookup key' =
      if key' = key then none else entries.lookup key' := by
  split
  · next hk =>
    rw [hk, lookup_eq_none_iff_not_mem, keys_eraseP]
    exact hnodup.not_mem_erase
  · next hk =>
    induction entries with
    | nil => rfl
    | cons e entries ih =>
      rw [List.eraseP_cons, lookup_cons_eq_ite]
      by_cases he : e.1 = key
      · rw [he, beq_self_eq_true, if_neg hk]
        rfl
      · rw [beq_false_of_ne he, cond_false, lookup_cons_eq_ite, ih (List.nodup_cons.1 hnodup).2]

/-- With different keys, the entries are the keys with their values. -/
theorem map_lookup_keys (hnodup : (entries.map Prod.fst).Nodup) :
    (entries.map Prod.fst).map (fun key => (key, (entries.lookup key).getD .nil)) = entries := by
  induction entries with
  | nil => rfl
  | cons e entries ih =>
    obtain ⟨hnew, hnodup⟩ := List.nodup_cons.1 hnodup
    rw [List.map_cons, List.map_cons, lookup_cons_eq_ite, if_pos rfl]
    refine congrArg (e :: ·) ((List.map_congr_left fun key hkey => ?_).trans (ih hnodup))
    rw [lookup_cons_eq_ite, if_neg fun he : key = e.1 => hnew (he ▸ hkey)]

end Entries

/-! ## Entries that say what has been done -/

namespace History

/-- The entries say what has been done: every key has its value, and the keys stand in the
    order in which they came in. -/
structure Lists (cs : History) (entries : List (Value × Value)) : Prop where
  /-- Each key that is there has its value, and no other key is there. -/
  value : ∀ key, entries.lookup key = cs.value? key
  /-- Keys that came in earlier stand before the others. -/
  order : (entries.map Prod.fst).Pairwise fun k k' => cs.since k < cs.since k'

variable {cs : History} {entries : List (Value × Value)}

/-- No key comes twice. -/
theorem Lists.nodup (hl : cs.Lists entries) : (entries.map Prod.fst).Nodup :=
  hl.order.imp fun hlt he => absurd (he ▸ hlt) (Nat.lt_irrefl _)

theorem Lists.mem_keys_iff (hl : cs.Lists entries) (key : Value) :
    key ∈ entries.map Prod.fst ↔ (cs.value? key).isSome := by
  rw [← hl.value, ← not_iff_not, ← lookup_eq_none_iff_not_mem, Option.not_isSome_iff_eq_none]

/-- There is only one list of such entries. -/
theorem Lists.unique {entries' : List (Value × Value)} (hl : cs.Lists entries)
    (hl' : cs.Lists entries') : entries = entries' := by
  have hkeys : entries.map Prod.fst = entries'.map Prod.fst := by
    refine List.Perm.eq_of_pairwise (fun _ _ _ _ hlt hlt' => absurd hlt' hlt.asymm) hl.order
      hl'.order ?_
    exact (List.perm_ext_iff_of_nodup hl.nodup hl'.nodup).2 fun key =>
      (hl.mem_keys_iff key).trans (hl'.mem_keys_iff key).symm
  rw [← map_lookup_keys hl.nodup, ← map_lookup_keys hl'.nodup, hkeys]
  simp only [hl.value, hl'.value]

theorem lists_nil : Lists [] [] := ⟨fun _ => rfl, .nil⟩

/-- The entries after a key has been given a value. -/
theorem Lists.put (hl : cs.Lists entries) (key value : Value) :
    Lists (.put key value :: cs) (putIn entries key value) where
  value key' := by
    rw [lookup_putIn, hl.value, value?]
  order := by
    rw [keys_putIn]
    cases hv : cs.value? key with
    | some v =>
      rw [if_pos ((hl.mem_keys_iff key).2 (by rw [hv]; rfl))]
      simpa only [since, hv, reduceCtorEq, and_false, if_false] using hl.order
    | none =>
      have hnew : key ∉ entries.map Prod.fst := fun hmem => by
        simpa [hv] using (hl.mem_keys_iff key).1 hmem
      -- The others came in before, and they stand before.
      have hother (k : Value) (hk : k ∈ entries.map Prod.fst) :
          since (.put key value :: cs) k = cs.since k := by
        rw [since, if_neg fun hsame : k = key ∧ _ => hnew (hsame.1 ▸ hk)]
      rw [if_neg hnew, List.pairwise_append]
      refine ⟨hl.order.imp_of_mem fun hk hk' hlt => ?_, List.pairwise_singleton _ _,
        fun k hk k' hk' => ?_⟩
      · rwa [hother _ hk, hother _ hk']
      · obtain ⟨v, hv'⟩ := Option.isSome_iff_exists.1 ((hl.mem_keys_iff k).1 hk)
        rw [List.mem_singleton.1 hk', hother k hk, since, if_pos ⟨rfl, hv⟩]
        exact since_lt_length hv'

/-- The entries after a key has been taken out. -/
theorem Lists.remove (hl : cs.Lists entries) (key : Value) :
    Lists (.remove key :: cs) (entries.eraseP (·.1 == key)) where
  value key' := by
    rw [lookup_eraseP hl.nodup, hl.value, value?]
  order := by
    rw [keys_eraseP]
    exact hl.order.sublist List.erase_sublist

/-! ## The entries that a table starts with -/

/-- The entries of an image stand in the order in which they come in. -/
theorem Lists.putting_edges {rest : List (Value × Value)} (hl : cs.Lists entries)
    (hnodup : ((entries ++ rest).map Prod.fst).Nodup) :
    (cs.putting (Body.table rest).edges).Lists (entries ++ rest) := by
  induction rest generalizing cs entries with
  | nil =>
    rw [List.append_nil]
    exact hl
  | cons e rest ih =>
    have hnew : e.1 ∉ entries.map Prod.fst := fun hmem => by
      rw [List.map_append, List.map_cons, List.nodup_middle, List.nodup_cons] at hnodup
      exact hnodup.1 (List.mem_append_left _ hmem)
    have hput : putIn entries e.1 e.2 = entries ++ [e] := by
      have hnone : entries.findIdx? (·.1 == e.1) = none :=
        List.findIdx?_eq_none_iff.2 fun e' he' => beq_false_of_ne fun heq =>
          hnew (heq ▸ List.mem_map_of_mem he')
      rw [putIn, hnone]
    have hnext := hl.put e.1 e.2
    rw [hput] at hnext
    rw [List.append_cons] at hnodup ⊢
    exact ih hnext hnodup

/-- The entries that a new table is given. -/
theorem Lists.entriesOf? {args : List Value} {made : List (Value × Value)} (hl : cs.Lists entries)
    (hmade : StoryMachine.entriesOf? entries args = some made) : (cs.putting args).Lists made := by
  induction entries, args using StoryMachine.entriesOf?.induct generalizing cs with
  | case1 entries =>
    obtain rfl := Option.some.inj hmade
    exact hl
  | case2 => cases hmade
  | case3 entries k v rest hi ih =>
    rw [StoryMachine.entriesOf?, hi] at hmade
    have hput := hl.put k v
    rw [putIn, hi] at hput
    exact ih hput hmade
  | case4 entries k v rest i hi ih =>
    rw [StoryMachine.entriesOf?, hi] at hmade
    have hput := hl.put k v
    rw [putIn, hi] at hput
    exact ih hput hmade

end History

end StoryMachine
