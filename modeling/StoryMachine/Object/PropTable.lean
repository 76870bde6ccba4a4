import StoryMachine.Value

/-!
# Property tables

The own properties of an object, a finite map from property numbers to values.
The entries are kept in ascending order of property number, which is the order
in which everything that walks over an object sees them.

* `PropTable.get?`, `PropTable.set`, `PropTable.erase`: the map;
* `PropTable.entries`: its view as an ascending list.
-/

namespace StoryMachine

/-- A finite map from properties to values. -/
structure PropTable where
  /-- The properties with their values, by ascending number. -/
  entries : List (PropId × Value) := []
  /-- No two entries are for one property, and the lower number comes first. -/
  ascending : entries.Pairwise (·.1 < ·.1) := by exact .nil
deriving DecidableEq, Repr

namespace PropTable

/-- The table without entries. -/
def empty : PropTable := {}

instance : Inhabited PropTable := ⟨empty⟩

/-- The value of a property. -/
def get? (t : PropTable) (p : PropId) : Option Value :=
  (t.entries.find? (·.1 == p)).map Prod.snd

/-- Whether the property has a value. -/
def contains (t : PropTable) (p : PropId) : Bool := (t.get? p).isSome

/-- Puts an entry in its place, instead of one for the same property if there
    is one. -/
def insertEntry (p : PropId) (v : Value) : List (PropId × Value) → List (PropId × Value)
  | [] => [(p, v)]
  | (q, w) :: rest =>
    if q < p then (q, w) :: insertEntry p v rest
    else if q = p then (p, v) :: rest
    else (p, v) :: (q, w) :: rest

theorem mem_insertEntry {p : PropId} {v : Value} {es : List (PropId × Value)} {e : PropId × Value}
    (he : e ∈ insertEntry p v es) : e = (p, v) ∨ e ∈ es := by
  induction es with
  | nil => simpa [insertEntry] using he
  | cons f rest ih =>
    obtain ⟨q, w⟩ := f
    unfold insertEntry at he
    split at he
    · rcases List.mem_cons.1 he with rfl | he
      · exact .inr List.mem_cons_self
      · exact (ih he).imp id (List.mem_cons_of_mem _)
    · split at he
      · exact (List.mem_cons.1 he).imp id (List.mem_cons_of_mem _)
      · exact List.mem_cons.1 he

theorem pairwise_insertEntry (p : PropId) (v : Value) {es : List (PropId × Value)}
    (hes : es.Pairwise (·.1 < ·.1)) : (insertEntry p v es).Pairwise (·.1 < ·.1) := by
  induction es with
  | nil => exact List.pairwise_singleton _ _
  | cons f rest ih =>
    obtain ⟨q, w⟩ := f
    obtain ⟨hq, hrest⟩ := List.pairwise_cons.1 hes
    unfold insertEntry
    split
    · next hlt =>
      refine List.pairwise_cons.2 ⟨fun e he => ?_, ih hrest⟩
      rcases mem_insertEntry he with rfl | he
      · exact hlt
      · exact hq e he
    · next hlt =>
      split
      · next heq => exact List.pairwise_cons.2 ⟨fun e he => heq ▸ hq e he, hrest⟩
      · next hne =>
        have hpq : p < q := Std.lt_of_le_of_ne (Std.not_lt.1 hlt) fun h => hne h.symm
        refine List.pairwise_cons.2 ⟨fun e he => ?_, hes⟩
        rcases List.mem_cons.1 he with rfl | he
        · exact hpq
        · exact Std.lt_trans hpq (hq e he)

/-- The table in which `p` has the value `v`. -/
def set (t : PropTable) (p : PropId) (v : Value) : PropTable :=
  ⟨insertEntry p v t.entries, pairwise_insertEntry p v t.ascending⟩

/-- The table in which `p` has no value. -/
def erase (t : PropTable) (p : PropId) : PropTable :=
  ⟨t.entries.filter (·.1 != p), t.ascending.filter _⟩

/-- The number of properties that have a value. -/
def size (t : PropTable) : Nat := t.entries.length

/-- The table of a list of entries; of two for one property the later one
    counts. -/
def ofList (entries : List (PropId × Value)) : PropTable :=
  entries.foldl (fun t (p, v) => t.set p v) empty

end PropTable

end StoryMachine
