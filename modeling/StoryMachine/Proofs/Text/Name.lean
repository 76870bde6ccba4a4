import StoryMachine.Proofs.Bytes
import StoryMachine.Proofs.Text.Search

/-!
# Short names

The length of a name is written in one byte, and of a longer name the first 255 bytes are kept. The
cut looks at no characters. Where it is between two of them, the longest start of the name that goes
into 255 bytes is read back. Where it goes through a character, what is kept is not a text, and
nothing is read back.

* `Bytes.Splits`, `Bytes.splits_iff`: a cut through a character;
* `Bytes.ofText_eq_take_iff`: the first bytes of a text that are a text;
* `Reader.name_append_eq_some_iff`, `Reader.name_append_eq_none`: what is read back of a name.
-/

namespace StoryMachine

namespace Bytes

variable {limit : Nat} {s t : String}

/-! ## Cuts through characters -/

/-- A cut after `limit` bytes goes through a character of the text. -/
def Splits (limit : Nat) (s : String) : Prop :=
  ∃ i, Text.offset s.toList i < limit ∧ limit < Text.offset s.toList (i + 1)

/-- The byte after the cut is not the first one of its character. The induction is on the
    characters before the cut. -/
theorem splits_iff :
    Splits limit s ↔ ((ofText s)[limit]?.any fun b => !isBoundary b) = true := by
  rw [Splits, ofText_eq_flatMap]
  generalize s.toList = cs
  induction cs generalizing limit with
  | nil => simp [Text.offset]
  | cons c cs ih =>
    rw [List.flatMap_cons]
    rcases Nat.lt_or_ge limit (String.utf8EncodeChar c).length with hlt | hle
    · -- The cut is at the start of the first character, or goes through it.
      rw [List.getElem?_append_left hlt, List.getElem?_eq_getElem hlt, Option.any_some,
        Bool.not_eq_true', Bool.eq_false_iff, ne_eq, isBoundary_getElem c hlt]
      constructor
      · rintro ⟨i, hi, -⟩
        omega
      · intro hne
        exact ⟨0, Nat.pos_of_ne_zero hne, by rwa [Text.offset_cons_succ]⟩
    · obtain ⟨limit, rfl⟩ := Nat.exists_eq_add_of_le hle
      rw [List.getElem?_append_right hle, Nat.add_sub_cancel_left, ← ih]
      constructor
      · rintro ⟨i, hi, hi'⟩
        cases i with
        | zero =>
          rw [Text.offset_cons_succ, Text.offset_zero] at hi'
          omega
        | succ i =>
          rw [Text.offset_cons_succ] at hi hi'
          exact ⟨i, Nat.lt_of_add_lt_add_left hi, Nat.lt_of_add_lt_add_left hi'⟩
      · rintro ⟨i, hi, hi'⟩
        refine ⟨i + 1, ?_, ?_⟩
        · rw [Text.offset_cons_succ]
          exact Nat.add_lt_add_left hi _
        · rw [Text.offset_cons_succ]
          exact Nat.add_lt_add_left hi' _

instance (limit : Nat) (s : String) : Decidable (Splits limit s) :=
  decidable_of_iff _ splits_iff.symm

/-! ## Longest starts -/

/-- A start of a text has the bytes of the first characters. -/
theorem length_ofText_of_isPrefix (ht : t.toList <+: s.toList) :
    (ofText t).length = Text.offset s.toList t.toList.length := by
  rw [ofText_eq_flatMap, Text.offset, ← List.prefix_iff_eq_take.1 ht]

theorem ofText_isPrefix (ht : t.toList <+: s.toList) : ofText t <+: ofText s := by
  rw [ofText_eq_flatMap, ofText_eq_flatMap]
  exact ht.flatMap _

theorem isPrefix_of_ofText (ht : ofText t <+: ofText s) : t.toList <+: s.toList := by
  rw [ofText_eq_flatMap, ofText_eq_flatMap] at ht
  exact Text.isPrefix_of_bytes ht

/-- There is one longest start. -/
theorem LongestStart.unique {u : String} (ht : LongestStart limit s t)
    (hu : LongestStart limit s u) : t = u := by
  have hle := (ht.longest u hu.start hu.fits).length_le
  exact String.toList_inj.1 ((hu.longest t ht.start ht.fits).eq_of_length_le hle)

/-- The first bytes of a text are those of its longest start, unless the cut goes through a
    character. -/
theorem ofText_eq_take_iff :
    ofText t = (ofText s).take limit ↔ LongestStart limit s t ∧ ¬Splits limit s := by
  constructor
  · intro heq
    have hprefix : ofText t <+: ofText s := heq.symm ▸ List.take_prefix limit _
    have hstart := isPrefix_of_ofText hprefix
    have hlength : (ofText t).length = min limit (ofText s).length := heq.symm ▸ List.length_take
    refine ⟨⟨hstart, hlength ▸ min_le_left _ _, fun u hu hfits => ?_⟩, ?_⟩
    · exact isPrefix_of_ofText (heq.symm ▸ List.prefix_take_iff.2 ⟨ofText_isPrefix hu, hfits⟩)
    · rintro ⟨i, hi, hi'⟩
      -- The start ends at the cut, which is in the middle of the next character.
      have hall : Text.offset s.toList (i + 1) ≤ (ofText s).length := by
        rw [ofText_eq_flatMap, Text.offset]
        exact ((List.take_prefix (i + 1) s.toList).flatMap _).length_le
      rw [length_ofText_of_isPrefix hstart, min_eq_left (hi'.le.trans hall)] at hlength
      rcases Nat.lt_or_ge i t.toList.length with hlt | hle
      · have hlater : Text.offset s.toList (i + 1) ≤ Text.offset s.toList t.toList.length :=
          Text.offset_le_offset hlt
        omega
      · have hearlier : Text.offset s.toList t.toList.length ≤ Text.offset s.toList i :=
          Text.offset_le_offset hle
        omega
  · rintro ⟨ht, hnot⟩
    have hlength := length_ofText_of_isPrefix ht.start
    rcases Nat.lt_or_eq_of_le ht.fits with hlt | heq
    · -- The next character would fit, so there is none.
      have hnext : Text.offset s.toList (t.toList.length + 1) ≤ limit :=
        not_lt.1 fun hgt => hnot ⟨_, hlength ▸ hlt, hgt⟩
      have hlonger := ht.longest (.ofList (s.toList.take (t.toList.length + 1))) (by
        rw [String.toList_ofList]
        exact List.take_prefix _ _) (by rwa [ofText_ofList])
      have hle := hlonger.length_le
      rw [String.toList_ofList, List.length_take] at hle
      have hall : t = s := String.toList_inj.1 (ht.start.eq_of_length_le (by omega))
      subst hall
      exact (List.take_of_length_le ht.fits).symm
    · have hfront := List.prefix_iff_eq_take.1 (ofText_isPrefix ht.start)
      rwa [heq] at hfront

/-- The longest start of a text that is kept as a name. -/
def keptName (s : String) : String := (toText? (cutText 255 (ofText s))).getD ""

theorem longestStart_keptName (s : String) : LongestStart 255 s (keptName s) := by
  obtain ⟨t, ht, hkept⟩ := exists_cutText_eq 255 s
  rwa [keptName, hkept, toText?_ofText, Option.getD_some]

/-- A name is written as its longest start is. -/
theorem name_keptName (hs : ¬Splits 255 s) : name (keptName s) = name s := by
  have hbytes := ofText_eq_take_iff.2 ⟨longestStart_keptName s, hs⟩
  rw [name, name, ← hbytes, List.take_of_length_le (longestStart_keptName s).fits]

end Bytes

/-! ## Reading names -/

namespace Reader

variable {s t : String} {rest rest' : Bytes}

theorem text_append_eq_some_iff {bs : Bytes} :
    text bs.length (bs ++ rest) = some (t, rest') ↔ Bytes.toText? bs = some t ∧ rest' = rest := by
  rw [text, bind_eq_some]
  constructor
  · rintro ⟨front, mid, hfront, ht⟩
    obtain ⟨rfl, rfl⟩ := Prod.mk.inj (Option.some.inj ((reads_bytes bs rest).symm.trans hfront))
    obtain ⟨htext, hrest⟩ := lift_eq_some.1 ht
    exact ⟨htext, hrest.symm⟩
  · rintro ⟨ht, rfl⟩
    exact ⟨bs, rest', reads_bytes bs rest', lift_eq_some.2 ⟨ht, rfl⟩⟩

/-- What is read back of a name is its longest start, unless a character is cut in two. -/
theorem name_append_eq_some_iff : name (Bytes.name s ++ rest) = some (t, rest') ↔
    Bytes.LongestStart 255 s t ∧ ¬Bytes.Splits 255 s ∧ rest' = rest := by
  rw [← and_assoc, ← Bytes.ofText_eq_take_iff, ← Bytes.toText?_eq_some_iff, Bytes.name,
    List.cons_append, name]
  generalize hkept : (Bytes.ofText s).take 255 = kept
  have hlength : (UInt8.ofNat kept.length).toNat = kept.length :=
    UInt8.toNat_ofNat_of_lt' (hkept ▸ Nat.lt_succ_of_le (List.length_take_le 255 _))
  have hu8 : u8 (UInt8.ofNat kept.length :: (kept ++ rest)) =
      some (UInt8.ofNat kept.length, kept ++ rest) := reads_u8 _ (kept ++ rest)
  rw [bind_eq_some]
  constructor
  · rintro ⟨n, mid, hn, ht⟩
    obtain ⟨rfl, rfl⟩ := Prod.mk.inj (Option.some.inj (hu8.symm.trans hn))
    rw [hlength] at ht
    exact text_append_eq_some_iff.1 ht
  · intro ht
    refine ⟨_, _, hu8, ?_⟩
    rw [hlength]
    exact text_append_eq_some_iff.2 ht

/-- Of a name of which a character is cut in two, nothing is read back. -/
theorem name_append_eq_none (hs : Bytes.Splits 255 s) (rest : Bytes) :
    name (Bytes.name s ++ rest) = none := by
  refine Option.eq_none_iff_forall_ne_some.2 fun ⟨t, rest'⟩ hread => ?_
  exact (name_append_eq_some_iff.1 hread).2.1 hs

end Reader

end StoryMachine
