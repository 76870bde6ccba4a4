import Mathlib.Order.Bounds.Basic
import StoryMachine.Proofs.Text.Cut
import StoryMachine.Text.Search

/-!
# Where a text occurs

A text occurs in another at the places from which on the other starts with it. The search goes
through the places one character after the other and stops at the first. A search that goes
through the bytes instead, one after the other, stops at the same place: the bytes of a text
occur nowhere in those of another but where a character starts.

* `Text.places`: where a list occurs in another;
* `Text.position?_eq_some_iff`, `Text.position?_eq_none_iff`: what the search finds;
* `Text.mem_places_bytes_iff`: where the bytes of a text occur;
* `Text.isLeast_bytes_of_position?`, `Text.places_bytes_of_position?`: the search as one through
  bytes.
-/

namespace StoryMachine.Text

/-! ## Places -/

section Places

variable {α : Type} {needle text : List α} {i : Nat}

/-- The places at which the needle occurs in the text. -/
def places (needle text : List α) : Set Nat := {i | needle <+: text.drop i}

theorem mem_places_zero : 0 ∈ places needle text ↔ needle <+: text := Iff.rfl

theorem mem_places_succ {a : α} : i + 1 ∈ places needle (a :: text) ↔ i ∈ places needle text :=
  Iff.rfl

/-- After what stands in front it occurs where it does in the rest. -/
theorem add_mem_places_append (front : List α) :
    front.length + i ∈ places needle (front ++ text) ↔ i ∈ places needle text := by
  rw [places, Set.mem_ofPred_eq, List.drop_length_add_append]
  rfl

/-- It occurs where the next of the items are its own. -/
theorem mem_places_iff : i ∈ places needle text ↔ (text.drop i).take needle.length = needle :=
  List.prefix_iff_eq_take.trans eq_comm

/-- Nothing but the empty needle occurs in the empty text. -/
theorem places_nil (hne : needle ≠ []) : places needle [] = ∅ := by
  refine Set.eq_empty_of_forall_notMem fun i hi => hne ?_
  rw [places, Set.mem_ofPred_eq, List.drop_nil] at hi
  exact List.prefix_nil.1 hi

/-- The empty needle is found at the start. -/
theorem eq_zero_of_isLeast_nil (hi : IsLeast (places [] text) i) : i = 0 :=
  Nat.le_zero.1 (hi.2 (mem_places_zero.2 List.nil_prefix))

/-- A needle that is found is not longer than what is left of the text. -/
theorem add_length_le_of_isLeast (hi : IsLeast (places needle text) i) :
    i + needle.length ≤ text.length := by
  cases needle with
  | nil =>
    rw [eq_zero_of_isLeast_nil hi]
    exact Nat.zero_le _
  | cons a needle =>
    have hle : (a :: needle).length ≤ (text.drop i).length := hi.1.length_le
    rw [List.length_drop, List.length_cons] at hle
    rw [List.length_cons]
    omega

/-- A needle that is not at the start is first found where it is in the rest. -/
theorem isLeast_places_succ {a : α} (hstart : ¬needle <+: a :: text) :
    IsLeast (places needle (a :: text)) (i + 1) ↔ IsLeast (places needle text) i := by
  refine and_congr mem_places_succ ⟨fun h j hj => Nat.le_of_succ_le_succ (h (mem_places_succ.2 hj)), ?_⟩
  intro h j hj
  cases j with
  | zero => exact absurd (mem_places_zero.1 hj) hstart
  | succ j => exact Nat.succ_le_succ (h (mem_places_succ.1 hj))

end Places

/-! ## The search -/

section Search

variable {needle cs : List Char} {skipped : Nat}

theorem isLeast_of_positionFrom? {p : Nat} (hp : positionFrom? needle skipped cs = some p) :
    ∃ i, p = skipped + i ∧ IsLeast (places needle cs) i := by
  have hzero {cs : List Char} (hstart : needle <+: cs) : IsLeast (places needle cs) 0 :=
    ⟨mem_places_zero.2 hstart, fun _ _ => Nat.zero_le _⟩
  induction cs generalizing skipped with
  | nil =>
    rw [positionFrom?] at hp
    split_ifs at hp with hneedle
    exact ⟨0, (Option.some.inj hp).symm, hzero (hneedle ▸ List.prefix_rfl)⟩
  | cons c cs ih =>
    rw [positionFrom?] at hp
    split_ifs at hp with hstart
    · exact ⟨0, (Option.some.inj hp).symm, hzero (List.isPrefixOf_iff_prefix.1 hstart)⟩
    · obtain ⟨i, rfl, hi⟩ := ih hp
      have hnot : ¬needle <+: c :: cs := fun h => hstart (List.isPrefixOf_iff_prefix.2 h)
      exact ⟨i + 1, by omega, (isLeast_places_succ hnot).2 hi⟩

theorem places_of_positionFrom? (hp : positionFrom? needle skipped cs = none) :
    places needle cs = ∅ := by
  induction cs generalizing skipped with
  | nil =>
    rw [positionFrom?] at hp
    split_ifs at hp with hneedle
    exact places_nil hneedle
  | cons c cs ih =>
    rw [positionFrom?] at hp
    split_ifs at hp with hstart
    refine Set.eq_empty_of_forall_notMem fun i hi => ?_
    cases i with
    | zero => exact hstart (List.isPrefixOf_iff_prefix.2 (mem_places_zero.1 hi))
    | succ i =>
      have hrest : i ∈ places needle cs := mem_places_succ.1 hi
      rw [ih hp] at hrest
      exact hrest

variable {needle text : String} {i : Nat}

/-- The search finds the first place. -/
theorem position?_eq_some_iff :
    position? needle text = some i ↔ IsLeast (places needle.toList text.toList) i := by
  constructor
  · intro hi
    obtain ⟨j, rfl, hj⟩ := isLeast_of_positionFrom? hi
    rwa [Nat.zero_add]
  · intro hi
    cases hp : position? needle text with
    | none =>
      have hmem := hi.1
      rw [places_of_positionFrom? hp] at hmem
      exact hmem.elim
    | some p =>
      obtain ⟨j, rfl, hj⟩ := isLeast_of_positionFrom? hp
      rw [Nat.zero_add, hj.unique hi]

/-- It finds nothing if there is no place. -/
theorem position?_eq_none_iff :
    position? needle text = none ↔ places needle.toList text.toList = ∅ := by
  refine ⟨places_of_positionFrom?, fun hempty => ?_⟩
  cases hp : position? needle text with
  | none => rfl
  | some p =>
    have hmem := (position?_eq_some_iff.1 hp).1
    rw [hempty] at hmem
    exact hmem.elim

end Search

/-! ## Bytes -/

section Bytes

variable {ds cs : List Char} {k : Nat}

/-- The bytes of a text start with those of one character. -/
theorem eq_of_utf8EncodeChar_append {c d : Char} {xs ys : Bytes}
    (heq : String.utf8EncodeChar c ++ xs = String.utf8EncodeChar d ++ ys) : c = d := by
  have hdecode (c : Char) (xs : Bytes) :
      (String.utf8EncodeChar c ++ xs).toByteArray.utf8DecodeChar? 0 = some c := by
    rw [List.toByteArray_append, ByteArray.utf8DecodeChar?_utf8EncodeChar_append]
  have hsame := hdecode c xs
  rw [heq, hdecode d ys] at hsame
  exact (Option.some.inj hsame).symm

/-- A text starts with another if its bytes start with those of the other. -/
theorem isPrefix_of_bytes
    (hstart : ds.flatMap String.utf8EncodeChar <+: cs.flatMap String.utf8EncodeChar) : ds <+: cs := by
  induction ds generalizing cs with
  | nil => exact List.nil_prefix
  | cons d ds ih =>
    rw [List.flatMap_cons] at hstart
    obtain ⟨more, hmore⟩ := hstart
    cases cs with
    | nil =>
      rw [List.flatMap_nil, List.append_assoc] at hmore
      exact absurd (List.append_eq_nil_iff.1 hmore).1 String.utf8EncodeChar_ne_nil
    | cons c cs =>
      rw [List.flatMap_cons, List.append_assoc] at hmore
      obtain rfl := eq_of_utf8EncodeChar_append hmore
      rw [List.cons_prefix_cons]
      exact ⟨rfl, ih ⟨more, List.append_cancel_left hmore⟩⟩

/-- In the middle of a character no other one starts. -/
theorem not_prefix_drop_of_lt {c d : Char} {xs ys : Bytes} (hpos : 0 < k)
    (hlt : k < (String.utf8EncodeChar c).length) :
    ¬String.utf8EncodeChar d ++ ys <+: (String.utf8EncodeChar c ++ xs).drop k := by
  rintro ⟨more, hmore⟩
  have hfirst : 0 < (String.utf8EncodeChar d).length :=
    List.length_pos_iff.2 String.utf8EncodeChar_ne_nil
  have hget := congrArg (·[0]?) hmore
  rw [List.append_assoc, List.getElem?_append_left hfirst, List.getElem?_drop, Nat.add_zero,
    List.getElem?_append_left hlt, List.getElem?_eq_getElem hfirst, List.getElem?_eq_getElem hlt,
    Option.some.injEq] at hget
  have hboundary := (Bytes.isBoundary_getElem d hfirst).2 rfl
  rw [hget, Bytes.isBoundary_getElem c hlt] at hboundary
  omega

/-- The number of bytes that so many characters at the start have. -/
def offset (cs : List Char) (i : Nat) : Nat := ((cs.take i).flatMap String.utf8EncodeChar).length

theorem offset_zero (cs : List Char) : offset cs 0 = 0 := rfl

theorem offset_cons_succ (c : Char) (cs : List Char) (i : Nat) :
    offset (c :: cs) (i + 1) = (String.utf8EncodeChar c).length + offset cs i := by
  rw [offset, List.take_succ_cons, List.flatMap_cons, List.length_append, offset]

theorem offset_le_offset {i j : Nat} (hij : i ≤ j) : offset cs i ≤ offset cs j := by
  have hfront : cs.take i <+: cs.take j := List.take_prefix_take_left hij
  exact (hfront.flatMap _).length_le

/-- The bytes of a text occur where characters end after which the text itself occurs. -/
theorem mem_places_bytes_iff (hne : ds ≠ []) :
    k ∈ places (ds.flatMap String.utf8EncodeChar) (cs.flatMap String.utf8EncodeChar) ↔
      ∃ i ∈ places ds cs, k = offset cs i := by
  obtain ⟨d, ds', rfl⟩ := List.exists_cons_of_ne_nil hne
  induction cs generalizing k with
  | nil =>
    rw [List.flatMap_nil, places_nil (by simp [String.utf8EncodeChar_ne_nil]), places_nil hne]
    simp
  | cons c cs ih =>
    have hpos : 0 < (String.utf8EncodeChar c).length :=
      List.length_pos_iff.2 String.utf8EncodeChar_ne_nil
    -- The place is at the start of the first character, in the middle of it or after it.
    rcases Nat.eq_zero_or_pos k with rfl | hk
    · constructor
      · intro hstart
        exact ⟨0, mem_places_zero.2 (isPrefix_of_bytes hstart), rfl⟩
      · rintro ⟨i, hi, hzero⟩
        cases i with
        | zero => exact (mem_places_zero.1 hi).flatMap _
        | succ i =>
          rw [offset_cons_succ] at hzero
          omega
    · by_cases hlt : k < (String.utf8EncodeChar c).length
      · refine iff_of_false (not_prefix_drop_of_lt hk hlt) ?_
        rintro ⟨i, -, heq⟩
        cases i with
        | zero => exact hk.ne' heq
        | succ i =>
          rw [offset_cons_succ] at heq
          omega
      · obtain ⟨k, rfl⟩ := Nat.exists_eq_add_of_le (not_lt.1 hlt)
        rw [List.flatMap_cons (x := c), add_mem_places_append, ih]
        constructor
        · rintro ⟨i, hi, rfl⟩
          exact ⟨i + 1, mem_places_succ.2 hi, (offset_cons_succ c cs i).symm⟩
        · rintro ⟨i, hi, heq⟩
          cases i with
          | zero =>
            rw [offset_zero] at heq
            omega
          | succ i =>
            rw [offset_cons_succ, Nat.add_left_cancel_iff] at heq
            exact ⟨i, mem_places_succ.1 hi, heq⟩

end Bytes

section

variable {needle text : String}

/-- The place that is found is where a search through bytes stops, counted in characters. -/
theorem isLeast_bytes_of_position? {i : Nat} (hi : position? needle text = some i) :
    IsLeast (places (Bytes.ofText needle) (Bytes.ofText text)) (offset text.toList i) := by
  obtain ⟨hmem, hleast⟩ := position?_eq_some_iff.1 hi
  rw [Bytes.ofText_eq_flatMap, Bytes.ofText_eq_flatMap]
  by_cases hne : needle.toList = []
  · rw [hne] at hmem hleast ⊢
    rw [eq_zero_of_isLeast_nil ⟨hmem, hleast⟩]
    exact ⟨List.nil_prefix, fun _ _ => Nat.zero_le _⟩
  · refine ⟨(mem_places_bytes_iff hne).2 ⟨i, hmem, rfl⟩, fun k hk => ?_⟩
    obtain ⟨j, hj, rfl⟩ := (mem_places_bytes_iff hne).1 hk
    exact offset_le_offset (hleast hj)

/-- If no place is found, a search through bytes finds none. -/
theorem places_bytes_of_position? (hnone : position? needle text = none) :
    places (Bytes.ofText needle) (Bytes.ofText text) = ∅ := by
  have hempty := position?_eq_none_iff.1 hnone
  rw [Bytes.ofText_eq_flatMap, Bytes.ofText_eq_flatMap]
  refine Set.eq_empty_of_forall_notMem fun k hk => ?_
  by_cases hne : needle.toList = []
  · have hstart : 0 ∈ places needle.toList text.toList := by simp [hne, places]
    rw [hempty] at hstart
    exact hstart
  · obtain ⟨i, hi, -⟩ := (mem_places_bytes_iff hne).1 hk
    rw [hempty] at hi
    exact hi

end

end StoryMachine.Text
