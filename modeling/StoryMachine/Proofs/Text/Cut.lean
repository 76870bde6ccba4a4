import Mathlib
import StoryMachine.Bytes

/-!
# Texts that are cut off

Of a text that is too long the *longest start* is kept: as many of its characters as go into a
number of bytes. The cut looks at bytes only, and goes back from the limit to the last byte that
starts a character.

* `Bytes.LongestStart`: what is to be kept of a text;
* `Bytes.isBoundary_getElem`: which bytes of a character start it;
* `Bytes.exists_cutText_eq`: what is kept.
-/

namespace StoryMachine.Bytes

/-- The text `t` is as much of `s` as goes into `limit` bytes. -/
structure LongestStart (limit : Nat) (s t : String) : Prop where
  /-- The text starts with it. -/
  start : t.toList <+: s.toList
  /-- It is short enough. -/
  fits : (ofText t).length ≤ limit
  /-- Any other start that is short enough is a start of it. -/
  longest : ∀ u : String, u.toList <+: s.toList → (ofText u).length ≤ limit → u.toList <+: t.toList

/-! ## The bytes of characters -/

/-- The bytes of a text are those of its characters. -/
theorem ofText_eq_flatMap (s : String) : ofText s = s.toList.flatMap String.utf8EncodeChar := by
  have hbytes : s.toByteArray = s.toList.utf8Encode := by
    rw [← String.toByteArray_ofList, String.ofList_toList]
  change s.toByteArray.data.toList = _
  rw [hbytes, List.utf8Encode]
  simp

theorem ofText_ofList (cs : List Char) :
    ofText (String.ofList cs) = cs.flatMap String.utf8EncodeChar := by
  rw [ofText_eq_flatMap, String.toList_ofList]

theorem isBoundary_of_isUTF8FirstByte {b : UInt8} (hb : b.IsUTF8FirstByte) :
    isBoundary b = true := by
  revert b
  decide +kernel

theorem isBoundary_continuation (n : Nat) : isBoundary (UInt8.ofNat (n % 64 + 128)) = false := by
  have hall : ∀ n < 64, isBoundary (UInt8.ofNat (n + 128)) = false := by decide
  exact hall _ (Nat.mod_lt n (by decide))

/-- Of the bytes of a character only the first one starts it. -/
theorem isBoundary_getElem (c : Char) {i : Nat} (hi : i < (String.utf8EncodeChar c).length) :
    isBoundary (String.utf8EncodeChar c)[i] = true ↔ i = 0 := by
  constructor
  · intro hboundary
    by_contra hne
    obtain ⟨i, rfl⟩ := Nat.exists_eq_succ_of_ne_zero hne
    -- All bytes after the first one are of one form.
    have hmem : (String.utf8EncodeChar c)[i + 1] ∈ (String.utf8EncodeChar c).tail :=
      List.mem_iff_getElem.2 ⟨i, by rw [List.length_tail]; omega, List.getElem_tail _⟩
    have htail : ∀ b ∈ (String.utf8EncodeChar c).tail, isBoundary b = false := by
      rw [String.utf8EncodeChar]
      split_ifs <;> simp only [List.tail_cons, List.mem_cons, List.not_mem_nil, or_false,
        forall_eq_or_imp, forall_eq, isBoundary_continuation, and_self, false_imp_iff,
        implies_true]
    rw [htail _ hmem] at hboundary
    cases hboundary
  · rintro rfl
    exact isBoundary_of_isUTF8FirstByte UInt8.isUTF8FirstByte_getElem_zero_utf8EncodeChar

/-! ## The cut -/

/-- The way back ends at the last start of a character. -/
theorem cutText.back_eq {bs : Bytes} {n place : Nat} (hle : place ≤ n)
    (hplace : ∀ b ∈ bs[place]?, isBoundary b = true)
    (hafter : ∀ i, place < i → i ≤ n → ∃ b ∈ bs[i]?, isBoundary b = false) :
    back bs n = place := by
  induction n with
  | zero => exact (Nat.le_zero.1 hle).symm
  | succ n ih =>
    rw [back]
    rcases Nat.lt_or_eq_of_le hle with hlt | rfl
    · obtain ⟨b, hb, hnot⟩ := hafter (n + 1) hlt le_rfl
      rw [Option.mem_def.1 hb, Option.map_some, hnot]
      exact ih (Nat.le_of_lt_succ hlt) fun i hi hin => hafter i hi (hin.trans (Nat.le_succ n))
    · cases hb : bs[n + 1]? with
      | none => rfl
      | some b =>
        rw [Option.map_some, hplace b hb]
        rfl

/-- As many characters as go into `limit` bytes. -/
theorem exists_longest_append (limit : Nat) (cs : List Char) :
    ∃ front back : List Char, cs = front ++ back ∧
      (front.flatMap String.utf8EncodeChar).length ≤ limit ∧
      ∀ c ∈ back.head?, limit < ((front ++ [c]).flatMap String.utf8EncodeChar).length := by
  induction cs generalizing limit with
  | nil => exact ⟨[], [], rfl, Nat.zero_le _, by simp⟩
  | cons c cs ih =>
    by_cases hc : (String.utf8EncodeChar c).length ≤ limit
    · obtain ⟨front, back, rfl, hfront, hback⟩ := ih (limit - (String.utf8EncodeChar c).length)
      refine ⟨c :: front, back, rfl, ?_, fun c' hc' => ?_⟩
      · rw [List.flatMap_cons, List.length_append]
        omega
      · have hlt := hback c' hc'
        rw [List.cons_append, List.flatMap_cons, List.length_append]
        omega
    · refine ⟨[], c :: cs, rfl, Nat.zero_le _, fun c' hc' => ?_⟩
      obtain rfl := Option.some.inj hc'
      rw [List.nil_append, List.flatMap_singleton]
      exact not_le.1 hc

/-- The cut keeps whole characters, as many as go into the limit. -/
theorem cutText_flatMap {limit : Nat} {front back : List Char}
    (hfront : (front.flatMap String.utf8EncodeChar).length ≤ limit)
    (hback : ∀ c ∈ back.head?, limit < ((front ++ [c]).flatMap String.utf8EncodeChar).length) :
    cutText limit ((front ++ back).flatMap String.utf8EncodeChar) =
      front.flatMap String.utf8EncodeChar := by
  rw [List.flatMap_append]
  generalize hbs : front.flatMap String.utf8EncodeChar = bs at hfront
  cases back with
  | nil =>
    rw [List.flatMap_nil, List.append_nil, cutText, List.drop_of_length_le hfront]
    rfl
  | cons c back =>
    have hlimit := hback c rfl
    rw [List.flatMap_append, hbs, List.flatMap_singleton, List.length_append] at hlimit
    -- Up to the limit there are only bytes of the first character that is cut off.
    have hget {i : Nat} (hi : bs.length ≤ i) (hle : i ≤ limit) :
        (bs ++ (c :: back).flatMap String.utf8EncodeChar)[i]? =
          some (String.utf8EncodeChar c)[i - bs.length] := by
      rw [List.getElem?_append_right hi, List.flatMap_cons, List.getElem?_append_left (by omega)]
      exact List.getElem?_eq_getElem (by omega)
    have hend : cutText.back (bs ++ (c :: back).flatMap String.utf8EncodeChar) limit =
        bs.length := by
      refine cutText.back_eq hfront (fun b hb => ?_) fun i hi hle => ?_
      · rw [hget le_rfl hfront] at hb
        obtain rfl := Option.some.inj hb
        exact (isBoundary_getElem c _).2 (Nat.sub_self _)
      · refine ⟨_, hget hi.le hle, Bool.eq_false_iff.2 fun hboundary => ?_⟩
        have hzero := (isBoundary_getElem c _).1 hboundary
        omega
    rw [cutText, List.head?_drop, hget hfront le_rfl]
    dsimp only
    rw [hend, List.take_left]

/-- What is kept of a text is its longest start. -/
theorem exists_cutText_eq (limit : Nat) (s : String) :
    ∃ t, LongestStart limit s t ∧ cutText limit (ofText s) = ofText t := by
  obtain ⟨front, back, hs, hfront, hback⟩ := exists_longest_append limit s.toList
  refine ⟨String.ofList front, ⟨?_, ?_, fun u hu hlength => ?_⟩, ?_⟩
  · rw [String.toList_ofList, hs]
    exact List.prefix_append _ _
  · rwa [ofText_ofList]
  · rw [String.toList_ofList]
    -- Of two starts one is a start of the other.
    rcases List.prefix_or_prefix_of_prefix hu (hs ▸ List.prefix_append front back) with h | h
    · exact h
    · obtain ⟨more, hmore⟩ := h
      rw [hs, ← hmore, List.prefix_append_right_inj] at hu
      cases more with
      | nil =>
        rw [List.append_nil] at hmore
        exact hmore ▸ List.prefix_rfl
      | cons c more =>
        -- The next character does not fit.
        obtain ⟨rest, rfl⟩ := hu
        have hlt := hback c rfl
        rw [ofText_eq_flatMap, ← hmore] at hlength
        simp only [List.flatMap_append, List.flatMap_cons, List.flatMap_nil, List.append_nil,
          List.length_append] at hlt hlength
        omega
  · rw [ofText_eq_flatMap, hs, cutText_flatMap hfront hback, ofText_ofList]

end StoryMachine.Bytes
