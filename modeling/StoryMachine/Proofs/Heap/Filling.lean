import StoryMachine.Proofs.Heap.Restored

/-!
# Filling a table in another order

The objects of an image are put into a table one after the other. Each goes to the slot with its
number, so the table that comes out does not depend on the order.

* `Heap.Fills`: objects that are put into a table;
* `Heap.place_comm`, `Heap.define_comm`: two objects in either order;
* `Heap.Fills.perm`: any number of them.
-/

namespace StoryMachine

namespace Heap

variable {h h₁ h₂ h' : Heap} {n m : UInt32} {o o' : Object} {id id' : ObjectId}
  {ds ds' : List (UInt32 × Object)}

/-- Objects are put into a table, each under its number. -/
inductive Fills : Heap → List (UInt32 × Object) → Heap → Prop
  | nil {h : Heap} : Fills h [] h
  | cons {h h₁ h' : Heap} {d : UInt32 × Object} {ds : List (UInt32 × Object)} {id : ObjectId}
      (hdefine : Heap.define d.1 d.2 h = .ok id h₁) (hrest : Fills h₁ ds h') : Fills h (d :: ds) h'

theorem Fills.append (hd : h.Fills ds h₁) (hd' : h₁.Fills ds' h') : h.Fills (ds ++ ds') h' := by
  induction hd with
  | nil => exact hd'
  | cons hdefine _ ih => exact .cons hdefine (ih hd')

theorem Fills.of_append (hd : h.Fills (ds ++ ds') h') : ∃ h₁, h.Fills ds h₁ ∧ h₁.Fills ds' h' := by
  induction ds generalizing h with
  | nil => exact ⟨h, .nil, hd⟩
  | cons d ds ih =>
    obtain ⟨⟩ | ⟨hdefine, hrest⟩ := hd
    obtain ⟨h₁, hds, hds'⟩ := ih hrest
    exact ⟨h₁, .cons hdefine hds, hds'⟩

/-! ## Two objects -/

theorem place_eq (h : Heap) (i : Nat) (s : Slot) :
    h.place i s = { h with slots := (h.place i s).slots } := by
  simp only [place, modifySlot_eq, grow]
  split <;> rfl

theorem place_withLive (h : Heap) (i live : Nat) (s : Slot) :
    { h with live }.place i s = { h.place i s with live } := by
  simp only [place, modifySlot_eq, grow]
  split <;> rfl

theorem place_comm (h : Heap) {i j : Nat} (hne : i ≠ j) (s t : Slot) :
    (h.place i s).place j t = (h.place j t).place i s := by
  have hslots : ((h.place i s).place j t).slots = ((h.place j t).place i s).slots := by
    refine Array.ext_getElem? fun k => ?_
    simp only [getElem?_place, getElem?_grow, size_place]
    split_ifs <;> first | rfl | omega
  rw [place_eq (h.place i s), place_eq (h.place j t), hslots, place_eq h i, place_eq h j]

/-- An object is put into a slot that is empty, under a number that is within the limits. -/
theorem define_eq_ok_iff : Heap.define n o h = .ok id h' ↔
    n ≠ 0 ∧ n.toNat < h.settings.maxObjects.toNat ∧ h.isOccupied n.toNat = false ∧
      id = .ofImage n ∧
        h' = { h.place n.toNat ⟨0, some ⟨o, 0, true⟩⟩ with live := h.live + 1 } := by
  rcases h.define_cases n o with ⟨e, herror⟩ | ⟨hn, hlt, hempty, hok⟩
  · rw [herror]
    refine ⟨fun hok => (nomatch hok), fun ⟨hn, hlt, hempty, _⟩ => ?_⟩
    rw [define_eq_ok hn hlt hempty] at herror
    cases herror
  · rw [hok]
    refine ⟨fun hok => ?_, fun ⟨_, _, _, hid, hh'⟩ => by rw [hid, hh']⟩
    obtain ⟨rfl, rfl⟩ := EStateM.Result.ok.inj hok
    exact ⟨hn, hlt, hempty, rfl, rfl⟩

theorem define_comm (hfirst : Heap.define n o h = .ok id h₁)
    (hsecond : Heap.define m o' h₁ = .ok id' h₂) :
    ∃ h', Heap.define m o' h = .ok id' h' ∧ Heap.define n o h' = .ok id h₂ := by
  obtain ⟨hn, hnlt, hnempty, rfl, rfl⟩ := define_eq_ok_iff.1 hfirst
  obtain ⟨hm, hmlt, hmempty, rfl, rfl⟩ := define_eq_ok_iff.1 hsecond
  have hocc (i live : Nat) (s : Slot) (j : Nat) :
      Heap.isOccupied { h.place i s with live } j =
        if i = j then s.occupant?.isSome else h.isOccupied j := isOccupied_place h i s j
  rw [hocc] at hmempty
  -- The slot of the first object is taken, so the second one goes elsewhere.
  have hne : n.toNat ≠ m.toNat := fun heq => by
    rw [if_pos heq] at hmempty
    cases hmempty
  rw [if_neg hne] at hmempty
  have hlimit (i live : Nat) (s : Slot) :
      Heap.settings { h.place i s with live } = h.settings := settings_place h i s
  rw [hlimit] at hmlt
  refine ⟨_, define_eq_ok_iff.2 ⟨hm, hmlt, hmempty, rfl, rfl⟩, define_eq_ok_iff.2
    ⟨hn, by rwa [hlimit], by rwa [hocc, if_neg hne.symm], rfl, ?_⟩⟩
  have hplaces := place_comm h hne ⟨0, some ⟨o, 0, true⟩⟩ ⟨0, some ⟨o', 0, true⟩⟩
  rw [place_withLive (h.place n.toNat _), place_withLive (h.place m.toNat _), hplaces]

/-- The order in which objects are put into a table does not matter. The induction is on the
    exchanges that make one order of the other. -/
theorem Fills.perm (hd : h.Fills ds h') (hds : ds.Perm ds') : h.Fills ds' h' := by
  induction hds generalizing h with
  | nil => exact hd
  | cons d _ ih =>
    obtain ⟨⟩ | ⟨hdefine, hrest⟩ := hd
    exact .cons hdefine (ih hrest)
  | swap d d' ds =>
    obtain ⟨⟩ | ⟨hdefine, hrest⟩ := hd
    obtain ⟨⟩ | ⟨hdefine', hrest⟩ := hrest
    obtain ⟨h₁, hfirst, hsecond⟩ := define_comm hdefine hdefine'
    exact .cons hfirst (.cons hsecond hrest)
  | trans _ _ ih ih' => exact ih' (ih hd)

end Heap

end StoryMachine
