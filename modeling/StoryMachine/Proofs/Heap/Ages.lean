import StoryMachine.Proofs.Heap.Touch

/-!
# How slots age

Nothing that is done to a table takes a slot back. A slot keeps its generation and
whatever is in it, an object that stays of its metaclass and kind, until the object is
freed; then the generation moves on. It starts again only after the last one, so this
does not happen to a slot that has been freed less often. Unlike the counts, all of it
is so for every caller, whatever it gives up.

* `Slot.Ages`, `Heap.Ages`: the relation, for a slot and for a table;
* `Touches.ages`: whatever makes no object lets the slots age;
* `alloc_of_cons`, `alloc_of_full`, `alloc_of_nil`: what becomes of a table by a new object.
-/

namespace StoryMachine

/-- What becomes of a slot as long as no object is put into it. -/
inductive Slot.Ages (s : Slot) : Slot → Prop
  /-- It stays as it is, but for what the object in it holds and its counts. -/
  | stays {s' : Slot} (hg : s'.generation = s.generation)
      (hsome : s'.occupant?.isSome = s.occupant?.isSome)
      (hlike : ∀ o o', s.occupant? = some o → s'.occupant? = some o' → o.Like o') : Ages s s'
  /-- The object in it is freed. -/
  | freed (ho : s.occupant?.isSome = true) : Ages s s.vacated

namespace Slot.Ages

variable {s s' s'' : Slot}

theorem refl (s : Slot) : s.Ages s := by
  refine .stays rfl rfl fun o o' ho ho' => ?_
  rw [ho, Option.some.injEq] at ho'
  exact ho' ▸ .refl o

theorem isSome (ha : s.Ages s') (ho : s'.occupant?.isSome = true) : s.occupant?.isSome = true := by
  cases ha with
  | stays _ hsome _ => rwa [← hsome]
  | freed hs => exact hs

theorem trans (h₁ : s.Ages s') (h₂ : s'.Ages s'') : s.Ages s'' := by
  cases h₂ with
  | freed ho' =>
    cases h₁ with
    | stays hg hsome _ =>
      have hvacated : s'.vacated = s.vacated := by rw [vacated, vacated, isLast, isLast, hg]
      exact hvacated ▸ .freed (hsome ▸ ho')
    | freed _ => cases ho'
  | stays hg' hsome' hlike' =>
    cases h₁ with
    | stays hg hsome hlike =>
      refine .stays (hg'.trans hg) (hsome'.trans hsome) fun o o'' ho ho'' => ?_
      obtain ⟨o', ho'⟩ : ∃ o', s'.occupant? = some o' := by
        rw [← Option.isSome_iff_exists, hsome, ho, Option.isSome_some]
      exact (hlike o o' ho ho').trans (hlike' o' o'' ho' ho'')
    | freed ho =>
      -- A slot without an object stays as it is.
      have hempty : s''.occupant? = none := by
        rw [← Option.not_isSome_iff_eq_none, hsome']
        simp
      have hsame : s'' = s.vacated := by
        cases s''
        simp_all [vacated]
      exact hsame ▸ .freed ho

end Slot.Ages

namespace Heap

variable {h h' h'' : Heap} {i : Nat} {id : ObjectId} {s s' : Slot}

/-- The object in slot `i` is freed. -/
def Frees (h h' : Heap) (i : Nat) : Prop := h.isOccupied i = true ∧ h'.isOccupied i = false

instance (h h' : Heap) (i : Nat) : Decidable (h.Frees h' i) := inferInstanceAs (Decidable (_ ∧ _))

/-- What becomes of a table as long as no object is made. -/
structure Ages (h h' : Heap) : Prop where
  /-- The settings are for good. -/
  settings : h'.settings = h.settings
  /-- There are as many slots as before. -/
  size : h'.slots.size = h.slots.size
  /-- Every slot ages. -/
  slots : ∀ (i : Nat) (s s' : Slot), h.slots[i]? = some s → h'.slots[i]? = some s' → s.Ages s'
  /-- The list of free slots goes with them. -/
  tidy : h.Tidy → h'.Tidy
  /-- Generations start again only when an object of the last one is freed. -/
  wrapped : h'.wrapped = true → h.wrapped = true ∨
    ∃ i s, h.Frees h' i ∧ h.slots[i]? = some s ∧ s.isLast = true

theorem exists_slot_of_size (hsize : h'.slots.size = h.slots.size) (hs : h'.slots[i]? = some s') :
    ∃ s, h.slots[i]? = some s := by
  have hlt := (Array.getElem?_eq_some_iff.1 hs).1
  exact ⟨_, Array.getElem?_eq_getElem (hsize ▸ hlt)⟩

namespace Ages

theorem refl (h : Heap) : h.Ages h where
  settings := rfl
  size := rfl
  slots i s s' hs hs' := by
    rw [hs, Option.some.injEq] at hs'
    exact hs' ▸ .refl s
  tidy ht := ht
  wrapped hw := .inl hw

/-- Where there is an object there was one, in the same generation. -/
theorem isOccupied (ha : h.Ages h') (hi : h'.isOccupied i = true) : h.isOccupied i = true := by
  obtain ⟨s', o', hs', ho'⟩ := isOccupied_iff.1 hi
  obtain ⟨s, hs⟩ := exists_slot_of_size ha.size hs'
  obtain ⟨o, ho⟩ := Option.isSome_iff_exists.1 ((ha.slots i s s' hs hs').isSome (by simp [ho']))
  exact isOccupied_iff.2 ⟨s, o, hs, ho⟩

theorem generation (ha : h.Ages h') (hs : h.slots[i]? = some s) (hs' : h'.slots[i]? = some s')
    (hi : h'.isOccupied i = true) : s'.generation = s.generation := by
  obtain ⟨s'', o', hs'', ho'⟩ := isOccupied_iff.1 hi
  obtain rfl : s' = s'' := Option.some.inj (hs'.symm.trans hs'')
  cases ha.slots i s s' hs hs' with
  | stays hg _ _ => exact hg
  | freed _ => cases ho'

theorem trans (h₁ : h.Ages h') (h₂ : h'.Ages h'') : h.Ages h'' where
  settings := h₂.settings.trans h₁.settings
  size := h₂.size.trans h₁.size
  slots i s s'' hs hs'' := by
    obtain ⟨s', hs'⟩ := exists_slot_of_size h₂.size hs''
    exact (h₁.slots i s s' hs hs').trans (h₂.slots i s' s'' hs' hs'')
  tidy ht := h₂.tidy (h₁.tidy ht)
  wrapped hw := by
    rcases h₂.wrapped hw with hw | ⟨i, s', ⟨hocc, hempty⟩, hs', hlast⟩
    · refine (h₁.wrapped hw).imp_right fun ⟨i, s, ⟨hocc, hempty⟩, hs⟩ => ⟨i, s, ⟨hocc, ?_⟩, hs⟩
      exact Bool.eq_false_iff.2 fun hi => absurd (h₂.isOccupied hi) (by simp [hempty])
    · obtain ⟨s, hs⟩ := exists_slot_of_size h₁.size hs'
      refine .inr ⟨i, s, ⟨h₁.isOccupied hocc, hempty⟩, hs, ?_⟩
      rwa [Slot.isLast, ← h₁.generation hs hs' hocc]

/-- Only slots, settings and free slots matter. -/
theorem congr {g : Heap} (ha : h.Ages h') (hslots : g.slots = h'.slots)
    (hsettings : g.settings = h'.settings) (hfree : g.free = h'.free)
    (hwrap : g.wrapped = h'.wrapped) : h.Ages g where
  settings := hsettings.trans ha.settings
  size := hslots ▸ ha.size
  slots i s s' hs hs' := ha.slots i s s' hs (hslots ▸ hs')
  tidy ht := by
    have ht := ha.tidy ht
    refine ⟨hslots ▸ ht.size_pos, hslots ▸ hsettings ▸ ht.size_le, ?_, hfree ▸ ht.zero_not_free,
      hfree ▸ ht.free_nodup, hfree ▸ hslots ▸ ht.free_open, fun id o ho => ?_⟩
    · rw [Heap.isOccupied, hslots]
      exact ht.reserved
    · exact ht.persistent_iff id o ((occupant?_congr hslots id).symm.trans ho)
  wrapped hw := by
    rcases ha.wrapped (hwrap ▸ hw) with hw | ⟨i, s, ⟨hocc, hempty⟩, hs⟩
    · exact .inl hw
    · refine .inr ⟨i, s, ⟨hocc, ?_⟩, hs⟩
      rwa [Heap.isOccupied, hslots]

/-! ## Counts, and objects that are freed -/

theorem modifyOccupant {f : Occupant → Occupant} (h : Heap) (id : ObjectId)
    (hpersistent : ∀ o, (f o).persistent = o.persistent)
    (hlike : ∀ o, h.occupant? id = some o → o.Like (f o)) : h.Ages (h.modifyOccupant id f) where
  settings := by simp [Heap.modifyOccupant, modifySlot_eq]
  size := by simp [Heap.modifyOccupant]
  slots i s s' hs hs' := by
    rw [Heap.modifyOccupant, getElem?_modifySlot] at hs'
    split at hs'
    · next hi =>
      subst hi
      rw [hs, Option.map_some, Option.some.injEq] at hs'
      split at hs'
      · next hg =>
        subst hs'
        refine .stays rfl (by simp) fun o o' ho ho' => ?_
        rw [ho, Option.map_some, Option.some.injEq] at ho'
        exact ho' ▸ hlike o (occupant?_eq_some_iff.2 ⟨s, hs, hg, ho⟩)
      · exact hs' ▸ .refl s
    · rw [hs, Option.some.injEq] at hs'
      exact hs' ▸ .refl s
  tidy ht := ht.modifyOccupant id hpersistent
  wrapped hw := .inl (by simpa using hw)

theorem vacate (h : Heap) (i : Nat) : h.Ages (h.vacate i) := by
  cases hocc : h.isOccupied i with
  | false =>
    rw [Heap.vacate, if_neg (by simp [hocc])]
    exact .refl h
  | true =>
    obtain ⟨s, o, hs, hso⟩ := isOccupied_iff.1 hocc
    have hget (j : Nat) := getElem?_vacate hs hso j
    refine ⟨settings_vacate h i, size_vacate h i, fun j t t' ht ht' => ?_, fun htidy => ?_,
      fun hw => ?_⟩
    · rw [hget] at ht'
      split at ht'
      · next hij =>
        rw [← hij, hs, Option.some.injEq] at ht
        rw [← Option.some.inj ht', ← ht]
        exact .freed (by simp [hso])
      · rw [ht, Option.some.injEq] at ht'
        exact ht' ▸ .refl t
    · have hlt := (Array.getElem?_eq_some_iff.1 hs).1.trans htidy.size_lt
      have hindex : (UInt32.ofNat i).toNat = i := UInt32.toNat_ofNat_of_lt hlt
      have ho : h.occupant? ⟨UInt32.ofNat i, s.generation⟩ = some o :=
        occupant?_eq_some_iff.2 ⟨s, by rw [hindex, hs], rfl, hso⟩
      exact hindex ▸ htidy.vacate ho
    · rw [wrapped_vacate hs hso, Bool.or_eq_true] at hw
      refine hw.imp_right fun hlast => ⟨i, s, ⟨hocc, ?_⟩, hs, hlast⟩
      rw [Heap.isOccupied, hget, if_pos rfl]
      rfl

end Ages

theorem Touch.ages (ht : h.Touch h') : h.Ages h' := by
  cases ht with
  | vacate i _ _ => exact .vacate h i
  | modify id hpersistent hlike => exact .modifyOccupant h id hpersistent hlike
  | aside hslots hsettings hfree _ hwrap _ => exact (Ages.refl h).congr hslots hsettings hfree hwrap

theorem Touches.ages (ht : h.Touches h') : h.Ages h' := by
  induction ht with
  | refl => exact .refl h
  | tail _ ht ih => exact ih.trans ht.ages

namespace Ages

/-! ## Operations -/

theorem retainValue (h : Heap) (v : Value) : h.Ages (h.retainValue v) :=
  (Touches.retainValue h v).ages

theorem retainValues (h : Heap) (vs : List Value) : h.Ages (h.retainValues vs) :=
  (Touches.retainValues h vs).ages

theorem releaseValues (h : Heap) (vs : List Value) : h.Ages (h.releaseValues vs) :=
  (Touches.releaseValues h vs).ages

theorem releaseValue (h : Heap) (v : Value) : h.Ages (h.releaseValue v) :=
  (Touches.releaseAll h _).ages

theorem collect (h : Heap) (roots : List Value) : h.Ages (h.collect roots).2 :=
  (Touches.collect h roots).ages

theorem beginSavepoint (h : Heap) : h.Ages h.beginSavepoint.2 := (Touches.beginSavepoint h).ages

theorem undoLast (h : Heap) : h.Ages h.undoLast.2 := (Touches.undoLast h).ages

end Ages

/-- What a table becomes by a change to an object, also by one that fails. -/
theorem EditsAt.ages {α : Type} {x : HeapM α} {given : List Value} {taken : α → List Value}
    (he : EditsAt x h id given taken) :
    (∃ e, x h = .error e h) ∨ ∃ a h', x h = .ok a h' ∧ h.Ages h' := by
  rcases he with herr | ⟨a, h', hok, hedit | ⟨rfl, -, -⟩⟩
  · exact .inl herr
  · exact .inr ⟨a, h', hok, hedit.touches.ages⟩
  · exact .inr ⟨a, _, hok, .refl _⟩

/-! ## New objects -/

/-- A new object takes the first free slot. -/
theorem alloc_of_cons {n : UInt32} {rest : List UInt32} (hfree : h.free = n :: rest)
    (object : Object) : alloc object h =
      .ok ⟨n, (h.slots[n.toNat]?.map Slot.generation).getD 0⟩
        ({ h with free := rest }.occupy n.toNat object) := by
  have hgeneration : ({ h with free := rest }.occupy n.toNat object).slots[n.toNat]?.map
      Slot.generation = h.slots[n.toNat]?.map Slot.generation := by
    rw [getElem?_occupy, if_pos rfl, Option.map_map]
    rfl
  simp only [Heap.alloc, bind, EStateM.bind, get, getThe, MonadStateOf.get, EStateM.get, hfree,
    modify, modifyGet, MonadStateOf.modifyGet, EStateM.modifyGet, pure, EStateM.pure,
    hgeneration]

/-- There is none, and there can be no more slots. -/
theorem alloc_of_full (hfree : h.free = [])
    (hfull : h.settings.maxObjects ≤ UInt32.ofNat h.slots.size) (object : Object) :
    alloc object h = .error (.outOfMemory h.settings.maxObjects) h := by
  simp only [Heap.alloc, bind, EStateM.bind, get, getThe, MonadStateOf.get, EStateM.get, hfree,
    hfull, if_true, throw, throwThe, MonadExceptOf.throw, EStateM.throw]

/-- There is none, so the object gets a slot of its own. -/
theorem alloc_of_nil (hfree : h.free = [])
    (hroom : ¬h.settings.maxObjects ≤ UInt32.ofNat h.slots.size) (object : Object) :
    alloc object h = .ok ⟨UInt32.ofNat h.slots.size, 1⟩
      ({ h with slots := h.slots.push { generation := 1 } }.occupy
        (UInt32.ofNat h.slots.size).toNat object) := by
  simp only [Heap.alloc, bind, EStateM.bind, get, getThe, MonadStateOf.get, EStateM.get, hfree,
    hroom, if_false, modify, modifyGet, MonadStateOf.modifyGet, EStateM.modifyGet, pure,
    EStateM.pure]

end Heap

end StoryMachine
