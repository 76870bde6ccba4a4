import StoryMachine.Proofs.Machine.Equality

/-!
# What values stand for

To a program a string is its text and a list the sequence of its elements, whether it
is a constant or an object. All other values, vectors among them, are just themselves.
A value thus stands for a tree, unless lists contain each other without end.

* `Machine.content?`: what there is to see of a value before its elements are looked at;
* `Machine.Denotes`: a value stands for a tree;
* `Machine.Legible`: all that there is inside of a value can be looked at;
* `Legible.existsUnique_denotes`: such a value stands for one tree;
* `valuesEqual_iff_same_tree`: the machine finds two such values equal if they stand for
  the same tree.
-/

namespace StoryMachine

/-- What values stand for. -/
inductive Tree where
  /-- A text. -/
  | text (s : String)
  /-- A sequence. -/
  | list (elements : List Tree)
  /-- A value that stands for nothing but itself. -/
  | itself (v : Value)

/-- What there is to see of a value before its elements are looked at. -/
inductive Content where
  /-- A text. -/
  | text (s : String)
  /-- Elements that do not change. -/
  | list (items : List Value)
  /-- Nothing that the value could be told by except itself. -/
  | itself
deriving DecidableEq

namespace Content

/-- The text. -/
def text? : Content → Option String
  | text s => some s
  | _ => none

/-- The elements. -/
def items? : Content → Option (List Value)
  | list items => some items
  | _ => none

/-- What is known of two values that are not the same, before their elements are
    compared. -/
def compare : Content → Content → Comparison
  | text s, text t => .known (s == t)
  | list xs, list ys => if xs.length = ys.length then .inside (xs.zip ys) else .known false
  | _, _ => .known false

end Content

/-- What there is to see of an object. -/
def Body.content : Body → Content
  | .string s => .text s
  | .list items => .list items
  | _ => .itself

namespace Machine

/-- What there is to see of a value, if it is an object that there is, a constant that
    can be read, or neither. -/
def content? (m : Machine) : Value → Option Content
  | .stringConst ofs => (m.pools.readString ofs).1.toOption.map .text
  | .listConst ofs => (m.pools.readList ofs).1.toOption.map .list
  | .obj id => (m.heap.get? id).map (·.body.content)
  | _ => some .itself

/-- A value stands for a tree: its text, what its elements stand for, or itself. -/
inductive Denotes (m : Machine) : Value → Tree → Prop
  | text {v : Value} {s : String} : m.content? v = some (.text s) → Denotes m v (.text s)
  | list {v : Value} {items : List Value} {elements : List Tree} :
    m.content? v = some (.list items) → List.Forall₂ (Denotes m) items elements →
      Denotes m v (.list elements)
  | itself {v : Value} : m.content? v = some .itself → Denotes m v (.itself v)

/-- The list, object or constant, has the value as an element. -/
def Nests (m : Machine) (v w : Value) : Prop := ∃ items, m.content? v = some (.list items) ∧ w ∈ items

/-- Lists do not go on forever inside of the value, its objects are there, its constants
    can be read, and it has no floating-point numbers. -/
structure Legible (m : Machine) (v : Value) : Prop where
  founded : Acc (fun w v => m.Nests v w) v
  seen : ∀ w, Relation.ReflTransGen m.Nests v w → (m.content? w).isSome
  exact : ∀ w, Relation.ReflTransGen m.Nests v w → ∀ bits, w ≠ .float bits

variable {m : Machine} {a b v w : Value} {c d : Content}

theorem Legible.of_nests (hv : m.Legible v) (hw : m.Nests v w) : m.Legible w :=
  ⟨hv.founded.inv hw, fun _ hu => hv.seen _ (.head hw hu), fun _ hu => hv.exact _ (.head hw hu)⟩

theorem Legible.of_items (hc : m.content? v = some c) (hfloat : ∀ bits, v ≠ .float bits)
    (hitems : ∀ w ∈ c.items?.getD [], m.Legible w) : m.Legible v := by
  have hnests : ∀ w, m.Nests v w → m.Legible w := by
    rintro w ⟨items, hv, hw⟩
    obtain rfl := Option.some.inj (hc.symm.trans hv)
    exact hitems w hw
  refine ⟨.intro v fun w hw => (hnests w hw).founded, fun w hw => ?_, fun w hw => ?_⟩
  · rcases hw.cases_head with rfl | ⟨u, hvu, huw⟩
    · rw [hc]
      rfl
    · exact (hnests u hvu).seen w huw
  · rcases hw.cases_head with rfl | ⟨u, hvu, huw⟩
    · exact hfloat
    · exact (hnests u hvu).exact w huw

theorem Legible.exists_content (hv : m.Legible v) : ∃ c, m.content? v = some c :=
  Option.isSome_iff_exists.1 (hv.seen v .refl)

theorem Legible.ne_float (hv : m.Legible v) (bits : UInt64) : v ≠ .float bits := hv.exact v .refl bits

/-- What holds of a value if it holds of its elements holds of all legible ones. -/
@[elab_as_elim]
theorem Legible.induction {motive : Value → Prop} (hv : m.Legible v)
    (hstep : ∀ v c, m.Legible v → m.content? v = some c →
      (∀ items, c = .list items → ∀ w ∈ items, m.Legible w ∧ motive w) → motive v) : motive v := by
  obtain ⟨hfounded, hseen, hexact⟩ := hv
  induction hfounded with
  | intro v hfounded ih =>
    have hv : m.Legible v := ⟨.intro v hfounded, hseen, hexact⟩
    obtain ⟨c, hc⟩ := hv.exists_content
    refine hstep v c hv hc fun items hitems w hw => ?_
    have hnests : m.Nests v w := ⟨items, hitems ▸ hc, hw⟩
    have hlegible := hv.of_nests hnests
    exact ⟨hlegible, ih w hnests hlegible.seen hlegible.exact⟩

/-! ## The tree of a value -/

theorem Denotes.text_iff (hv : m.content? v = some (.text s)) : m.Denotes v t ↔ t = .text s := by
  refine ⟨fun ht => ?_, fun ht => ht ▸ .text hv⟩
  cases ht <;> simp_all

theorem Denotes.itself_iff (hv : m.content? v = some .itself) : m.Denotes v t ↔ t = .itself v := by
  refine ⟨fun ht => ?_, fun ht => ht ▸ .itself hv⟩
  cases ht <;> simp_all

theorem Denotes.list_iff (hv : m.content? v = some (.list items)) :
    m.Denotes v t ↔ ∃ elements, t = .list elements ∧ List.Forall₂ m.Denotes items elements := by
  refine ⟨fun ht => ?_, fun ⟨elements, ht, hitems⟩ => ht ▸ .list hv hitems⟩
  cases ht <;> simp_all

/-- Elements that stand for one tree each stand for one sequence of trees. -/
theorem existsUnique_forall₂ {α β : Type} {r : α → β → Prop} {xs : List α}
    (hxs : ∀ x ∈ xs, ∃! y, r x y) : ∃! ys, List.Forall₂ r xs ys := by
  induction xs with
  | nil => exact ⟨[], .nil, fun ys hys => by cases hys; rfl⟩
  | cons x xs ih =>
    rw [List.forall_mem_cons] at hxs
    obtain ⟨⟨y, hy, hunique⟩, hrest⟩ := hxs
    obtain ⟨ys, hys, huniques⟩ := ih hrest
    refine ⟨y :: ys, .cons hy hys, fun zs hzs => ?_⟩
    cases hzs with
    | cons hz hzs => rw [hunique _ hz, huniques _ hzs]

theorem Legible.existsUnique_denotes (hv : m.Legible v) : ∃! t, m.Denotes v t := by
  refine hv.induction fun v c _ hc ih => ?_
  cases c with
  | text s => exact ⟨.text s, .text hc, fun t ht => (Denotes.text_iff hc).1 ht⟩
  | itself => exact ⟨.itself v, .itself hc, fun t ht => (Denotes.itself_iff hc).1 ht⟩
  | list items =>
    obtain ⟨elements, helements, hunique⟩ := existsUnique_forall₂ fun w hw => (ih items rfl w hw).2
    refine ⟨.list elements, .list hc helements, fun t ht => ?_⟩
    obtain ⟨elements', rfl, helements'⟩ := (Denotes.list_iff hc).1 ht
    rw [hunique _ helements']

/-- Two values stand for the same tree. -/
def SameTree (m : Machine) (a b : Value) : Prop := ∃ t, m.Denotes a t ∧ m.Denotes b t

theorem Legible.sameTree_refl (ha : m.Legible a) : m.SameTree a a :=
  let ⟨t, ht, _⟩ := ha.existsUnique_denotes
  ⟨t, ht, ht⟩

theorem SameTree.symm (hab : m.SameTree a b) : m.SameTree b a :=
  let ⟨t, ha, hb⟩ := hab
  ⟨t, hb, ha⟩

theorem SameTree.trans (hb : m.Legible b) (hab : m.SameTree a b) (hbv : m.SameTree b v) :
    m.SameTree a v := by
  obtain ⟨t, ha, hbt⟩ := hab
  obtain ⟨u, hbu, hv⟩ := hbv
  obtain rfl := hb.existsUnique_denotes.unique hbt hbu
  exact ⟨t, ha, hv⟩

/-- Elements have trees in common if the lists have a sequence of trees in common. -/
theorem forall₂_exists_iff {α β : Type} {r : α → β → Prop} {xs ys : List α} :
    List.Forall₂ (fun x y => ∃ z, r x z ∧ r y z) xs ys ↔
      ∃ zs, List.Forall₂ r xs zs ∧ List.Forall₂ r ys zs := by
  constructor
  · intro hxy
    induction hxy with
    | nil => exact ⟨[], .nil, .nil⟩
    | cons hz _ ih =>
      obtain ⟨z, hx, hy⟩ := hz
      obtain ⟨zs, hxs, hys⟩ := ih
      exact ⟨z :: zs, .cons hx hxs, .cons hy hys⟩
  · rintro ⟨zs, hxs, hys⟩
    induction hxs generalizing ys with
    | nil =>
      cases hys
      exact .nil
    | cons hx _ ih =>
      cases hys with
      | cons hy hys => exact .cons ⟨_, hx, hy⟩ (ih hys)

/-- Lists stand for the same tree if they are as long as each other and their elements
    do. -/
theorem sameTree_list_iff (ha : m.content? a = some (.list xs)) (hb : m.content? b = some (.list ys)) :
    m.SameTree a b ↔ xs.length = ys.length ∧ ∀ p ∈ xs.zip ys, m.SameTree p.1 p.2 := by
  have hforall : m.SameTree a b ↔ List.Forall₂ m.SameTree xs ys := by
    refine Iff.trans ⟨fun ⟨t, ht, hu⟩ => ?_, fun ⟨ts, hts, hus⟩ => ?_⟩ forall₂_exists_iff.symm
    · obtain ⟨ts, rfl, hts⟩ := (Denotes.list_iff ha).1 ht
      obtain ⟨us, heq, hus⟩ := (Denotes.list_iff hb).1 hu
      exact ⟨ts, hts, Tree.list.inj heq ▸ hus⟩
    · exact ⟨.list ts, .list ha hts, .list hb hus⟩
  rw [hforall, List.forall₂_iff_zip]
  exact and_congr_right fun _ => ⟨fun h p hp => h hp, fun h x y hp => h (x, y) hp⟩

/-! ## What the machine sees -/

/-- A part that ends by giving what is read of pools. -/
theorem exists_eq_ok_of_toOption {α : Type} {r : Except Failure α} {g : α → Content}
    (hr : r.toOption.map g = some c) : ∃ x, r = .ok x ∧ c = g x := by
  cases r with
  | error e => cases hr
  | ok x => exact ⟨x, rfl, (Option.some.inj hr).symm⟩

theorem outcome_stringValue (hv : m.content? v = some c) :
    m.outcome (stringValue v) = .ok c.text? := by
  cases v with
  | obj id =>
    obtain ⟨o, ho, rfl⟩ := Option.map_eq_some_iff.1 hv
    rw [outcome, stringValue, bind_eq_of_ok (deref_eq_ok ho)]
    cases o.body <;> rfl
  | stringConst ofs =>
    obtain ⟨s, hs, rfl⟩ := exists_eq_ok_of_toOption hv
    rw [outcome, stringValue, bind_eq_of_ok (onPools_ok hs)]
    rfl
  | listConst ofs =>
    obtain ⟨items, -, rfl⟩ := exists_eq_ok_of_toOption hv
    rfl
  | _ => cases hv; rfl

theorem outcome_immutableItems (hv : m.content? v = some c) :
    m.outcome (immutableItems v) = .ok c.items? := by
  cases v with
  | obj id =>
    obtain ⟨o, ho, rfl⟩ := Option.map_eq_some_iff.1 hv
    rw [outcome, immutableItems, bind_eq_of_ok (deref_eq_ok ho)]
    cases o.body <;> rfl
  | stringConst ofs =>
    obtain ⟨s, -, rfl⟩ := exists_eq_ok_of_toOption hv
    rfl
  | listConst ofs =>
    obtain ⟨items, hitems, rfl⟩ := exists_eq_ok_of_toOption hv
    have hread : immutableItems (.listConst ofs) = listItems (.listConst ofs) := rfl
    rw [outcome, hread, listItems, bind_eq_of_ok (onPools_ok hitems)]
    rfl
  | _ => cases hv; rfl

theorem numbers_of?_eq (ha : ∀ bits, a ≠ .float bits) (hb : ∀ bits, b ≠ .float bits) :
    (∃ x y, a = .int x ∧ b = .int y ∧ Numbers.of? a b = some (.whole x y)) ∨
      Numbers.of? a b = none := by
  cases a <;> cases b
  case int.int x y => exact .inl ⟨x, y, rfl, rfl, rfl⟩
  all_goals
    first
    | exact .inr rfl
    | exact absurd rfl (ha _)
    | exact absurd rfl (hb _)

theorem comparison_self (ha : ∀ bits, a ≠ .float bits) : m.comparison (a, a) = .ok (.known true) := by
  rw [comparison, compareOutside]
  rcases numbers_of?_eq ha ha with ⟨x, y, rfl, heq, hnumbers⟩ | hnumbers
  · rw [hnumbers, Value.int.inj heq]
    exact congrArg (fun same => Except.ok (Comparison.known same)) (beq_self_eq_true y)
  · rw [hnumbers]
    dsimp only
    rw [if_pos rfl]
    rfl

/-- Two values that differ are compared by what there is to see of them. -/
theorem comparison_eq (hm : m.pools.constant.Steady) (ha : ∀ bits, a ≠ .float bits)
    (hb : ∀ bits, b ≠ .float bits) (hc : m.content? a = some c) (hd : m.content? b = some d)
    (hab : a ≠ b) : m.comparison (a, b) = .ok (c.compare d) := by
  rcases numbers_of?_eq ha hb with ⟨x, y, rfl, rfl, hnumbers⟩ | hnumbers
  · cases hc
    cases hd
    have hxy : (x == y) = false := beq_false_of_ne fun heq => hab (heq ▸ rfl)
    rw [comparison, compareOutside, hnumbers]
    exact congrArg (fun same => Except.ok (Comparison.known same)) hxy
  obtain ⟨m₁, h₁, hs⟩ := (stringValue_looks hm a).exists_later (.refl m) (outcome_stringValue hc)
  obtain ⟨m₂, h₂, ht⟩ := (stringValue_looks hm b).exists_later h₁ (outcome_stringValue hd)
  obtain ⟨m₃, h₃, hxs⟩ := (immutableItems_looks hm a).exists_later h₂ (outcome_immutableItems hc)
  obtain ⟨m₄, -, hys⟩ := (immutableItems_looks hm b).exists_later h₃ (outcome_immutableItems hd)
  rw [comparison, compareOutside, hnumbers]
  dsimp only
  rw [if_neg hab, outcome, bind_eq_of_ok hs, bind_eq_of_ok ht]
  cases c <;> cases d
  case text.text => rfl
  case list.list xs ys =>
    dsimp only [Content.text?]
    rw [bind_eq_of_ok hxs, bind_eq_of_ok hys]
    dsimp only [Content.items?, Content.compare]
    by_cases hlength : xs.length = ys.length
    · rw [if_pos hlength, if_pos hlength]
      rfl
    · rw [if_neg hlength, if_neg hlength]
      rfl
  all_goals
    dsimp only [Content.text?]
    rw [bind_eq_of_ok hxs, bind_eq_of_ok hys]
    rfl

/-! ## Comparisons of legible values -/

theorem Legible.nests (hv : m.Legible v) (hvw : m.Contains v w) : m.Nests v w := by
  obtain ⟨c, hc⟩ := hv.exists_content
  obtain ⟨items, hitems, hw⟩ := hvw
  rw [outcome_immutableItems hc] at hitems
  cases c <;> cases hitems
  exact ⟨items, hc, hw⟩

theorem Legible.not_cyclic (hv : m.Legible v) : ¬m.Cyclic v := by
  refine hv.induction fun v c hv hc ih hcyclic => ?_
  obtain ⟨w, hvw, hw⟩ := exists_step_of_circle hcyclic
  obtain ⟨items, hitems, hmem⟩ := hv.nests hvw
  exact (ih items (Option.some.inj (hc.symm.trans hitems)) w hmem).2 hw

/-- A comparison that ends compares the elements as the machine compares values. -/
theorem outcome_valuesEqual_eq (hm : m.pools.constant.Steady) (hends : ¬m.Hangs (valuesEqual a b)) :
    m.outcome (valuesEqual a b) =
      m.comparison (a, b) >>= Comparison.settle fun p => m.outcome (valuesEqual p.1 p.2) := by
  obtain ⟨depth, hdepth⟩ : ∃ depth, m.comparisonDepth = depth + 1 := ⟨_, rfl⟩
  rw [Hangs, outcome_valuesEqual, hdepth, equalTo_succ hm] at hends
  rw [outcome_valuesEqual, hdepth, equalTo_succ hm]
  cases hc : m.comparison (a, b) with
  | error e => rfl
  | ok c =>
    cases c with
    | known same => rfl
    | inside pairs =>
      rw [hc] at hends
      refine (allM_congr_of_ne (fun p hp => ?_) hends).symm
      rw [outcome_valuesEqual, hdepth]
      exact equalTo_succ_of_ne hm hp

/-- Checks that all succeed find out whether all elements pass. -/
theorem exists_allM_eq_ok {ε α : Type} {f : α → Except ε Bool} {P : α → Prop} {xs : List α}
    (hxs : ∀ x ∈ xs, ∃ passed, f x = .ok passed ∧ (passed = true ↔ P x)) :
    ∃ passed, xs.allM f = .ok passed ∧ (passed = true ↔ ∀ x ∈ xs, P x) := by
  induction xs with
  | nil => exact ⟨true, rfl, by simp⟩
  | cons x xs ih =>
    rw [List.forall_mem_cons] at hxs
    obtain ⟨⟨passed, hx, hpassed⟩, hrest⟩ := hxs
    rw [List.allM, hx]
    cases passed with
    | false => exact ⟨false, rfl, by simpa using fun hP => absurd (hpassed.2 hP) (by simp)⟩
    | true =>
      obtain ⟨passed, hall, hpassed'⟩ := ih hrest
      refine ⟨passed, hall, ?_⟩
      rw [hpassed', List.forall_mem_cons, ← hpassed]
      simp

/-- The machine's comparison of two legible values succeeds, and finds out whether they
    stand for the same tree. -/
theorem Legible.exists_valuesEqual (hm : m.pools.constant.Steady) (ha : m.Legible a) :
    ∀ b, m.Legible b → ∃ same, m.outcome (valuesEqual a b) = .ok same ∧
      (same = true ↔ m.SameTree a b) := by
  refine ha.induction fun a c ha hc ih b hb => ?_
  obtain ⟨d, hd⟩ := hb.exists_content
  have hends : ¬m.Hangs (valuesEqual a b) := fun hhangs =>
    ha.not_cyclic (((hangs_valuesEqual_iff hm a b).1 hhangs).cyclic hm).1
  rw [outcome_valuesEqual_eq hm hends]
  by_cases hab : a = b
  · subst hab
    rw [comparison_self ha.ne_float]
    exact ⟨true, rfl, by simpa using ha.sameTree_refl⟩
  rw [comparison_eq hm ha.ne_float hb.ne_float hc hd hab]
  cases c <;> cases d
  case text.text s t =>
    exact ⟨s == t, rfl, by simp [SameTree, Denotes.text_iff hc, Denotes.text_iff hd]⟩
  case list.list xs ys =>
    by_cases hlength : xs.length = ys.length
    · have hpairs : ∀ p ∈ xs.zip ys, ∃ same, m.outcome (valuesEqual p.1 p.2) = .ok same ∧
          (same = true ↔ m.SameTree p.1 p.2) := fun p hp =>
        (ih xs rfl p.1 (List.of_mem_zip hp).1).2 p.2 (hb.of_nests ⟨ys, hd, (List.of_mem_zip hp).2⟩)
      obtain ⟨same, hsame, hiff⟩ := exists_allM_eq_ok hpairs
      refine ⟨same, ?_, ?_⟩
      · rw [Content.compare, if_pos hlength]
        exact hsame
      · rw [hiff, sameTree_list_iff hc hd, and_iff_right hlength]
    · refine ⟨false, ?_, ?_⟩
      · rw [Content.compare, if_neg hlength]
        rfl
      · simp [sameTree_list_iff hc hd, hlength]
  case itself.itself =>
    exact ⟨false, rfl, by simp [SameTree, Denotes.itself_iff hc, Denotes.itself_iff hd, hab]⟩
  -- What can be seen of the two is not of one kind.
  all_goals
    refine ⟨false, rfl, ?_⟩
    simp [SameTree, Denotes.text_iff, Denotes.list_iff, Denotes.itself_iff, hc, hd]

/-- The machine's equality is that of trees. Each legible value stands for one tree, and
    to compare two of them succeeds and finds out whether they stand for the same one.
    So equality is an equivalence, and what a value is compared with does not see
    whether a text or a list, or some of its elements, are constants or objects. -/
theorem valuesEqual_iff_same_tree (hm : m.pools.constant.Steady) :
    (∀ v, m.Legible v → ∃! t, m.Denotes v t) ∧
      (∀ a b, m.Legible a → m.Legible b → ∃ same m', valuesEqual a b m = .ok same m' ∧ m.Later m' ∧
        (same = true ↔ ∃ t, m.Denotes a t ∧ m.Denotes b t)) ∧
      Equivalence (fun a b : {v // m.Legible v} => m.outcome (valuesEqual a b) = .ok true) ∧
      ∀ a a' b b', m.Legible a → m.Legible a' → m.Legible b → m.Legible b' →
        (∃ t, m.Denotes a t ∧ m.Denotes a' t) → (∃ t, m.Denotes b t ∧ m.Denotes b' t) →
          m.outcome (valuesEqual a b) = m.outcome (valuesEqual a' b') := by
  have hequal {a b : Value} (ha : m.Legible a) (hb : m.Legible b) :
      m.outcome (valuesEqual a b) = .ok true ↔ m.SameTree a b := by
    obtain ⟨same, hsame, hiff⟩ := ha.exists_valuesEqual hm b hb
    rw [hsame, ← hiff, Except.ok.injEq]
  refine ⟨fun v hv => hv.existsUnique_denotes, fun a b ha hb => ?_, ⟨?_, ?_, ?_⟩, ?_⟩
  · obtain ⟨same, hsame, hiff⟩ := ha.exists_valuesEqual hm b hb
    obtain ⟨m', hm', heq⟩ := (valuesEqual_looks hm a b).exists_later (.refl m) hsame
    exact ⟨same, m', heq, hm', hiff⟩
  · exact fun a => (hequal a.2 a.2).2 a.2.sameTree_refl
  · exact fun {a b} hab => (hequal b.2 a.2).2 ((hequal a.2 b.2).1 hab).symm
  · exact fun {a b c} hab hbc =>
      (hequal a.2 c.2).2 (((hequal a.2 b.2).1 hab).trans b.2 ((hequal b.2 c.2).1 hbc))
  · intro a a' b b' ha ha' hb hb' haa' hbb'
    obtain ⟨same, hsame, hiff⟩ := ha.exists_valuesEqual hm b hb
    obtain ⟨same', hsame', hiff'⟩ := ha'.exists_valuesEqual hm b' hb'
    have htree : m.SameTree a b ↔ m.SameTree a' b' :=
      ⟨fun hab => (SameTree.symm haa').trans ha (hab.trans hb hbb'),
        fun hab => SameTree.trans ha' haa' (hab.trans hb' (SameTree.symm hbb'))⟩
    rw [hsame, hsame', Bool.eq_iff_iff.2 (hiff.trans (htree.trans hiff'.symm))]

/-- An image with a text and a list that has it as an element, both as constants and as
    objects. -/
def doubles : Bytes :=
  ImageDraft.encode {
    metaclasses := #[("string", []), ("list", [])]
    code := ([Instr.retNil].foldl Assembler.emit (Assembler.method {})).finish.toArray
    constants := (ObjectData.text "ab" ++ ObjectData.items [.stringConst 0, .int 3]).toArray
    objects := #[⟨1, 0, ObjectData.text "ab"⟩, ⟨2, 1, ObjectData.items [.obj (.ofImage 1), .int 3]⟩]
    entry? := some 0 }

theorem valuesEqual_iff_same_tree_doubles : ∃ m, load doubles {} {} = .ok m ∧
    m.pools.constant.Steady ∧ m.Legible (.listConst 4) ∧ m.Legible (.obj (.ofImage 2)) ∧
    ∃ m', valuesEqual (.listConst 4) (.obj (.ofImage 2)) m = .ok true m' := by
  have hrun : (load doubles {} {}).toOption.any (fun m => m.pools.constant.isPaged == false &&
      decide (m.content? (.stringConst 0) = some (.text "ab")) &&
      decide (m.content? (.obj (.ofImage 1)) = some (.text "ab")) &&
      decide (m.content? (.listConst 4) = some (.list [.stringConst 0, .int 3])) &&
      decide (m.content? (.obj (.ofImage 2)) = some (.list [.obj (.ofImage 1), .int 3]))) = true := by
    decide +kernel
  obtain ⟨m, hload, hrun⟩ := exists_load_of_any hrun
  simp only [Bool.and_eq_true, decide_eq_true_eq, beq_iff_eq] at hrun
  obtain ⟨⟨⟨⟨hpaged, htext⟩, htext'⟩, hlist⟩, hlist'⟩ := hrun
  have hm := Pool.steady_of_isPaged hpaged
  have hnumber : m.Legible (.int 3) := .of_items (c := .itself) rfl nofun nofun
  have hconst : m.Legible (.listConst 4) :=
    .of_items hlist nofun (by simpa [Content.items?] using ⟨.of_items htext nofun nofun, hnumber⟩)
  have hobject : m.Legible (.obj (.ofImage 2)) :=
    .of_items hlist' nofun (by simpa [Content.items?] using ⟨.of_items htext' nofun nofun, hnumber⟩)
  obtain ⟨-, hequal, -⟩ := valuesEqual_iff_same_tree hm
  obtain ⟨same, m', heq, -, hiff⟩ := hequal _ _ hconst hobject
  refine ⟨m, hload, hm, hconst, hobject, m', ?_⟩
  rwa [hiff.2 ⟨.list [.text "ab", .itself (.int 3)],
    .list hlist (.cons (.text htext) (.cons (.itself rfl) .nil)),
    .list hlist' (.cons (.text htext') (.cons (.itself rfl) .nil))⟩] at heq

end Machine

end StoryMachine
