import Mathlib
import StoryMachine.Image.Draft

/-!
# Drafts that calls add to

A draft is put together by calls, one after the other. It has what the calls have given, in
their order, and the data of a call is in its pool at the offset that the call gave back.

* `ImageDraft.Call`, `ImageDraft.perform`: what a call adds;
* `ImageDraft.after`, `ImageDraft.run`: a draft that calls have been added to;
* `ImageDraft.toList_after`: tables that calls only add to;
* `ImageDraft.exists_toList_place`, `ImageDraft.exists_poolBytes_run`: where data is put.
-/

namespace StoryMachine

namespace ImageDraft

/-- A call that adds to a draft. -/
inductive Call where
  /-- Sets the format version. -/
  | version (v : UInt16)
  /-- Sets the mask of pool pages. -/
  | mask (mask : UInt8)
  /-- Adds a metaclass with its properties. -/
  | metaclass (dep : String) (props : List PropId)
  /-- Adds a function set. -/
  | functionSet (dep : String)
  /-- Adds code. -/
  | code (bs : Bytes)
  /-- Adds a constant string. -/
  | string (s : String)
  /-- Adds a constant list. -/
  | list (vs : List Value)
  /-- Adds an object. -/
  | object (id : UInt32) (metaclass : MetaclassId) (data : Bytes)
  /-- Exports a value under a name. -/
  | symbol (name : String) (v : Value)
  /-- Sets the code offset at which the program starts. -/
  | entryPoint (ofs : UInt32)
deriving Repr

namespace Call

/-- The metaclass that a call adds. -/
def metaclass? : Call → Option (String × List PropId)
  | metaclass dep props => some (dep, props)
  | _ => none

/-- The function set that a call adds. -/
def functionSet? : Call → Option String
  | functionSet dep => some dep
  | _ => none

/-- The object that a call adds. -/
def object? : Call → Option DraftObject
  | object id m data => some ⟨id, m, data⟩
  | _ => none

/-- The name and the value that a call exports. -/
def symbol? : Call → Option (String × Value)
  | symbol name v => some (name, v)
  | _ => none

/-- The start of the program that a call sets. -/
def entryPoint? : Call → Option UInt32
  | entryPoint ofs => some ofs
  | _ => none

/-- The pool that a call adds data to, and the data. -/
def chunk? : Call → Option (UInt16 × Bytes)
  | code bs => some (codePool, bs)
  | string s =>
    some (constantPool, Bytes.u16 (.ofNat (Bytes.ofText s).length) ++ Bytes.ofText s)
  | list vs => some (constantPool, ObjectData.items vs)
  | _ => none

end Call

/-- What a call gives back, which is the offset of the data that it adds, and the draft after
    it. -/
def perform (d : ImageDraft) : Call → Option UInt32 × ImageDraft
  | .version v => (none, { d with version := v })
  | .mask mask => (none, { d with mask })
  | .metaclass dep props => (none, (d.addMetaclass dep props).2)
  | .functionSet dep => (none, (d.addFunctionSet dep).2)
  | .code bs => (some (d.addCode bs).1, (d.addCode bs).2)
  | .string s => (some (d.addString s).1, (d.addString s).2)
  | .list vs => (some (d.addList vs).1, (d.addList vs).2)
  | .object id metaclass data => (none, d.addObject id metaclass data)
  | .symbol name v => (none, d.addSymbol name v)
  | .entryPoint ofs => (none, { d with entry? := some ofs })

/-- The draft after calls. -/
def after (d : ImageDraft) (calls : List Call) : ImageDraft :=
  calls.foldl (fun d c => (d.perform c).2) d

/-- A draft whose page size is set, and that calls have been added to. -/
def run (pageSize : UInt32) (calls : List Call) : ImageDraft :=
  after (({} : ImageDraft).setPageSize pageSize) calls

/-- The bytes of a pool. -/
def poolBytes (d : ImageDraft) (pool : UInt16) : Bytes :=
  if pool = codePool then d.code.toList else d.constants.toList

variable {d : ImageDraft} {c : Call} {calls : List Call} {pool : UInt16} {bs : Bytes}

/-! ## What calls add -/

theorem after_append (d : ImageDraft) (before calls : List Call) :
    d.after (before ++ calls) = (d.after before).after calls := List.foldl_append

/-- A table that each call only adds to is what the calls have given, in their order. -/
theorem toList_after {α : Type} (table : ImageDraft → Array α) (given : Call → Option α)
    (htable : ∀ d c, (table (perform d c).2).toList = (table d).toList ++ (given c).toList)
    (d : ImageDraft) (calls : List Call) :
    (table (d.after calls)).toList = (table d).toList ++ calls.filterMap given := by
  induction calls generalizing d with
  | nil => exact (List.append_nil _).symm
  | cons c calls ih =>
    change (table ((d.perform c).2.after calls)).toList = _
    rw [ih, htable, List.append_assoc]
    refine congrArg _ ?_
    cases hc : given c with
    | none => rw [List.filterMap_cons_none hc]; rfl
    | some a => rw [List.filterMap_cons_some hc]; rfl

theorem metaclasses_run (n : UInt32) (calls : List Call) :
    (run n calls).metaclasses.toList = calls.filterMap Call.metaclass? := by
  refine toList_after ImageDraft.metaclasses Call.metaclass? (fun d c => ?_) _ calls
  cases c <;> first | exact Array.toList_push | exact (List.append_nil _).symm

theorem functionSets_run (n : UInt32) (calls : List Call) :
    (run n calls).functionSets.toList = calls.filterMap Call.functionSet? := by
  refine toList_after ImageDraft.functionSets Call.functionSet? (fun d c => ?_) _ calls
  cases c <;> first | exact Array.toList_push | exact (List.append_nil _).symm

theorem objects_run (n : UInt32) (calls : List Call) :
    (run n calls).objects.toList = calls.filterMap Call.object? := by
  refine toList_after ImageDraft.objects Call.object? (fun d c => ?_) _ calls
  cases c <;> first | exact Array.toList_push | exact (List.append_nil _).symm

theorem symbols_run (n : UInt32) (calls : List Call) :
    (run n calls).symbols.toList = calls.filterMap Call.symbol? := by
  refine toList_after ImageDraft.symbols Call.symbol? (fun d c => ?_) _ calls
  cases c <;> first | exact Array.toList_push | exact (List.append_nil _).symm

/-- The program starts where the last call says. -/
theorem entry?_run (n : UInt32) (calls : List Call) :
    ImageDraft.entry? (run n calls) = (calls.filterMap Call.entryPoint?).getLast? := by
  have hafter (d : ImageDraft) :
      ImageDraft.entry? (d.after calls) = (calls.filterMap Call.entryPoint?).getLast?.or d.entry? := by
    induction calls generalizing d with
    | nil => rfl
    | cons c calls ih =>
      change ImageDraft.entry? ((d.perform c).2.after calls) = _
      rw [ih]
      cases hc : c.entryPoint? with
      | none =>
        rw [List.filterMap_cons_none hc]
        cases c <;> first | rfl | cases hc
      | some ofs =>
        -- A call that follows may set it again.
        rw [List.filterMap_cons_some hc, List.getLast?_cons]
        cases c <;> cases hc
        cases (calls.filterMap Call.entryPoint?).getLast? <;> rfl
  exact (hafter _).trans Option.or_none

/-- The page size stays as it was set, and no block is added as it is. -/
theorem frame_after (d : ImageDraft) (calls : List Call) :
    (d.after calls).pageSize = d.pageSize ∧ (d.after calls).extra = d.extra := by
  induction calls generalizing d with
  | nil => exact ⟨rfl, rfl⟩
  | cons c calls ih =>
    have hframe : (d.perform c).2.pageSize = d.pageSize ∧ (d.perform c).2.extra = d.extra := by
      cases c <;> exact ⟨rfl, rfl⟩
    obtain ⟨hsize, hextra⟩ := ih (d.perform c).2
    exact ⟨hsize.trans hframe.1, hextra.trans hframe.2⟩

theorem extra_run (n : UInt32) (calls : List Call) : (run n calls).extra = #[] :=
  (frame_after _ calls).2

theorem pageSize_run (n : UInt32) (calls before : List Call) :
    (run n calls).pageSize = (run n before).pageSize :=
  (frame_after _ calls).1.trans (frame_after _ before).1.symm

theorem pageSize_run_pos (n : UInt32) (calls : List Call) :
    0 < (run n calls).pageSize.toNat := by
  have hsize : (run n calls).pageSize = if n = 0 then 1 else n := (frame_after _ calls).1
  rw [hsize, Nat.pos_iff_ne_zero]
  intro hzero
  split at hzero
  · cases hzero
  · next hn => exact hn (UInt32.toNat_inj.1 hzero)

/-! ## Where data is put -/

/-- Data is put at the end of a pool after some filler, and on one page if it is not longer. -/
theorem exists_toList_place {size : Nat} (hsize : 0 < size) (pool : Array UInt8) (bs : Bytes) :
    ∃ filler : Bytes, (place pool size bs).2.toList = pool.toList ++ filler ++ bs ∧
      (place pool size bs).1 = .ofNat (pool.toList ++ filler).length ∧
      (bs.length ≤ size → (pool.toList ++ filler).length % size + bs.length ≤ size) := by
  have hmod := Nat.mod_lt pool.size hsize
  rw [place]
  dsimp only
  split
  · next hc =>
    -- The rest of the last page is filled.
    refine ⟨List.replicate (size - pool.size % size) 0, ?_, ?_, fun hle => ?_⟩
    · simp
    · simp
    · have hlength : (pool.toList ++ List.replicate (size - pool.size % size) 0).length =
          pool.size / size * size + size := by
        rw [List.length_append, Array.length_toList, List.length_replicate]
        have hdiv := Nat.div_add_mod' pool.size size
        omega
      rw [hlength, ← Nat.succ_mul, Nat.mul_mod_left]
      omega
  · next hc =>
    refine ⟨[], ?_, ?_, fun hle => ?_⟩
    · simp
    · simp
    · rw [List.append_nil, Array.length_toList]
      by_cases hused : pool.size % size = 0
      · omega
      · by_contra hover
        exact hc ⟨hused, hle, by omega⟩

/-- Calls add data to one of two pools. -/
theorem Call.eq_of_chunk? (hc : c.chunk? = some (pool, bs)) :
    pool = codePool ∨ pool = constantPool := by
  cases c with
  | code bs => exact .inl (Prod.mk.inj (Option.some.inj hc)).1.symm
  | string s => exact .inr (Prod.mk.inj (Option.some.inj hc)).1.symm
  | list vs => exact .inr (Prod.mk.inj (Option.some.inj hc)).1.symm
  | _ => cases hc

/-- A call that adds data puts it into its pool. -/
theorem exists_poolBytes_perform (hd : 0 < d.pageSize.toNat) (hc : c.chunk? = some (pool, bs)) :
    ∃ filler : Bytes, (d.perform c).2.poolBytes pool = d.poolBytes pool ++ filler ++ bs ∧
      (d.perform c).1 = some (.ofNat (d.poolBytes pool ++ filler).length) ∧
      (bs.length ≤ d.pageSize.toNat →
        (d.poolBytes pool ++ filler).length % d.pageSize.toNat + bs.length ≤
          d.pageSize.toNat) := by
  have hcode := exists_toList_place hd d.code bs
  have hconstants := exists_toList_place hd d.constants bs
  cases c with
  | code bs =>
    obtain ⟨rfl, rfl⟩ := Prod.mk.inj (Option.some.inj hc)
    obtain ⟨filler, htoList, hofs, hpage⟩ := hcode
    exact ⟨filler, htoList, congrArg some hofs, hpage⟩
  | string s | list vs =>
    obtain ⟨rfl, rfl⟩ := Prod.mk.inj (Option.some.inj hc)
    obtain ⟨filler, htoList, hofs, hpage⟩ := hconstants
    exact ⟨filler, htoList, congrArg some hofs, hpage⟩
  | _ => cases hc

/-- A call only adds to the pools. -/
theorem prefix_poolBytes_perform (hd : 0 < d.pageSize.toNat) (c : Call) (pool : UInt16) :
    d.poolBytes pool <+: (d.perform c).2.poolBytes pool := by
  have hplace (pool : Array UInt8) (bs : Bytes) :
      pool.toList <+: (place pool d.pageSize.toNat bs).2.toList := by
    obtain ⟨filler, htoList, -, -⟩ := exists_toList_place hd pool bs
    rw [htoList, List.append_assoc]
    exact List.prefix_append _ _
  unfold poolBytes
  split
  · cases c <;> first | exact hplace _ _ | exact List.prefix_rfl
  · cases c <;> first | exact hplace _ _ | exact List.prefix_rfl

theorem prefix_poolBytes_after (hd : 0 < d.pageSize.toNat) (calls : List Call) (pool : UInt16) :
    d.poolBytes pool <+: (d.after calls).poolBytes pool := by
  induction calls generalizing d with
  | nil => exact List.prefix_rfl
  | cons c calls ih =>
    have hsize : (d.perform c).2.pageSize = d.pageSize := (frame_after d [c]).1
    exact (prefix_poolBytes_perform hd c pool).trans (ih (hsize ▸ hd))

/-- Whatever is called later, the data of a call stays where it was put. -/
theorem exists_poolBytes_run (n : UInt32) {before calls : List Call}
    (hc : c.chunk? = some (pool, bs)) : ∃ front back : Bytes,
      (run n (before ++ c :: calls)).poolBytes pool = front ++ bs ++ back ∧
      ((run n before).perform c).1 = some (.ofNat front.length) ∧
      (bs.length ≤ (run n before).pageSize.toNat →
        front.length % (run n before).pageSize.toNat + bs.length ≤
          (run n before).pageSize.toNat) := by
  obtain ⟨filler, hbytes, hofs, hpage⟩ :=
    exists_poolBytes_perform (pageSize_run_pos n before) hc
  have hsize : ((run n before).perform c).2.pageSize = (run n before).pageSize :=
    (frame_after (run n before) [c]).1
  have hd : 0 < ((run n before).perform c).2.pageSize.toNat :=
    hsize ▸ pageSize_run_pos n before
  -- The calls that follow add to what is there.
  obtain ⟨back, hback⟩ := prefix_poolBytes_after hd calls pool
  refine ⟨(run n before).poolBytes pool ++ filler, back, ?_, hofs, hpage⟩
  rw [← hbytes, hback, run, after_append]
  rfl

end ImageDraft

end StoryMachine
