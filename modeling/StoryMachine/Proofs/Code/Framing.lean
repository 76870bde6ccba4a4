import StoryMachine.Proofs.Code.Listing

/-!
# Methods as they are assembled

The bytes of a method are its header, the instructions that were added and, if there are protected
ranges, a table of them. The header is written first and says in the end where the table is.

* `MethodHeader.reads_encode`, `ExceptionEntry.reads_encode`: headers and entries are read back;
* `ExceptionTable.encodePadded`, `ExceptionTable.parse_encodePadded`: tables whose entries are
  longer than their fields;
* `Protection`: a range that is to be protected;
* `Assembly.MethodCall`, `Assembly.method`: the calls for a method;
* `Assembly.method_eq`: ranges and instructions do not get in the way of each other;
* `Assembly.finish_method`: the parts of a method.
-/

namespace StoryMachine

/-! ## Headers -/

namespace MethodHeader

variable {h : MethodHeader}

/-- The flag of the first byte leaves the count of arguments as it is, if that has seven bits. -/
theorem argc_of_first {argc : UInt8} (hargc : argc < 128) (varargs : Bool) :
    (argc ||| if varargs then varargsFlag else 0) &&& ~~~varargsFlag = argc ∧
      ((argc ||| if varargs then varargsFlag else 0) &&& varargsFlag != 0) = varargs := by
  have hall : ∀ n : Fin 128, ∀ varargs : Bool,
      (UInt8.ofNat n ||| if varargs then varargsFlag else 0) &&& ~~~varargsFlag = UInt8.ofNat n ∧
        ((UInt8.ofNat n ||| if varargs then varargsFlag else 0) &&& varargsFlag != 0) =
          varargs := by
    decide +kernel
  have hfirst := hall ⟨argc.toNat, hargc⟩ varargs
  rwa [UInt8.ofNat_toNat] at hfirst

/-- A header is read back. -/
theorem reads_encode (hargc : h.argc < 128) : reader.Reads h.encode h := by
  obtain ⟨hcount, hflag⟩ := argc_of_first hargc h.varargs
  have hread : reader.Reads h.encode { h with
      argc := (h.argc ||| if h.varargs then varargsFlag else 0) &&& ~~~varargsFlag
      varargs := (h.argc ||| if h.varargs then varargsFlag else 0) &&& varargsFlag != 0 } := by
    rw [encode, List.append_assoc, List.append_assoc]
    exact (Reader.reads_u8 _).bind <| (Reader.reads_u8 _).bind <| (Reader.reads_u16 _).bind <|
      (Reader.reads_u16 _).bind <| (Reader.reads_u16 _).bind <| (Reader.reads_u16 _).map _
  rwa [hcount, hflag] at hread

theorem length_encode (h : MethodHeader) : h.encode.length = size := rfl

theorem parse_encode_append (hargc : h.argc < 128) (rest : Bytes) :
    parse (h.encode ++ rest) = .ok h := by
  rw [parse, reads_encode hargc rest]

end MethodHeader

/-! ## Tables of protected ranges -/

namespace ExceptionEntry

/-- An entry is read back. -/
theorem reads_encode (e : ExceptionEntry) : reader.Reads e.encode e := by
  rw [encode, List.append_assoc, List.append_assoc]
  exact (Reader.reads_u16 _).bind <| (Reader.reads_u16 _).bind <| (Reader.reads_u32 _).bind <|
    (Reader.reads_u16 _).map _

theorem length_encode (e : ExceptionEntry) : e.encode.length = size := rfl

end ExceptionEntry

namespace ExceptionTable

/-- The bytes of a table when other bytes come after the fields of each entry. -/
def encodePadded (table : List (ExceptionEntry × Bytes)) : Bytes :=
  Bytes.u16 (UInt16.ofNat table.length) ++ table.flatMap fun (e, pad) => e.encode ++ pad

variable {table : List (ExceptionEntry × Bytes)} {width : Nat}

theorem encode_eq (table : List ExceptionEntry) :
    encode table = encodePadded (table.map (·, [])) := by
  simp [encode, encodePadded, List.flatMap_map]

/-- The induction is on the entries, each of which is where the one before it ends. -/
theorem entries_padded (hpads : ∀ x ∈ table, ExceptionEntry.size + x.2.length = width)
    (offset : Nat) (rest : Bytes) :
    entries width table.length offset (table.flatMap (fun (e, pad) => e.encode ++ pad) ++ rest) =
      .ok (table.map Prod.fst) := by
  induction table generalizing offset with
  | nil => rfl
  | cons x table ih =>
    obtain ⟨e, pad⟩ := x
    obtain ⟨hpad, hpads⟩ := List.forall_mem_cons.1 hpads
    have hlength : (e.encode ++ pad).length = width := by
      rw [List.length_append, e.length_encode, hpad]
    rw [List.flatMap_cons, List.append_assoc, List.length_cons, entries]
    have hread := e.reads_encode (pad ++ (table.flatMap (fun (e, pad) => e.encode ++ pad) ++ rest))
    rw [← List.append_assoc] at hread
    rw [hread]
    dsimp only
    rw [← hlength, List.drop_left, hlength, ih hpads]
    rfl

/-- A table is read back, however much room its entries are given. -/
theorem parse_encodePadded (hcount : table.length ≤ 65535) (hwidth : ExceptionEntry.size ≤ width)
    (hpads : ∀ x ∈ table, ExceptionEntry.size + x.2.length = width) (rest : Bytes) :
    parse (encodePadded table ++ rest) width = .ok (table.map Prod.fst) := by
  rw [parse, encodePadded, List.append_assoc, Reader.reads_u16]
  dsimp only
  rw [max_eq_left hwidth, UInt16.toNat_ofNat_of_lt' (Nat.lt_succ_of_le hcount)]
  exact entries_padded hpads 2 rest

end ExceptionTable

/-! ## The calls for a method -/

/-- A range that is to be protected by a handler, with the class of what is caught. -/
structure Protection where
  /-- Where the range starts. -/
  start : Nat
  /-- Where it ends. -/
  stop : Nat
  /-- The class whose instances are caught; zero catches all. -/
  class_ : UInt32
  /-- Where the handler starts. -/
  handler : Nat
deriving DecidableEq, Repr

/-- The range that an entry protects. -/
def ExceptionEntry.protection (e : ExceptionEntry) : Protection :=
  ⟨e.start.toNat, e.stop.toNat, e.class_, e.handler.toNat⟩

namespace Protection

/-- The entry for a range. -/
def entry (p : Protection) : ExceptionEntry :=
  ⟨.ofNat p.start, .ofNat p.stop, p.class_, .ofNat p.handler⟩

/-- The positions have sixteen bits. -/
def Fits (p : Protection) : Prop := p.start < 65536 ∧ p.stop < 65536 ∧ p.handler < 65536

instance (p : Protection) : Decidable p.Fits := inferInstanceAs (Decidable (_ ∧ _))

theorem Fits.protection_entry {p : Protection} (hp : p.Fits) : p.entry.protection = p := by
  obtain ⟨hstart, hstop, hhandler⟩ := hp
  rw [entry, ExceptionEntry.protection, UInt16.toNat_ofNat_of_lt' hstart,
    UInt16.toNat_ofNat_of_lt' hstop, UInt16.toNat_ofNat_of_lt' hhandler]

end Protection

namespace Assembly

/-- A use of an assembler for a method. -/
inductive MethodCall where
  /-- Adds an instruction or binds a label. -/
  | code (c : Call)
  /-- Protects a range. -/
  | protect (p : Protection)
deriving DecidableEq

/-- The use as one of code. -/
def MethodCall.call? : MethodCall → Option Call
  | code c => some c
  | protect _ => none

/-- The range that the call protects. -/
def MethodCall.protection? : MethodCall → Option Protection
  | code _ => none
  | protect p => some p

/-- What is there after a call for a method. -/
def performMethod (a : Assembly) : MethodCall → Assembly
  | .code c => a.perform c
  | .protect p => { a with code := a.code.addHandler p.start p.stop p.class_ p.handler }

/-- A method without instructions. -/
def header (h : MethodHeader) : Assembly := { code := .method h }

/-- A method after calls. -/
def method (h : MethodHeader) (calls : List MethodCall) : Assembly :=
  calls.foldl performMethod (header h)

/-- The same code with other protected ranges. -/
def withHandlers (a : Assembly) (handlers : List ExceptionEntry) : Assembly :=
  { a with code := { a.code with handlers } }

variable {h : MethodHeader} {calls : List MethodCall}

theorem perform_withHandlers (a : Assembly) (handlers : List ExceptionEntry) (c : Call) :
    (a.withHandlers handlers).perform c = (a.perform c).withHandlers handlers := by
  cases c with
  | bind n =>
    cases hl : a.labels[n]? with
    | none =>
      have hl' : (a.withHandlers handlers).labels[n]? = none := hl
      rw [perform, hl', perform, hl]
    | some l =>
      have hl' : (a.withHandlers handlers).labels[n]? = some l := hl
      rw [perform, hl', perform, hl]
      rfl
  | _ => rfl

theorem foldl_performMethod (a : Assembly) (handlers : List ExceptionEntry)
    (calls : List MethodCall) : calls.foldl performMethod (a.withHandlers handlers) =
      (a.run (calls.filterMap MethodCall.call?)).withHandlers
        (handlers ++ (calls.filterMap MethodCall.protection?).map Protection.entry) := by
  induction calls generalizing a handlers with
  | nil => exact congrArg a.withHandlers (List.append_nil handlers).symm
  | cons c calls ih =>
    rw [List.foldl_cons]
    cases c with
    | code c =>
      rw [performMethod, perform_withHandlers]
      exact ih _ _
    | protect p =>
      have hprotect : (a.withHandlers handlers).performMethod (.protect p) =
          a.withHandlers (handlers ++ [p.entry]) := rfl
      rw [hprotect, ih, List.append_assoc]
      rfl

/-- Code is added as if no range was protected, and ranges are as if no code was added. -/
theorem method_eq (h : MethodHeader) (calls : List MethodCall) : method h calls =
    ((header h).run (calls.filterMap MethodCall.call?)).withHandlers
      ((calls.filterMap MethodCall.protection?).map Protection.entry) :=
  foldl_performMethod (header h) [] calls

theorem spaced_header (h : MethodHeader) : (header h).Spaced :=
  ⟨fun _ hl => absurd hl List.not_mem_nil, .nil⟩

/-- The instructions that the calls for a method ask for, each with its place. -/
def methodLines (h : MethodHeader) (calls : List MethodCall) : List (Nat × Instr) :=
  (header h).lines (calls.filterMap MethodCall.call?)

/-- The ranges that the calls for a method protect, in the order of the calls. -/
def protections (calls : List MethodCall) : List Protection :=
  calls.filterMap MethodCall.protection?

/-- The entries of the table of a method. -/
def entries (calls : List MethodCall) : List ExceptionEntry :=
  (protections calls).map Protection.entry

/-- The bytes of the instructions of a method. -/
def methodBytes (h : MethodHeader) (calls : List MethodCall) : Bytes :=
  (methodLines h calls).flatMap fun line => Assembler.encode line.2

/-- The instructions come after the header that was written first, which no call changes. -/
theorem toList_method (h : MethodHeader) (calls : List MethodCall) :
    (method h calls).code.code.toList = h.encode ++ methodBytes h calls := by
  rw [method_eq]
  change ((header h).run (calls.filterMap MethodCall.call?)).code.code.toList = _
  have hdrop := drop_run (spaced_header h) (calls.filterMap MethodCall.call?)
  have hheader : ∀ i < h.encode.length,
      ((header h).run (calls.filterMap MethodCall.call?)).code.code.toList[0 + i]? =
        h.encode[i]? := by
    intro i hi
    rw [Nat.zero_add, Array.getElem?_toList,
      getElem?_run (a := header h) hi fun l hl => absurd hl List.not_mem_nil]
    exact List.getElem?_toArray
  have hfront := drop_eq_append hheader
  rw [List.drop_zero, Nat.zero_add] at hfront
  rw [hfront]
  exact congrArg (h.encode ++ ·) hdrop

theorem offset_method (h : MethodHeader) (calls : List MethodCall) :
    (method h calls).code.offset = MethodHeader.size + (methodBytes h calls).length := by
  rw [Assembler.offset, ← Array.length_toList, toList_method, List.length_append, h.length_encode]

/-- The instructions are listed with the places that the assembler gave. -/
theorem listing_methodBytes (h : MethodHeader) (calls : List MethodCall) :
    Listing.ofBytesAt MethodHeader.size (methodBytes h calls) = ⟨methodLines h calls, none⟩ := by
  have hlisting := listing_drop (spaced_header h) (calls.filterMap MethodCall.call?)
  rwa [drop_run (spaced_header h)] at hlisting

theorem header?_method (h : MethodHeader) (calls : List MethodCall) :
    (method h calls).code.header? = some h := by
  rw [method_eq]
  exact header?_run (header h) _

theorem handlers_method (h : MethodHeader) (calls : List MethodCall) :
    (method h calls).code.handlers = entries calls := by
  rw [method_eq]
  rfl

/-- A method without protected ranges is its header and its instructions. -/
theorem finish_method_of_nil (hnone : protections calls = []) :
    (method h calls).code.finish = h.encode ++ (methodBytes h calls ++ []) := by
  rw [Assembler.finish, header?_method, handlers_method, entries, hnone, List.append_nil,
    ← toList_method]
  rfl

/-- If there are protected ranges, a table of them comes last, and the header says where it is. -/
theorem finish_method_of_ne_nil (hsome : protections calls ≠ []) :
    (method h calls).code.finish =
      { h with excTable := .ofNat (method h calls).code.offset }.encode ++ (methodBytes h calls ++
        ExceptionTable.encode (entries calls)) := by
  obtain ⟨p, ps, hps⟩ := List.exists_cons_of_ne_nil hsome
  rw [Assembler.finish, header?_method, handlers_method, toList_method, entries, hps,
    ← h.length_encode, List.drop_left, ← List.append_assoc]
  rfl

/-- The parts of a method are found where its header and the assembler say. -/
theorem parts_of_eq (h' : MethodHeader) (rest : Bytes) {bs : Bytes}
    (hbs : bs = h'.encode ++ (methodBytes h calls ++ rest)) :
    (bs.take (method h calls).code.offset).drop MethodHeader.size = methodBytes h calls ∧
      bs.drop (method h calls).code.offset = rest := by
  rw [hbs, offset_method, ← h'.length_encode, ← List.append_assoc, ← List.length_append]
  rw [List.take_left, List.drop_left, List.drop_left]
  exact ⟨rfl, rfl⟩

theorem map_protection_entries (hfits : ∀ p ∈ protections calls, p.Fits) :
    (entries calls).map ExceptionEntry.protection = protections calls := by
  rw [entries, List.map_map]
  exact (List.map_congr_left fun p hp => (hfits p hp).protection_entry).trans (List.map_id _)

/-- The table is read back, however much room its entries are given. -/
theorem parse_padded_entries (hcount : (protections calls).length ≤ 65535) {width : Nat}
    (hwidth : ExceptionEntry.size ≤ width) {padded : List (ExceptionEntry × Bytes)}
    (hfst : padded.map Prod.fst = entries calls)
    (hpads : ∀ x ∈ padded, ExceptionEntry.size + x.2.length = width) :
    ExceptionTable.parse (ExceptionTable.encodePadded padded) width = .ok (entries calls) := by
  have hlength : padded.length ≤ 65535 := by
    rwa [← List.length_map (f := Prod.fst), hfst, entries, List.length_map]
  have hread := ExceptionTable.parse_encodePadded hlength hwidth hpads []
  rwa [List.append_nil, hfst] at hread

theorem parse_entries (hcount : (protections calls).length ≤ 65535) :
    ExceptionTable.parse (ExceptionTable.encode (entries calls)) ExceptionEntry.size =
      .ok (entries calls) := by
  rw [ExceptionTable.encode_eq]
  have hfst : ((entries calls).map (·, ([] : Bytes))).map Prod.fst = entries calls := by
    rw [List.map_map]
    exact List.map_id _
  refine parse_padded_entries hcount (Nat.le_refl _) hfst fun x hx => ?_
  obtain ⟨e, -, rfl⟩ := List.mem_map.1 hx
  rfl

/-- **The parts of a method are read back.** Its header is the one that was given, but for the
    place of the table, which is where the code ends if there are protected ranges. The bytes from
    the header up to there are those of the instructions that were added. The table has the ranges
    in the order in which they were added, however much room its entries are given. If there are no
    ranges, there is no table, and the bytes end with the code. -/
theorem parse_finish_method (hargc : h.argc < 128) (hn : (method h calls).code.offset ≤ 65535)
    (hcount : (protections calls).length ≤ 65535) (hfits : ∀ p ∈ protections calls, p.Fits) :
    let n := (method h calls).code.offset
    let bs := (method h calls).code.finish
    (∃ place : UInt16, MethodHeader.parse bs = .ok { h with excTable := place } ∧
      (protections calls = [] → place = h.excTable) ∧
      (protections calls ≠ [] → place.toNat = n)) ∧
    (bs.take n).drop MethodHeader.size =
      (methodLines h calls).flatMap (fun line => Assembler.encode line.2) ∧
    Listing.ofBytesAt MethodHeader.size ((bs.take n).drop MethodHeader.size) =
      ⟨methodLines h calls, none⟩ ∧
    ∃ table : List ExceptionEntry, table.map ExceptionEntry.protection = protections calls ∧
      (protections calls = [] → bs.drop n = []) ∧
      (protections calls ≠ [] → bs.drop n = ExceptionTable.encode table ∧
        ExceptionTable.parse (bs.drop n) ExceptionEntry.size = .ok table) ∧
      ∀ width ≥ ExceptionEntry.size, ∀ padded : List (ExceptionEntry × Bytes),
        padded.map Prod.fst = table → (∀ x ∈ padded, ExceptionEntry.size + x.2.length = width) →
          ExceptionTable.parse (ExceptionTable.encodePadded padded) width = .ok table := by
  intro n bs
  have htable := map_protection_entries hfits
  by_cases hnone : protections calls = []
  · have hbs : bs = h.encode ++ (methodBytes h calls ++ []) := finish_method_of_nil hnone
    obtain ⟨hcode, hrest⟩ := parts_of_eq h [] hbs
    refine ⟨⟨h.excTable, ?_, fun _ => rfl, absurd hnone⟩, hcode, ?_, _, htable, fun _ => hrest,
      absurd hnone, fun _ hwidth _ => parse_padded_entries hcount hwidth⟩
    · exact hbs ▸ MethodHeader.parse_encode_append hargc _
    · exact hcode ▸ listing_methodBytes h calls
  · have hbs : bs = _ := finish_method_of_ne_nil hnone
    obtain ⟨hcode, hrest⟩ := parts_of_eq _ _ hbs
    refine ⟨⟨.ofNat n, ?_, fun h => absurd h hnone, fun _ => ?_⟩, hcode, ?_, _, htable,
      fun h => absurd h hnone, fun _ => ⟨hrest, ?_⟩,
      fun _ hwidth _ => parse_padded_entries hcount hwidth⟩
    · exact hbs ▸ MethodHeader.parse_encode_append (h := { h with excTable := .ofNat n }) hargc _
    · exact UInt16.toNat_ofNat_of_lt' (Nat.lt_succ_of_le hn)
    · exact hcode ▸ listing_methodBytes h calls
    · exact hrest ▸ parse_entries hcount

/-- A method with a loop, of which a part is protected twice. -/
def guarded : List MethodCall :=
  [.code (.emit (.pushInt 1000)), .protect ⟨10, 18, 0, 21⟩, .code (.jump .ifFalse),
    .code (.jumpTo .always 10), .protect ⟨10, 15, 7, 21⟩, .code (.bind 0),
    .code (.operation .retTrue rfl)]

theorem parse_finish_guarded :
    let bs := (method { argc := 2 } guarded).code.finish
    MethodHeader.parse bs = .ok { argc := 2, excTable := 22 } ∧
      (bs.take 22).drop 10 = [4, 232, 3, 0, 0, 34, 3, 0, 32, 245, 255, 50] ∧
        ∃ table, table.map ExceptionEntry.protection = [⟨10, 18, 0, 21⟩, ⟨10, 15, 7, 21⟩] ∧
          ExceptionTable.parse (bs.drop 22) 10 = .ok table ∧
            ExceptionTable.parse (ExceptionTable.encodePadded (table.map (·, [238]))) 11 =
              .ok table := by
  have hn : (method { argc := 2 } guarded).code.offset = 22 := by decide +kernel
  obtain ⟨⟨place, hheader, -, hplace⟩, hcode, -, table, htable, -, hparse, hpadded⟩ :=
    @parse_finish_method { argc := 2 } guarded (by decide) (by decide +kernel) (by decide)
      (by decide)
  rw [hn] at hplace hcode hparse
  obtain rfl : place = 22 := UInt16.toNat_inj.1 (hplace (by decide))
  refine ⟨hheader, hcode.trans (by decide +kernel), table, htable, (hparse (by decide)).2,
    hpadded 11 (by decide) _ ?_ fun x hx => ?_⟩
  · rw [List.map_map]
    exact List.map_id _
  · obtain ⟨e, -, rfl⟩ := List.mem_map.1 hx
    rfl

/-- A method without protected ranges has no table, not even an empty one. -/
theorem parse_finish_without_table :
    (method {} [.code (.operation .retNil rfl)]).code.offset = 11 ∧
      protections [.code (.operation .retNil rfl)] = [] ∧
        ExceptionTable.parse ((method {} [.code (.operation .retNil rfl)]).code.finish.drop 11)
          ExceptionEntry.size = .error (.truncated 0) :=
  ⟨by decide +kernel, rfl, by decide +kernel⟩

end Assembly

end StoryMachine
