import StoryMachine.Proofs.Image.Front
import StoryMachine.Proofs.Text.Name

/-!
# Images with long names

A draft has names of any length, and each is cut off after 255 bytes when it is written. If no cut
goes through a character, the image is that of a draft in which the names have been cut off before.
If one does, the image is refused, whatever else is in it.

* `ImageDraft.names`, `ImageDraft.shorten`: the names of a draft, and the draft with those that are
  kept;
* `ImageDraft.encode_shorten`: the bytes of both;
* `Loader.forall_of_loop`: entries that have been read one after the other;
* `Image.not_splits_of_load`, `Image.load_run_of_not_splits`: the names of an image that has been
  loaded, and what is there under them;
* `Image.names_of_load_iff`, `Image.not_load_accents`: the images whose names are read back, and one
  that is refused.
-/

namespace StoryMachine

namespace ImageDraft

variable {d : ImageDraft}

/-! ## The names of a draft -/

/-- The names of metaclasses, of function sets and of symbols. -/
def names (d : ImageDraft) : List String :=
  d.metaclasses.toList.map Prod.fst ++ d.functionSets.toList ++ d.symbols.toList.map Prod.fst

theorem forall_mem_names {P : String → Prop} : (∀ s ∈ d.names, P s) ↔
    (∀ p ∈ d.metaclasses.toList, P p.1) ∧ (∀ dep ∈ d.functionSets.toList, P dep) ∧
      ∀ p ∈ d.symbols.toList, P p.1 := by
  rw [names, List.forall_mem_append, List.forall_mem_append, List.forall_mem_map,
    List.forall_mem_map, and_assoc]

/-- The draft with as much of each name as is kept of it. -/
def shorten (d : ImageDraft) : ImageDraft :=
  { d with
    metaclasses := d.metaclasses.map fun p => (Bytes.keptName p.1, p.2)
    functionSets := d.functionSets.map Bytes.keptName
    symbols := d.symbols.map fun p => (Bytes.keptName p.1, p.2) }

/-- As long as no character is cut in two, nothing else of a name is written. -/
theorem encode_shorten (hnames : ∀ s ∈ d.names, ¬Bytes.Splits 255 s) :
    d.shorten.encode = d.encode := by
  obtain ⟨hmetaclasses, hfunctionSets, hsymbols⟩ := forall_mem_names.1 hnames
  have hsame {α : Type} {f : α → Bytes} {g : α → α} {table : Array α}
      (hf : ∀ a ∈ table.toList, f (g a) = f a) :
      (table.map g).toList.flatMap f = table.toList.flatMap f := by
    rw [Array.toList_map, List.flatMap_map]
    exact List.flatMap_congr hf
  have hmetaclassBlock : d.shorten.metaclassBlock = d.metaclassBlock := by
    rw [metaclassBlock, metaclassBlock, shorten, Array.size_map, hsame fun p hp => ?_]
    dsimp only
    rw [metaclassEntry, metaclassEntry, Bytes.name_keptName (hmetaclasses p hp)]
  have hfunctionSetBlock : d.shorten.functionSetBlock = d.functionSetBlock := by
    rw [functionSetBlock, functionSetBlock, shorten, Array.size_map, hsame fun dep hdep => ?_]
    exact Bytes.name_keptName (hfunctionSets dep hdep)
  have hsymbolBlock : d.shorten.symbolBlock = d.symbolBlock := by
    have hempty : d.shorten.symbols.isEmpty = d.symbols.isEmpty := by
      rw [shorten, Array.isEmpty, Array.isEmpty, Array.size_map]
    rw [symbolBlock, symbolBlock, hempty, shorten, Array.size_map, hsame fun p hp => ?_]
    dsimp only
    rw [Bytes.name_keptName (hsymbols p hp)]
  -- There are no names in the other blocks.
  rw [encode, encode, hmetaclassBlock, hfunctionSetBlock, hsymbolBlock]
  rfl

/-- The call with as much of its name as is kept. -/
def Call.shorten : Call → Call
  | metaclass dep props => metaclass (Bytes.keptName dep) props
  | functionSet dep => functionSet (Bytes.keptName dep)
  | symbol name v => symbol (Bytes.keptName name) v
  | c => c

/-- Calls with shorter names give a draft with shorter names. -/
theorem run_map_shorten (n : UInt32) (calls : List Call) :
    run n (calls.map Call.shorten) = (run n calls).shorten := by
  -- The induction is on the calls, from any draft, as each call adds to what those before it have
  -- given.
  have hafter (d : ImageDraft) :
      d.shorten.after (calls.map Call.shorten) = (d.after calls).shorten := by
    induction calls generalizing d with
    | nil => rfl
    | cons c calls ih =>
      have hperform : (d.shorten.perform c.shorten).2 = (d.perform c).2.shorten := by
        cases c <;> simp [perform, Call.shorten, shorten, addMetaclass, addFunctionSet, addSymbol,
          addCode, addString, addList, addConstant, addObject]
      change (d.shorten.perform c.shorten).2.after _ = ((d.perform c).2.after calls).shorten
      rw [hperform, ih]
  have hnew : (({} : ImageDraft).setPageSize n).shorten = ({} : ImageDraft).setPageSize n := by
    simp [shorten, setPageSize]
  rw [run, run, ← hafter, hnew]

/-- The names of a draft stand where they are looked for: the numbers of entries and the lengths of
    entries of the table of metaclasses can be said in two bytes, and the blocks can be told
    apart. -/
structure Counted (d : ImageDraft) : Prop where
  /-- The number of metaclasses can be said. -/
  metaclasses : d.metaclasses.size ≤ 65535
  /-- The number of function sets can be said. -/
  functionSets : d.functionSets.size ≤ 65535
  /-- The number of symbols can be said. -/
  symbols : d.symbols.size ≤ 65535
  /-- The lengths of the entries of metaclasses can be said. -/
  entries : ∀ p ∈ d.metaclasses, (entryBytes p.1 p.2).length ≤ 65535
  /-- The blocks are divided where they were written. -/
  blocks : ∀ b ∈ d.blocks, b.Fits ∧ b.tag ≠ Block.eof

end ImageDraft

/-! ## Names that have been read -/

namespace Loader

variable {tag s : String} {bs rest : Bytes}

/-- If anything is read where a name was written, no character of it has been cut in two, and all
    of the name has been read. -/
theorem eq_of_part_name {t : String}
    (hok : part tag Reader.name (Bytes.name s ++ bs) = .ok (t, rest)) :
    ¬Bytes.Splits 255 s ∧ rest = bs :=
  (Reader.name_append_eq_some_iff.1 (Parser.of_eq_ok.1 hok)).2

/-- What has been read is what was written. -/
theorem eq_of_reads {α : Type} {p : Parser α} {front : Bytes} {a b : α}
    (hp : Parser.Reads p front a) (hok : p (front ++ bs) = .ok (b, rest)) : b = a ∧ rest = bs :=
  Prod.mk.inj (Except.ok.inj (hok.symm.trans (hp bs)))

/-- Entries that are read one after the other. If each of them can only be read if something is true
    of what was written for it, then it is true for all. -/
theorem forall_of_loop {α β : Type} {loop : Nat → β → Parser β} {f : α → Bytes} {P : α → Prop}
    {as : List α} {b : β} {r : β × Bytes}
    (hloop : ∀ a ∈ as, ∀ n b bs r, loop (n + 1) b (f a ++ bs) = .ok r →
      P a ∧ ∃ b', loop n b' bs = .ok r)
    (hok : loop as.length b (as.flatMap f) = .ok r) : ∀ a ∈ as, P a := by
  induction as generalizing b with
  | nil => exact List.forall_mem_nil _
  | cons a as ih =>
    obtain ⟨hfirst, hloop⟩ := List.forall_mem_cons.1 hloop
    obtain ⟨ha, b', hok⟩ := hfirst _ _ _ _ hok
    exact List.forall_mem_cons.2 ⟨ha, ih hloop hok⟩

theorem names_of_symbolEntries {symbols : List (String × Value)} {e : Exports}
    {r : Exports × Bytes}
    (hok : symbolEntries symbols.length e
      (symbols.flatMap fun (name, v) => v.portable ++ Bytes.name name) = .ok r) :
    ∀ p ∈ symbols, ¬Bytes.Splits 255 p.1 := by
  refine forall_of_loop (fun ⟨name, v⟩ _ n e bs r hstep => ?_) hok
  rw [List.append_assoc] at hstep
  obtain ⟨v', mid, hv, hstep'⟩ := Parser.bind_eq_ok.1 hstep
  obtain ⟨-, rfl⟩ := eq_of_reads (reads_part (Reader.reads_written v) _) hv
  obtain ⟨t, mid', ht, hmore⟩ := Parser.bind_eq_ok.1 hstep'
  obtain ⟨hname, rfl⟩ := eq_of_part_name ht
  exact ⟨hname, _, hmore⟩

theorem names_of_functionSetEntries {deps : List String} {t : FunctionSetTable}
    {r : FunctionSetTable × Bytes}
    (hok : functionSetEntries deps.length t (deps.flatMap Bytes.name) = .ok r) :
    ∀ dep ∈ deps, ¬Bytes.Splits 255 dep := by
  refine forall_of_loop (fun dep _ n t bs r hstep => ?_) hok
  obtain ⟨dep', mid, hdep, hstep'⟩ := Parser.bind_eq_ok.1 hstep
  obtain ⟨hname, rfl⟩ := eq_of_part_name hdep
  obtain ⟨⟨_, t'⟩, mid', hadd, hmore⟩ := Parser.bind_eq_ok.1 hstep'
  obtain ⟨-, rfl⟩ := Parser.lift_eq_ok.1 hadd
  exact ⟨hname, t', hmore⟩

/-- The name of a metaclass is the first thing in its entry. -/
theorem not_splits_of_metaclassEntry {dep : String} {props : List PropId}
    {r : (String × List PropId) × Bytes}
    (hok : metaclassEntry (ImageDraft.entryBytes dep props) = .ok r) : ¬Bytes.Splits 255 dep := by
  rw [ImageDraft.entryBytes, List.append_assoc, List.append_assoc] at hok
  obtain ⟨name, mid, hname, -⟩ := Parser.bind_eq_ok.1 hok
  exact (eq_of_part_name hname).1

theorem names_of_metaclassEntries {metaclasses : List (String × List PropId)}
    {t : MetaclassTable} {r : MetaclassTable × Bytes}
    (hentries : ∀ p ∈ metaclasses, (ImageDraft.entryBytes p.1 p.2).length ≤ 65535)
    (hok : metaclassEntries metaclasses.length t
      (metaclasses.flatMap fun (dep, props) => ImageDraft.metaclassEntry dep props) = .ok r) :
    ∀ p ∈ metaclasses, ¬Bytes.Splits 255 p.1 := by
  refine forall_of_loop (fun ⟨dep, props⟩ hmem n t bs r hstep => ?_) hok
  obtain ⟨hcount, hn⟩ := reads_count (hentries _ hmem) "MCLD"
  have hbytes := reads_part (Reader.reads_bytes (ImageDraft.entryBytes dep props)) "MCLD"
  rw [← hn] at hbytes
  change metaclassEntries (n + 1) t (ObjectData.count (ImageDraft.entryBytes dep props).length ++
    ImageDraft.entryBytes dep props ++ bs) = _ at hstep
  rw [List.append_assoc] at hstep
  -- An entry is cut off by its length, and then read by itself.
  obtain ⟨length, mid, hlength, hcut⟩ := Parser.bind_eq_ok.1 hstep
  obtain ⟨rfl, rfl⟩ := eq_of_reads hcount hlength
  obtain ⟨entry, mid', hentry, hinner⟩ := Parser.bind_eq_ok.1 hcut
  obtain ⟨rfl, rfl⟩ := eq_of_reads hbytes hentry
  obtain ⟨q, mid, hread, hadded⟩ := Parser.bind_eq_ok.1 hinner
  obtain ⟨hname, rfl⟩ := Parser.lift_eq_ok.1 hread
  obtain ⟨⟨_, t'⟩, mid', hadd, hmore⟩ := Parser.bind_eq_ok.1 hadded
  obtain ⟨-, rfl⟩ := Parser.lift_eq_ok.1 hadd
  exact ⟨not_splits_of_metaclassEntry hname, t', hmore⟩

/-- Behind a count that can be said, as many entries are read. -/
theorem exists_of_count {n : Nat} {l : Loader} {k : UInt16 × Bytes → Except Failure Loader}
    (hn : n ≤ 65535)
    (hok : (part tag Reader.u16 (ObjectData.count n ++ bs) >>= k) = .ok l) :
    ∃ count : UInt16, count.toNat = n ∧ k (count, bs) = .ok l := by
  obtain ⟨hcount, htoNat⟩ := reads_count hn tag
  rw [hcount bs] at hok
  exact ⟨_, htoNat, hok⟩

end Loader

namespace Image

variable {d : ImageDraft} {mode : PoolMode} {settings : HeapSettings}
  {r : Image × Pools × Heap}

/-- Every block of an image that has been loaded has been taken in. -/
theorem exists_block_of_load {bs : Bytes} {b : Block} (hload : load bs mode settings = .ok r)
    (hb : b ∈ r.1.blocks) : ∃ l l', Loader.block l b = .ok l' := by
  obtain ⟨l, hl⟩ := exists_loadedFrom hload
  have htaken := hl.taken
  obtain ⟨front, back, hsplit⟩ := List.append_of_mem hb
  rw [hsplit, List.foldlM_append] at htaken
  obtain ⟨l₁, -, htaken⟩ := Except.bind_eq_ok.1 htaken
  rw [List.foldlM_cons] at htaken
  obtain ⟨l₂, hblock, -⟩ := Except.bind_eq_ok.1 htaken
  exact ⟨l₁, l₂, hblock⟩

/-- The payload of each block of a draft has been taken in. -/
theorem exists_take_of_load {take : Loader → Bytes → Except Failure Loader} {b : DraftBlock}
    (htake : Loader.Takes b.tag take) (hb : b ∈ d.blocks)
    (hblocks : ∀ b ∈ d.blocks, b.Fits ∧ b.tag ≠ Block.eof)
    (hload : load d.encode mode settings = .ok r) : ∃ l l', take l b.payload = .ok l' := by
  obtain ⟨place, htaken⟩ := exists_mem_blocks_of_load hb hblocks hload
  obtain ⟨l, l', hblock⟩ := exists_block_of_load hload htaken
  rw [htake.block_eq rfl] at hblock
  obtain ⟨bs, hbs, hok⟩ := Except.bind_eq_ok.1 hblock
  obtain rfl := Loader.eq_of_payload hbs
  exact ⟨l, l', hok⟩

/-- Of an image that has been loaded no name has a character that is cut in two. -/
theorem not_splits_of_load (hd : d.Counted) (hload : load d.encode mode settings = .ok r) :
    ∀ s ∈ d.names, ¬Bytes.Splits 255 s := by
  refine ImageDraft.forall_mem_names.2 ⟨?_, ?_, ?_⟩
  · obtain ⟨l, l', hok⟩ := exists_take_of_load .metaclasses
      (by simp [ImageDraft.blocks] : ⟨Block.metaclasses, true, d.metaclassPayload⟩ ∈ d.blocks)
      hd.blocks hload
    rw [Loader.metaclassTable] at hok
    obtain ⟨-, hok⟩ := Except.guard_eq_ok.1 hok
    obtain ⟨n, hn, hok⟩ := Loader.exists_of_count hd.metaclasses hok
    obtain ⟨_, hentries, -⟩ := Except.bind_eq_ok.1 hok
    rw [hn, ← Array.length_toList] at hentries
    exact Loader.names_of_metaclassEntries
      (fun p hp => hd.entries p (Array.mem_toList_iff.1 hp)) hentries
  · obtain ⟨l, l', hok⟩ := exists_take_of_load .functionSets
      (by simp [ImageDraft.blocks] : ⟨Block.functionSets, true, d.functionSetPayload⟩ ∈ d.blocks)
      hd.blocks hload
    rw [Loader.functionSetTable] at hok
    obtain ⟨-, hok⟩ := Except.guard_eq_ok.1 hok
    obtain ⟨n, hn, hok⟩ := Loader.exists_of_count hd.functionSets hok
    obtain ⟨_, hentries, -⟩ := Except.bind_eq_ok.1 hok
    rw [hn, ← Array.length_toList] at hentries
    exact Loader.names_of_functionSetEntries hentries
  · -- A draft without symbols has no block for them.
    cases hempty : d.symbols.isEmpty with
    | true =>
      rw [Array.isEmpty_iff.1 hempty]
      exact List.forall_mem_nil _
    | false =>
      obtain ⟨l, l', hok⟩ := exists_take_of_load .symbols
        (by simp [ImageDraft.blocks, hempty] :
          ⟨Block.symbols, false, d.symbolPayload⟩ ∈ d.blocks) hd.blocks hload
      obtain ⟨n, hn, hok⟩ := Loader.exists_of_count hd.symbols hok
      obtain ⟨_, hentries, -⟩ := Except.bind_eq_ok.1 hok
      rw [hn, ← Array.length_toList] at hentries
      exact Loader.names_of_symbolEntries hentries

variable {n : UInt32} {calls : List ImageDraft.Call} {t : MetaclassTable} {f : FunctionSetTable}
  {objects : List (UInt32 × Object)}

/-- What has been put into a draft is there under the names that are kept, as long as no character
    is cut in two. -/
theorem load_run_of_not_splits (hnames : ∀ s ∈ (ImageDraft.run n calls).names, ¬Bytes.Splits 255 s)
    (hmeans : ImageDraft.Means (calls.map ImageDraft.Call.shorten) t f objects)
    (hfits : (ImageDraft.run n (calls.map ImageDraft.Call.shorten)).Fits)
    (hd : (ImageDraft.run n (calls.map ImageDraft.Call.shorten)).Complete objects settings)
    (hne : objects ≠ []) : ∃ image pools heap,
      load (ImageDraft.run n calls).encode .inMemory settings = .ok (image, pools, heap) ∧
        image.Written pools heap n (calls.map ImageDraft.Call.shorten) t f objects := by
  obtain ⟨image, pools, heap, hload, hwritten, -⟩ := load_run hmeans hfits hd hne
  rw [ImageDraft.run_map_shorten, ImageDraft.encode_shorten hnames] at hload
  exact ⟨image, pools, heap, hload, hwritten⟩

/-- **Names are read back.** Of a name of any length its longest start is read back, and nothing
    else, unless the cut after 255 bytes goes through a character. Unless it does so for some name
    of a draft, what is loaded is the draft with the names that are kept; if it does, the image is
    refused. -/
theorem names_of_load_iff (s : String) (rest : Bytes) (d : ImageDraft) (mode : PoolMode)
    (settings : HeapSettings) :
    (((Bytes.ofText s).length ≤ 255 → Reader.name (Bytes.name s ++ rest) = some (s, rest)) ∧
      (¬Bytes.Splits 255 s → ∃ t, Bytes.LongestStart 255 s t ∧
        Reader.name (Bytes.name s ++ rest) = some (t, rest)) ∧
      (Bytes.Splits 255 s → Reader.name (Bytes.name s ++ rest) = none)) ∧
    (d.Counted → ∀ r, load d.encode mode settings = .ok r ↔
      (∀ name ∈ d.names, ¬Bytes.Splits 255 name) ∧
        load d.shorten.encode mode settings = .ok r) := by
  refine ⟨⟨?_, ?_, ?_⟩, fun hd r => ⟨fun hload => ?_, ?_⟩⟩
  · exact fun hs => Reader.reads_shortName hs rest
  · intro hs
    refine ⟨_, Bytes.longestStart_keptName s, ?_⟩
    exact Reader.name_append_eq_some_iff.2 ⟨Bytes.longestStart_keptName s, hs, rfl⟩
  · exact fun hs => Reader.name_append_eq_none hs rest
  · have hnames := not_splits_of_load hd hload
    exact ⟨hnames, by rwa [ImageDraft.encode_shorten hnames]⟩
  · rintro ⟨hnames, hload⟩
    rwa [ImageDraft.encode_shorten hnames] at hload

/-! ## Accents -/

/-- A name of 127 accented letters, each of two bytes, and two others: the cut is between these. -/
def accents : String := .ofList (List.replicate 127 'é' ++ ['a', 'b'])

/-- A name of 128 accented letters: the cut goes through the last one. -/
def longAccents : String := .ofList (List.replicate 128 'é')

/-- The calls for an image with a list that is exported, and a method to start with. -/
def accentCalls (name : String) : List ImageDraft.Call := [
  .metaclass "list/030000" [], .code [0, 0, 0, 0, 0, 0, 0, 0, 0, 0, 0x30], .object 1 0 [0, 0],
  .symbol name (.obj (.ofImage 1)), .entryPoint 0]

theorem means_accentCalls (name : String) :
    ImageDraft.Means (accentCalls name) ⟨#[⟨.list, 30000, []⟩]⟩ ⟨#[]⟩ [(1, ⟨0, .list []⟩)] where
  metaclasses := .cons ⟨⟨"list", by decide +kernel, by decide +kernel⟩, by decide, rfl⟩ .nil
  functionSets := .nil
  objects := .cons ⟨rfl, rfl, ⟨_, rfl, rfl⟩⟩ .nil

theorem complete_accentCalls (name : String) :
    (ImageDraft.run 16 (accentCalls name)).Complete [(1, ⟨0, .list []⟩)] {} := by
  have hobjects : (ImageDraft.run 16 (accentCalls name)).objects = #[⟨1, 0, [0, 0]⟩] := rfl
  have hcode : (ImageDraft.run 16 (accentCalls name)).code.size = 11 := rfl
  have hpage : (ImageDraft.run 16 (accentCalls name)).pageSize = 16 := rfl
  refine ⟨?_, ?_, by decide, rfl, 0, rfl, ?_⟩
  · rw [hobjects]
    decide
  · rw [hobjects]
    decide
  · rw [hcode, hpage]
    decide

theorem counted_accentCalls {name : String}
    (hlengths : ∀ b ∈ (ImageDraft.run 16 (accentCalls name)).blocks, b.payload.length < 2 ^ 32) :
    (ImageDraft.run 16 (accentCalls name)).Counted := by
  have hmetaclasses : (ImageDraft.run 16 (accentCalls name)).metaclasses =
      #[("list/030000", [])] := rfl
  have hfunctionSets : (ImageDraft.run 16 (accentCalls name)).functionSets = #[] := rfl
  have hsymbols : (ImageDraft.run 16 (accentCalls name)).symbols =
      #[(name, .obj (.ofImage 1))] := rfl
  refine ⟨?_, ?_, ?_, ?_, ImageDraft.wellFormed_of_mem_blocks (ImageDraft.extra_run _ _) hlengths⟩
  · rw [hmetaclasses]
    decide
  · rw [hfunctionSets]
    decide
  · rw [hsymbols, List.size_toArray, List.length_singleton]
    decide
  · rw [hmetaclasses]
    decide +kernel

/-- The name of 127 accented letters is read back without its last letter, also out of an image that
    exports it. -/
theorem names_of_load_accents :
    (∃ t, Bytes.LongestStart 255 accents t ∧ Reader.name (Bytes.name accents) = some (t, [])) ∧
    ∃ image pools heap,
      load (ImageDraft.run 16 (accentCalls accents)).encode .inMemory {} =
        .ok (image, pools, heap) ∧
      image.exports.lookup (.ofList (List.replicate 127 'é' ++ ['a'])) =
        some (.obj (.ofImage 1)) := by
  have hcounted : (ImageDraft.run 16 (accentCalls accents)).Counted :=
    counted_accentCalls (by decide +kernel)
  have hnames : ∀ s ∈ (ImageDraft.run 16 (accentCalls accents)).names, ¬Bytes.Splits 255 s := by
    decide +kernel
  have hbytes : Bytes.ofText (.ofList (List.replicate 127 'é' ++ ['a'])) =
      (Bytes.ofText accents).take 255 := by decide +kernel
  obtain ⟨hstart, hnot⟩ := Bytes.ofText_eq_take_iff.1 hbytes
  have hkept : Bytes.keptName accents = .ofList (List.replicate 127 'é' ++ ['a']) :=
    (Bytes.longestStart_keptName accents).unique hstart
  have hfits : (ImageDraft.run 16 (accentCalls (Bytes.keptName accents))).Fits := by
    rw [hkept]
    constructor <;> decide +kernel
  -- The image with the shorter name is loaded, and its bytes are the same.
  obtain ⟨image, pools, heap, hload, hwritten, -⟩ :=
    load_run (means_accentCalls _) hfits (complete_accentCalls _) (by decide)
  obtain ⟨⟨-, hread, -⟩, hiff⟩ := names_of_load_iff accents []
    (ImageDraft.run 16 (accentCalls accents)) .inMemory {}
  rw [List.append_nil] at hread
  refine ⟨hread hnot, image, pools, heap, (hiff hcounted _).2 ⟨hnames, ?_⟩, ?_⟩
  · rw [← ImageDraft.run_map_shorten]
    exact hload
  · rw [hwritten.exports, ← hkept]
    exact List.lookup_cons_self

/-- An image that exports a name of 128 accented letters is refused, although it meets all the
    conditions on its parts. -/
theorem not_load_accents :
    Bytes.Splits 255 longAccents ∧ Reader.name (Bytes.name longAccents) = none ∧
      (ImageDraft.run 16 (accentCalls longAccents)).Counted ∧
      ¬∃ r, load (ImageDraft.run 16 (accentCalls longAccents)).encode .inMemory {} = .ok r := by
  have hsplits : Bytes.Splits 255 longAccents := by decide +kernel
  have hcounted : (ImageDraft.run 16 (accentCalls longAccents)).Counted :=
    counted_accentCalls (by decide +kernel)
  refine ⟨hsplits, ?_, hcounted, ?_⟩
  · rw [← List.append_nil (Bytes.name longAccents)]
    exact Reader.name_append_eq_none hsplits []
  · rintro ⟨r, hload⟩
    refine not_splits_of_load hcounted hload longAccents ?_ hsplits
    exact List.mem_append_right _ (List.mem_singleton_self _)

end Image

end StoryMachine
