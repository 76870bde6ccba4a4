import StoryMachine.Proofs.Image.Elsewhere
import StoryMachine.Proofs.Image.RoundTrip

/-!
# Blocks that are not known

A block with a tag that is not known may be put into an image between two others, if it is not
mandatory. It is passed over: the image is accepted if it was before, or refused with the same
error, and what it holds is the same.

* `Image.Boundary`: the places where the loader looks for a block;
* `Image.exists_front_of_boundary`: what comes before such a place;
* `Loader.block_of_unknown`: a block that is passed over;
* `Image.load_insert`: an image into which one is put.
-/

namespace StoryMachine

/-- A block that is not known is passed over unless it is mandatory. -/
theorem Loader.block_of_unknown {b : Block} (hunknown : b.tag ∉ Block.contents)
    (hoptional : b.mandatory = false) (l : Loader) : l.block b = .ok l := by
  simp only [Block.contents, List.mem_cons, List.not_mem_nil, or_false, not_or] at hunknown
  obtain ⟨hmetaclasses, hfunctionSets, hpool, hpage, hobjects, hsymbols, hentry⟩ := hunknown
  rw [Loader.block]
  by_cases heof : b.tag = Block.eof
  · rw [if_pos heof]
    rfl
  · rw [if_neg heof, if_neg hmetaclasses, if_neg hfunctionSets, if_neg hpool, if_neg hpage,
      if_neg hobjects, if_neg hsymbols, if_neg hentry, hoptional]
    rfl

namespace Image

variable {bs bs' : Bytes} {place : Nat}

/-- A place in a stream where the loader looks for a block: after the version, and after each
    block that does not end the image. -/
inductive Boundary (bs : Bytes) : Nat → Prop
  | first {version : UInt16} {rest : Bytes} (hstart : start bs = .ok (version, rest)) :
      Boundary bs (signature.length + 2)
  | next {place : Nat} {b : Block} (hplace : Boundary bs place)
      (hblock : Block.first? place (bs.drop place) = some b) (htag : b.tag ≠ Block.eof) :
      Boundary bs (place + (Block.headerSize + b.size.toNat))

/-- A stream up to a boundary is the signature, the version and whole blocks. The induction is on
    the blocks before the boundary. -/
theorem exists_front_of_boundary (hplace : Boundary bs place) (hle : place ≤ bs.length) :
    ∃ front : List Segment, (∀ s ∈ front, s.IsWhole ∧ s.tag ≠ Block.eof) ∧
      bs.take place = signature ++ Bytes.u16 formatVersion ++ front.flatMap Segment.bytes := by
  induction hplace with
  | first hstart =>
    refine ⟨[], List.forall_mem_nil _, ?_⟩
    rw [eq_append_of_start hstart, List.flatMap_nil, List.append_nil]
    exact List.take_left' rfl
  | @next place b hplace hblock htag ih =>
    obtain ⟨front, hfront, htake⟩ := ih (by omega)
    obtain ⟨s, hs, hlength, htag', hsize⟩ := Block.exists_segment_of_first? hblock
    have hheader := Segment.length_header hlength
    -- The boundary is in the stream, so all of the payload is there.
    have hlong : s.size.toNat ≤ s.payload.length := by
      have hlength := congrArg List.length hs
      rw [List.length_drop, Segment.bytes, List.length_append, hheader] at hlength
      rw [hsize]
      omega
    have hbytes : (bs.drop place).take (Block.headerSize + b.size.toNat) =
        Segment.bytes { s with payload := s.payload.take s.size.toNat } := by
      rw [hs, Segment.bytes, ← hheader, ← hsize, List.take_length_add_append]
      rfl
    refine ⟨front ++ [{ s with payload := s.payload.take s.size.toNat }],
      List.forall_mem_append.2 ⟨hfront, List.forall_mem_singleton.2
        ⟨⟨hlength, List.length_take_of_le hlong⟩, htag' ▸ htag⟩⟩, ?_⟩
    rw [List.take_add, htake, hbytes, List.flatMap_append, List.flatMap_singleton,
      List.append_assoc]

/-- Two streams hold the same if their blocks add the same. -/
theorem alike_load {body body' : Bytes} {mode : PoolMode} {settings : HeapSettings}
    (hbs : bs = signature ++ Bytes.u16 formatVersion ++ body)
    (hbs' : bs' = signature ++ Bytes.u16 formatVersion ++ body')
    (hblocks : Alike (Loader.Moved bs bs')
      ((Blocks.ofBytes (signature.length + 2) body).list.foldlM Loader.block
        { pools := .new mode bs.toArray, heap := .new settings })
      ((Blocks.ofBytes (signature.length + 2) body').list.foldlM Loader.block
        { pools := .new mode bs'.toArray, heap := .new settings }))
    (hend : (Blocks.ofBytes (signature.length + 2) body).ending =
      (Blocks.ofBytes (signature.length + 2) body').ending) :
    Alike (fun r r' => SameContents r r' ∧ r.1.objects = r'.1.objects) (load bs mode settings)
      (load bs' mode settings) := by
  have hstart := start_eq_ok body
  have hstart' := start_eq_ok body'
  rw [← hbs] at hstart
  rw [← hbs'] at hstart'
  rw [load, load, hstart, hstart']
  refine hblocks.bind fun l l' hl => ?_
  dsimp only
  rw [hend, hl.finish]
  refine .bindSame fun _ => .bindSame fun finished => ?_
  obtain ⟨metaclasses, functionSets, entry⟩ := finished
  obtain ⟨hp⟩ := hl
  exact .ok ⟨⟨rfl, rfl, rfl, rfl, rfl, rfl, Pools.Moved.answers_eq hp⟩, rfl⟩

/-- **Blocks that are not known make no difference.** At every place where the loader looks for a
    block, a whole block may be put in whose tag is not known and which is not mandatory. The image
    is refused with the same error, or holds the same. -/
theorem load_insert {x : Segment} (hplace : Boundary bs place) (hle : place ≤ bs.length)
    (hx : x.IsWhole) (hunknown : x.tag ∉ Block.contents) (heof : x.tag ≠ Block.eof)
    (hoptional : x.flags &&& 1 = 0) (mode : PoolMode) (settings : HeapSettings) :
    Alike (fun r r' => SameContents r r' ∧ r.1.objects = r'.1.objects) (load bs mode settings)
      (load (bs.take place ++ x.bytes ++ bs.drop place) mode settings) := by
  obtain ⟨front, hfront, htake⟩ := exists_front_of_boundary hplace hle
  generalize hrest : bs.drop place = rest
  have hbs : bs = signature ++ Bytes.u16 formatVersion ++
      (front.flatMap Segment.bytes ++ rest) := by
    rw [← List.append_assoc, ← htake, ← hrest, List.take_append_drop]
  have hfront' : ∀ s ∈ front ++ [x], s.IsWhole ∧ s.tag ≠ Block.eof :=
    List.forall_mem_append.2 ⟨hfront, List.forall_mem_singleton.2 ⟨hx, heof⟩⟩
  have hbs' : bs.take place ++ x.bytes ++ rest = signature ++ Bytes.u16 formatVersion ++
      ((front ++ [x]).flatMap Segment.bytes ++ rest) := by
    rw [htake, List.flatMap_append, List.flatMap_singleton]
    simp only [List.append_assoc]
  generalize bs.take place ++ x.bytes ++ rest = bs' at hbs'
  have hdrop := drop_of_eq hbs
  have hdrop' := drop_of_eq hbs'
  have hnew := Loader.moved_new bs bs' mode settings
  -- What comes before the new block is in its place, and what comes after it is further on.
  obtain ⟨hmore, hend⟩ := Blocks.moved_ofBytes (drop_of_drop hdrop).symm
    (drop_of_drop hdrop').symm
  rw [List.flatMap_append, List.append_assoc] at hdrop'
  have hbefore := Segment.moved_blocks (fun s hs => (hfront s hs).1) hdrop hdrop'
  refine alike_load hbs hbs' ?_ ?_
  · rw [Blocks.ofBytes_segments hfront, Blocks.ofBytes_segments hfront']
    dsimp only
    rw [Segment.blocks_append, List.append_assoc, List.foldlM_append, List.foldlM_append]
    refine (hnew.foldlM hbefore).bind fun l l' hl => ?_
    have hpass (place : Nat) : l'.block (x.block place) = .ok l' :=
      Loader.block_of_unknown hunknown (by simp [Segment.block, hoptional]) l'
    rw [List.foldlM_append, Segment.blocks, Segment.blocks, List.foldlM_cons, hpass]
    exact hl.foldlM hmore
  · rw [Blocks.ofBytes_segments hfront, Blocks.ofBytes_segments hfront']
    exact hend

/-- A block that is not known, of three bytes. -/
def note : Segment := ⟨Bytes.ofText "NOTE", 3, 0, [1, 2, 3]⟩

theorem boundary_threePages : Boundary Machine.threePages 43 := by
  have hstart : start Machine.threePages = .ok (formatVersion, Machine.threePages.drop 13) :=
    start_eq_ok (Machine.threePages.drop 13)
  have hblock : Block.first? 13 (Machine.threePages.drop 13) =
      some ⟨Block.metaclasses, 23, 20, true, (Machine.threePages.drop 23).take 20⟩ := by
    decide +kernel
  exact .next (.first hstart) hblock (by decide +kernel)

/-- The block is put in before the pages, which are then further on in the image. -/
theorem load_insert_note : ∃ r r', load Machine.threePages (.paged 1) {} = .ok r ∧
    load (Machine.threePages.take 43 ++ note.bytes ++ Machine.threePages.drop 43) (.paged 1) {} =
      .ok r' ∧ SameContents r r' := by
  have hok : (load Machine.threePages (.paged 1) {}).isOk = true := by decide +kernel
  have hsame := load_insert (x := note) boundary_threePages (by decide +kernel) (by decide +kernel)
    (by decide +kernel) (by decide +kernel) rfl (.paged 1) {}
  generalize load Machine.threePages (.paged 1) {} = y at hok hsame
  generalize load (Machine.threePages.take 43 ++ note.bytes ++ Machine.threePages.drop 43)
    (.paged 1) {} = y' at hsame
  cases hsame with
  | ok hr => exact ⟨_, _, rfl, rfl, hr.1⟩
  | error he => cases hok

end Image

end StoryMachine
