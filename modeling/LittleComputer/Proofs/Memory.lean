import LittleComputer.Proofs.Assembly.Success

/-!
Images of assembled programs as memories.  Blocks that are apart cover every address at most once,
so the first segment that has a word for an address is the only one, and there are as many words as
mapped addresses.
-/
namespace LittleComputer

/-- Where at most one item of a list has an answer, the search for one finds it. -/
theorem findSome?_eq_of_pairwise {α β : Type} {f : α → Option β} {items : List α} {a : α}
    {b : β} (hsingle : items.Pairwise fun first second => ¬ (f first).isSome ∨
      ¬ (f second).isSome) (hmem : a ∈ items) (hanswer : f a = some b) :
    items.findSome? f = some b := by
  induction items with
  | nil => simp at hmem
  | cons head tail ih =>
      obtain ⟨hhead, htail⟩ := List.pairwise_cons.mp hsingle
      rcases List.mem_cons.mp hmem with rfl | hmem
      · rw [List.findSome?_cons, hanswer]
      · have hnone : f head = none := by
          rcases hhead a hmem with hnone | hnone
          · simpa using hnone
          · simp [hanswer] at hnone
        rw [List.findSome?_cons, hnone]
        exact ih htail hmem

theorem Segment.isSome_read? (segment : Segment) (address : Address) :
    (segment.read? address).isSome = segment.contains address := by
  rw [Segment.read?]
  split
  · rename_i hcontains
    rw [hcontains]
    simp only [contains, Bool.and_eq_true, decide_eq_true_eq] at hcontains
    simpa using hcontains.2
  · rename_i hcontains
    simpa using hcontains

theorem Image.isSome_read? (image : Image) (address : Address) :
    (image.read? address).isSome = image.isMapped address := by
  rw [Bool.eq_iff_iff, read?, isMapped, List.findSome?_isSome_iff, List.any_eq_true]
  simp only [Segment.isSome_read?]

namespace Block.Yields

variable {rule : OffsetRule} {symbols : SymbolTable} {block : Block} {segment : Segment}

theorem length_words (hyields : block.Yields rule symbols segment) :
    segment.words.length = block.length := by
  rw [← hyields.forall₂_sites.length_eq, length_sites]

/-- The segment of a block has words at the addresses of its statements. -/
theorem contains_iff (hyields : block.Yields rule symbols segment) {address : Address} :
    segment.contains address = true ↔ block.Covers address.toNat := by
  simp only [Segment.contains, hyields.origin, hyields.length_words, Bool.and_eq_true,
    decide_eq_true_eq, Covers]
  omega

end Block.Yields

namespace Program

variable {program : Program} {config : Config} {out : Assembled}

/-- No address is covered by two blocks. -/
theorem WellPlaced.pairwise_covers (hplaced : program.WellPlaced config)
    (hsmall : ∀ block ∈ program.blocks, block.length < 2 ^ 31)
    (hconfig : config.allowOverlap = false) :
    program.blocks.Pairwise fun first second =>
      ∀ number, first.Covers number → ¬ second.Covers number := by
  refine (hplaced.apart hconfig).imp_of_mem ?_
  intro first second hmem hmem' hapart number hfirst hsecond
  rw [Block.overlaps_of_covers (hsmall second hmem') (hsmall first hmem) hsecond hfirst] at hapart
  cases hapart

/-- The addresses that blocks cover, in order. -/
def cells (program : Program) : List Nat :=
  program.blocks.flatMap fun block => List.range' block.start.toNat block.length

theorem mem_cells_iff {number : Nat} :
    number ∈ program.cells ↔ ∃ block ∈ program.blocks, block.Covers number := by
  simp only [cells, List.mem_flatMap, List.mem_range'_1, Block.Covers]

theorem WellPlaced.nodup_cells (hplaced : program.WellPlaced config)
    (hsmall : ∀ block ∈ program.blocks, block.length < 2 ^ 31)
    (hconfig : config.allowOverlap = false) : program.cells.Nodup := by
  rw [cells, List.nodup_flatMap]
  refine ⟨fun block _ => List.nodup_range' .., ?_⟩
  refine (hplaced.pairwise_covers hsmall hconfig).imp ?_
  intro first second hapart number hfirst hsecond
  exact hapart number (List.mem_range'_1.mp hfirst) (List.mem_range'_1.mp hsecond)

section Assembled

/-- A mapped address is one that a block covers. -/
theorem isMapped_iff (hassemble : (program.assemble config).value = .ok out)
    {address : Address} :
    out.image.isMapped address = true ↔
      ∃ block ∈ program.blocks, block.Covers address.toNat := by
  obtain ⟨-, hyields⟩ := assemble_eq_ok_iff.mp hassemble
  rw [Image.isMapped, List.any_eq_true]
  constructor
  · rintro ⟨segment, hsegment, hcontains⟩
    obtain ⟨place, hplace⟩ := List.mem_iff_getElem?.mp hsegment
    obtain ⟨block, hblock, hyield⟩ := forall₂_getElem? hyields.flip hplace
    exact ⟨block, List.mem_of_getElem? hblock, hyield.contains_iff.mp hcontains⟩
  · rintro ⟨block, hblock, hcovers⟩
    obtain ⟨place, hplace⟩ := List.mem_iff_getElem?.mp hblock
    obtain ⟨segment, hsegment, hyield⟩ := forall₂_getElem? hyields hplace
    exact ⟨segment, List.mem_of_getElem? hsegment, hyield.contains_iff.mpr hcovers⟩

theorem pairwise_isSome_read? (hassemble : (program.assemble config).value = .ok out)
    (hsmall : ∀ block ∈ program.blocks, block.length < 2 ^ 31)
    (hconfig : config.allowOverlap = false) (address : Address) :
    out.image.segments.Pairwise fun first second =>
      ¬ (first.read? address).isSome ∨ ¬ (second.read? address).isSome := by
  obtain ⟨-, hyields⟩ := assemble_eq_ok_iff.mp hassemble
  have hapart := (wellPlaced_of_assemble hassemble).pairwise_covers hsmall hconfig
  obtain ⟨hlength, hyield⟩ := List.forall₂_iff_get.mp hyields
  rw [List.pairwise_iff_getElem] at hapart ⊢
  intro i j hi hj hlt
  have hi' : i < program.blocks.length := hlength ▸ hi
  have hj' : j < program.blocks.length := hlength ▸ hj
  have hfirst : Block.Yields _ _ program.blocks[i] out.image.segments[i] := hyield i hi' hi
  have hsecond : Block.Yields _ _ program.blocks[j] out.image.segments[j] := hyield j hj' hj
  rw [Segment.isSome_read?, Segment.isSome_read?, hfirst.contains_iff, hsecond.contains_iff]
  exact not_or_of_imp (hapart i j hi' hj' hlt address.toNat)

/-- A word of a segment is read at the address of its statement. -/
theorem read?_of_word (hassemble : (program.assemble config).value = .ok out)
    (hsmall : ∀ block ∈ program.blocks, block.length < 2 ^ 31)
    (hconfig : config.allowOverlap = false) {place index : Nat} {block : Block}
    {segment : Segment} {word : Word} (hblock : program.blocks[place]? = some block)
    (hsegment : out.image.segments[place]? = some segment)
    (hyield : block.Yields config.offsets out.symbols segment)
    (hword : segment.words[index]? = some word) :
    (block.start.advance index).toNat = block.start.toNat + index ∧
      out.image.read? (block.start.advance index) = some word := by
  have hindex : index < block.length := by
    rw [← hyield.length_words]
    exact (List.getElem?_eq_some_iff.mp hword).1
  have hplaced := wellPlaced_of_assemble hassemble
  have hstands : program.Stands place index block (block.statements.get ⟨index, hindex⟩) :=
    ⟨hblock, List.getElem?_eq_getElem hindex⟩
  have hnumber := hplaced.toNat_advance hsmall hstands
  have hread : segment.read? (block.start.advance index) = some word := by
    rw [Segment.read?, if_pos (hyield.contains_iff.mpr (hplaced.covers hsmall hstands)),
      hyield.origin, hnumber, Nat.add_sub_cancel_left, hword]
  refine ⟨hnumber, findSome?_eq_of_pairwise (pairwise_isSome_read? hassemble hsmall hconfig _)
    (List.mem_of_getElem? hsegment) hread⟩

theorem size_eq_length_cells (hassemble : (program.assemble config).value = .ok out) :
    out.image.size = program.cells.length := by
  rw [Image.size, ← (forall₂_sites_words hassemble).length_eq, sites, cells,
    List.length_flatMap, List.length_flatMap]
  simp only [Block.length_sites, List.length_range']

/-- An image has as many words as mapped addresses. -/
theorem size_eq_countP_isMapped (hassemble : (program.assemble config).value = .ok out)
    (hsmall : ∀ block ∈ program.blocks, block.length < 2 ^ 31)
    (hconfig : config.allowOverlap = false) :
    out.image.size = (List.range memorySize).countP fun number =>
      out.image.isMapped (BitVec.ofNat 16 number) := by
  have hplaced := wellPlaced_of_assemble hassemble
  have hmapped : ∀ number, number < memorySize →
      (out.image.isMapped (BitVec.ofNat 16 number) = true ↔ number ∈ program.cells) := by
    intro number hnumber
    have hmod : number % 2 ^ 16 = number := Nat.mod_eq_of_lt hnumber
    rw [isMapped_iff hassemble, mem_cells_iff, BitVec.toNat_ofNat, hmod]
  -- Without repetition, lists with the same members have the same length.
  have hperm : program.cells.Perm ((List.range memorySize).filter fun number =>
      out.image.isMapped (BitVec.ofNat 16 number)) := by
    rw [List.perm_ext_iff_of_nodup (hplaced.nodup_cells hsmall hconfig)
      (List.nodup_range.filter _)]
    intro number
    rw [List.mem_filter, List.mem_range]
    constructor
    · intro hcell
      obtain ⟨block, hblock, -, hstop⟩ := mem_cells_iff.mp hcell
      have hnumber : number < memorySize := hstop.trans_le (hplaced.end_le hsmall hblock)
      exact ⟨hnumber, (hmapped number hnumber).mpr hcell⟩
    · rintro ⟨hnumber, hcell⟩
      exact (hmapped number hnumber).mp hcell
  rw [size_eq_length_cells hassemble, hperm.length_eq, List.countP_eq_length_filter]

end Assembled

/-- An assembled image is a memory in which no block hides another: every word is read at the
address of its statement, and nothing else is mapped. -/
theorem image_is_faithful_memory (program : Program) (config : Config) (out : Assembled)
    (hsmall : ∀ block ∈ program.blocks, block.length < 2 ^ 31)
    (hconfig : config.allowOverlap = false)
    (hassemble : (program.assemble config).value = .ok out) :
    (program.blocks.Pairwise fun first second =>
      ∀ number, first.Covers number → ¬ second.Covers number) ∧
    (∀ block ∈ program.blocks, ∀ number, block.Covers number → number < memorySize) ∧
    (∀ (place : Nat) (block : Block), program.blocks[place]? = some block →
      ∃ segment : Segment, out.image.segments[place]? = some segment ∧
        segment.words.length = block.length ∧
        ∀ (index : Nat) (word : Word), segment.words[index]? = some word →
          (block.start.advance index).toNat = block.start.toNat + index ∧
            out.image.read? (block.start.advance index) = some word) ∧
    (∀ address, (out.image.isMapped address = true ↔
        (out.image.read? address).isSome = true) ∧
      ((out.image.read? address).isSome = true ↔
        ∃ block ∈ program.blocks, block.Covers address.toNat)) ∧
    (out.image.size = (List.range memorySize).countP fun number =>
      out.image.isMapped (BitVec.ofNat 16 number)) ∧
    out.image.size ≤ memorySize := by
  have hplaced := wellPlaced_of_assemble hassemble
  have hsize := size_eq_countP_isMapped hassemble hsmall hconfig
  refine ⟨hplaced.pairwise_covers hsmall hconfig, ?_, ?_, ?_, hsize, ?_⟩
  · intro block hblock number hcovers
    exact hcovers.2.trans_le (hplaced.end_le hsmall hblock)
  · intro place block hblock
    obtain ⟨segment, hsegment, hyield⟩ :=
      forall₂_getElem? (assemble_eq_ok_iff.mp hassemble).2 hblock
    exact ⟨segment, hsegment, hyield.length_words, fun index word hword =>
      read?_of_word hassemble hsmall hconfig hblock hsegment hyield hword⟩
  · intro address
    rw [Image.isSome_read?]
    exact ⟨Iff.rfl, isMapped_iff hassemble⟩
  · calc out.image.size
        = (List.range memorySize).countP _ := hsize
      _ ≤ (List.range memorySize).length := List.countP_le_length
      _ = memorySize := List.length_range

/-- The block that ends where memory ends and the one that starts where it starts are apart. -/
theorem memory_over_memory_end :
    (overMemoryEnd.assemble {}).value = .ok overMemoryEndAssembled ∧
      overMemoryEndAssembled.image.read? 0xFFFF = some 0x01FE ∧
      overMemoryEndAssembled.image.read? 0x0000 = some 0x907F ∧
      ((List.range memorySize).countP fun number =>
        overMemoryEndAssembled.image.isMapped (BitVec.ofNat 16 number)) = 4 := by
  have hassemble : (overMemoryEnd.assemble {}).value = .ok overMemoryEndAssembled := by
    decide
  obtain ⟨-, -, hreads, -, hsize, -⟩ := image_is_faithful_memory _ _ _ (by decide) rfl hassemble
  obtain ⟨segment, hsegment, -, hread⟩ := hreads 0 _ rfl
  obtain ⟨segment', hsegment', -, hread'⟩ := hreads 1 _ rfl
  obtain rfl := Option.some.inj hsegment
  obtain rfl := Option.some.inj hsegment'
  exact ⟨hassemble, (hread 1 0x01FE rfl).2, (hread' 0 0x907F rfl).2, hsize.symm⟩

end Program

end LittleComputer
