import LittleComputer.Proofs.Assembly.Success
import LittleComputer.Proofs.Instruction.Canonical
import LittleComputer.Proofs.Instruction.Symbolic

/-!
Reassembly.  Every word of an image can be read back, with labels shown where the table has them.
Label or number, the instruction that is read back has the word it came from, and layout looks at
starts and labels only.  So the program that is read back is assembled to the same image and table.
-/
namespace LittleComputer

open Bits

theorem mapM_cons_eq_ok {ε α β : Type} {f : α → Except ε β} {a : α} {rest : List α} {b : β}
    {results : List β} (hhead : f a = .ok b) (hrest : rest.mapM f = .ok results) :
    (a :: rest).mapM f = .ok (b :: results) := by
  rw [List.mapM_cons, hhead, hrest]
  rfl

namespace Encoding

/-- The word of an instruction is read back as an instruction that has this word again. -/
theorem encode_symbolic_of_encode {rule : OffsetRule} {next : Address}
    {symbols : SymbolTable} {instruction : Instruction} {encoded : Word}
    (hencode : (instruction.encode rule next symbols).run.value = .ok encoded) :
    ∃ decoded, decode encoded = .ok decoded ∧
      ((decoded.symbolic next symbols).encode rule next symbols).run.value =
        .ok encoded := by
  obtain ⟨value, -, hword⟩ := value_encode_eq_ok_iff.mp hencode
  have hdecode : decode encoded = .ok (instruction.withNumber value) :=
    hword ▸ decode_word value instruction
  have hagain := encode_of_decode hdecode rule next symbols
  rw [word_of_decode_encoded hencode hdecode] at hagain
  exact ⟨_, hdecode, encode_symbolic_of_ok hagain⟩

end Encoding

/-- Blocks at one address with the same labels in the same places. -/
structure Block.SameOutline (first second : Block) : Prop where
  start : first.start = second.start
  labels : first.statements.map Statement.label = second.statements.map Statement.label

namespace Block.SameOutline

variable {config : Config} {a a' b b' : Block} {earlier earlier' : List Block}

theorem length_eq (hsame : a.SameOutline a') : a.length = a'.length := by
  have hlength := congrArg List.length hsame.labels
  rwa [List.length_map, List.length_map] at hlength

theorem stop_eq (hsame : a.SameOutline a') : a.stop = a'.stop := by
  rw [stop, stop, hsame.start, hsame.length_eq]

theorem overlaps_eq (ha : a.SameOutline a') (hb : b.SameOutline b') :
    a.overlaps b = a'.overlaps b' := by
  rw [Bool.eq_iff_iff, overlaps_iff, overlaps_iff, ha.length_eq, hb.length_eq, ha.stop_eq,
    hb.stop_eq, ha.start, hb.start]

theorem definitions_eq (hsame : a.SameOutline a') : a.definitions = a'.definitions := by
  have hlabels : ∀ block : Block, block.definitions =
      (block.statements.map Statement.label).zipIdx.filterMap fun (label, index) =>
        label.map fun name => (name, block.start.advance index) := by
    intro block
    rw [definitions_eq_filterMap_located, located, List.zipIdx_map, List.filterMap_map,
      List.filterMap_map]
    rfl
  rw [hlabels, hlabels, hsame.start, hsame.labels]

theorem placementErrors_eq (hearlier : List.Forall₂ SameOutline earlier earlier')
    (hsame : a.SameOutline a') :
    a.placementErrors config earlier = a'.placementErrors config earlier' := by
  have hclash : ∀ block : Block, ∀ blocks : List Block,
      (blocks.find? block.overlaps).map (fun clash =>
        AssemblyError.overlappingBlocks clash.start block.start) =
      ((blocks.find? block.overlaps).map Block.start).map fun start =>
        .overlappingBlocks start block.start := by
    intro block blocks
    rw [Option.map_map]
    rfl
  have hfirst : (earlier.find? a.overlaps).map Block.start =
      (earlier'.find? a'.overlaps).map Block.start := by
    induction hearlier with
    | nil => rfl
    | cons hhead _ ih =>
        simp only [List.find?_cons, hsame.overlaps_eq hhead]
        split
        · exact congrArg some hhead.start
        · exact ih
  rw [placementErrors, placementErrors, hclash, hclash, hfirst, hsame.stop_eq,
    hsame.length_eq, hsame.start]

end Block.SameOutline

/-- Layout looks at the starts and the labels of a program, not at its instructions. -/
theorem Program.layoutFrom_eq_of_outline {config : Config} {earlier earlier' : List Block}
    {blocks blocks' : List Block} (symbols : SymbolTable)
    (hearlier : List.Forall₂ Block.SameOutline earlier earlier')
    (hblocks : List.Forall₂ Block.SameOutline blocks blocks') :
    layoutFrom config earlier symbols blocks = layoutFrom config earlier' symbols blocks' := by
  -- Each block is compared with those before it, so both lists of them grow together.
  induction hblocks generalizing earlier earlier' symbols with
  | nil => rfl
  | cons hhead _ ih =>
      have hnext := List.rel_append hearlier (.cons hhead .nil)
      simp only [layoutFrom, hhead.definitions_eq, hhead.placementErrors_eq hearlier,
        ih _ hnext]

/-- A statement with its instruction read back from a word, by label where the table has one. -/
def Site.readBack (symbols : SymbolTable) (site : Site) (word : Word) :
    Except DecodeError Statement :=
  (decode word).map fun decoded =>
    ⟨site.statement.label,
      decoded.symbolic (site.block.start.advance (site.index + 1)) symbols⟩

def Block.readBack (symbols : SymbolTable) (block : Block) (segment : Segment) :
    Except DecodeError Block :=
  ((block.sites.zip segment.words).mapM fun (site, word) =>
    Site.readBack symbols site word).map (⟨block.start, ·⟩)

/-- A program with its instructions read back from what it was assembled to. -/
def Program.readBack (program : Program) (out : Assembled) : Except DecodeError Program :=
  ((program.blocks.zip out.image.segments).mapM fun (block, segment) =>
    Block.readBack out.symbols block segment).map (⟨·⟩)

section ReadBack

variable {rule : OffsetRule} {symbols : SymbolTable}

/-- The statement read back from the word of a statement keeps the label and has this word. -/
theorem Site.readBack_of_encode {site : Site} {word : Word}
    (hencode : (site.statement.instruction.encode rule (site.address + 1)
      symbols).run.value = .ok word) :
    ∃ again, site.readBack symbols word = .ok again ∧
      again.label = site.statement.label ∧
      (again.instruction.encode rule (site.address + 1) symbols).run.value = .ok word := by
  obtain ⟨decoded, hdecode, hagain⟩ := Encoding.encode_symbolic_of_encode hencode
  refine ⟨⟨site.statement.label, decoded.symbolic (site.address + 1) symbols⟩, ?_, rfl, hagain⟩
  rw [readBack, hdecode, Address.advance_succ]
  rfl

/-- What is read back from the last words of a block, from number `index` on. -/
theorem Block.readBack_statements (block : Block) {index : Nat} {statements : List Statement}
    {words : List Word}
    (hwords : List.Forall₂ (fun entry word =>
      (entry.1.instruction.encode rule (block.start.advance entry.2 + 1)
        symbols).run.value = .ok word) (statements.zipIdx index) words) :
    ∃ again, (((statements.zipIdx index).map fun (statement, index) =>
        (⟨block, index, statement⟩ : Site)).zip words).mapM
          (fun (site, word) => Site.readBack symbols site word) = .ok again ∧
      statements.map Statement.label = again.map Statement.label ∧
      List.Forall₂ (fun entry word =>
        (entry.1.instruction.encode rule (block.start.advance entry.2 + 1)
          symbols).run.value = .ok word) (again.zipIdx index) words := by
  -- A statement's address goes with its number, so `index` moves along the induction.
  induction statements generalizing index words with
  | nil =>
      cases hwords
      exact ⟨[], rfl, rfl, .nil⟩
  | cons statement rest ih =>
      cases hwords with
      | cons hword hrest =>
          obtain ⟨again, hread, hlabel, hencode⟩ :=
            @Site.readBack_of_encode rule symbols ⟨block, index, statement⟩ _ hword
          obtain ⟨others, hreads, hlabels, hencodes⟩ := ih hrest
          refine ⟨again :: others, mapM_cons_eq_ok hread hreads, ?_, .cons hencode hencodes⟩
          rw [List.map_cons, List.map_cons, hlabel, hlabels]

/-- What is read back from the segment of a block has its outline and yields the segment again. -/
theorem Block.Yields.readBack {block : Block} {segment : Segment}
    (hyields : block.Yields rule symbols segment) :
    ∃ again, block.readBack symbols segment = .ok again ∧ block.SameOutline again ∧
      again.Yields rule symbols segment := by
  have hwords := hyields.words
  rw [located, List.forall₂_map_left_iff] at hwords
  obtain ⟨again, hread, hlabels, hagain⟩ := block.readBack_statements hwords
  refine ⟨⟨block.start, again⟩, ?_, ⟨rfl, hlabels⟩, hyields.origin, ?_⟩
  · rw [Block.readBack, sites, hread]
    rfl
  · rw [located, List.forall₂_map_left_iff]
    exact hagain

/-- What is read back from the segments of a program's blocks, block by block. -/
theorem Program.readBack_blocks {blocks : List Block} {segments : List Segment}
    (hyields : List.Forall₂ (Block.Yields rule symbols) blocks segments) :
    ∃ again, (blocks.zip segments).mapM
        (fun (block, segment) => Block.readBack symbols block segment) = .ok again ∧
      List.Forall₂ Block.SameOutline blocks again ∧
      List.Forall₂ (Block.Yields rule symbols) again segments := by
  induction hyields with
  | nil => exact ⟨[], rfl, .nil, .nil⟩
  | cons hhead _ ih =>
      obtain ⟨again, hread, houtline, hyield⟩ := hhead.readBack
      obtain ⟨others, hreads, houtlines, hyields⟩ := ih
      exact ⟨again :: others, mapM_cons_eq_ok hread hreads, .cons houtline houtlines,
        .cons hyield hyields⟩

end ReadBack

namespace Program

/-- Every word of an image decodes, and the program that is read back, with starts and labels as
they were, is assembled to the same image and table. -/
theorem read_back_program_is_fixed_point (program : Program) (config : Config)
    (out : Assembled) (hassemble : (program.assemble config).value = .ok out) :
    (∀ word ∈ out.image.words, ∃ decoded, decode word = .ok decoded) ∧
      ∃ again, program.readBack out = .ok again ∧
        List.Forall₂ Block.SameOutline program.blocks again.blocks ∧
        (again.assemble config).value = .ok out := by
  obtain ⟨hlayout, hyields⟩ := assemble_eq_ok_iff.mp hassemble
  constructor
  · intro word hword
    obtain ⟨index, hindex⟩ := List.mem_iff_getElem?.mp hword
    obtain ⟨site, -, hencode⟩ :=
      forall₂_getElem? (forall₂_sites_words hassemble).flip hindex
    obtain ⟨decoded, hdecode, -⟩ := Encoding.encode_symbolic_of_encode hencode
    exact ⟨decoded, hdecode⟩
  · obtain ⟨again, hread, houtline, hagain⟩ := readBack_blocks hyields
    refine ⟨⟨again⟩, ?_, houtline, assemble_eq_ok_iff.mpr ⟨?_, hagain⟩⟩
    · rw [readBack, hread]
      rfl
    · rw [← hlayout]
      exact (layoutFrom_eq_of_outline .empty .nil houtline).symm

/-- A branch to a label just out of its reach, and a load by number from a labelled address.  The
last block lies inside the first. -/
def outOfReach : Program where
  blocks := [
    ⟨0x3000, [
      ⟨some "A", .branch ⟨true, true, true⟩ (.label "FAR")⟩,
      ⟨some "B", .relative .ld .link (.offset (-2))⟩]⟩,
    ⟨0x3201, [⟨some "FAR", .jump .link⟩]⟩,
    ⟨0x3001, [⟨some "C", .alu .and .link .link (.immediate (-16))⟩]⟩]

def outOfReachAssembled : Assembled where
  image := ⟨[⟨0x3000, [0x0E00, 0x2FFE]⟩, ⟨0x3201, [0xC1C0]⟩, ⟨0x3001, [0x5FF0]⟩]⟩
  symbols := Dictionary.ofList [("A", 0x3000), ("B", 0x3001), ("C", 0x3001), ("FAR", 0x3201)]

/-- Where offsets wrap, a branch can be read back with a label that its source does not have. -/
theorem branch_out_of_reach_is_read_back :
    (outOfReach.assemble ⟨.wrap, true⟩).value = .ok outOfReachAssembled ∧
      ∃ again, outOfReach.readBack outOfReachAssembled = .ok again ∧
        (again.blocks.head?.bind fun block => block.statements.head?) =
          some ⟨some "A", .branch ⟨true, true, true⟩ (.label "B")⟩ ∧
        (again.assemble ⟨.wrap, true⟩).value = .ok outOfReachAssembled := by
  have hassemble : (outOfReach.assemble ⟨.wrap, true⟩).value = .ok outOfReachAssembled := by
    decide
  obtain ⟨-, again, hread, -, hagain⟩ := read_back_program_is_fixed_point _ _ _ hassemble
  refine ⟨hassemble, again, hread, ?_, hagain⟩
  have hfirst : (outOfReach.readBack outOfReachAssembled).toOption.bind (fun again =>
      again.blocks.head?.bind fun block => block.statements.head?) =
        some ⟨some "A", .branch ⟨true, true, true⟩ (.label "B")⟩ := by
    decide
  rw [hread] at hfirst
  exact hfirst

end Program

end LittleComputer
