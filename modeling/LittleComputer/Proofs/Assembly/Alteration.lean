import LittleComputer.Proofs.Assembly.Success

/-!
Programs that are altered statement by statement.  Layout and encoding go through a program one
statement after the other, so an alteration of names, addresses and statements that a table and an
instruction follow is followed by assembly: the altered program has the altered image and table, or
the altered problems, one for each.
-/
namespace LittleComputer

/-- What becomes of names, addresses, statements and tables, and of causes of problems. -/
structure Alteration where
  name : String → String
  place : Address → Address
  statement : Statement → Statement
  symbols : SymbolTable → SymbolTable
  cause : EncodeError → EncodeError

namespace Alteration

variable (change : Alteration)

def block (block : Block) : Block :=
  ⟨change.place block.start, block.statements.map change.statement⟩

def program (program : Program) : Program :=
  ⟨program.blocks.map change.block⟩

def segment (segment : Segment) : Segment :=
  ⟨change.place segment.origin, segment.words⟩

def assembled (out : Assembled) : Assembled :=
  ⟨⟨out.image.segments.map change.segment⟩, change.symbols out.symbols⟩

def error : AssemblyError → AssemblyError
  | .duplicateLabel label first second =>
      .duplicateLabel (change.name label) (change.place first) (change.place second)
  | .overlappingBlocks first second =>
      .overlappingBlocks (change.place first) (change.place second)
  | .blockOverflow origin length => .blockOverflow (change.place origin) length
  | .encoding address cause => .encoding (change.place address) (change.cause cause)

/-- Tables, addresses and instructions follow the alteration, and admitted blocks are as far from
each other and from the end of memory as before. -/
structure Followed (Admitted : Block → Prop) : Prop where
  empty : change.symbols .empty = .empty
  find? : ∀ symbols label, (change.symbols symbols).find? (change.name label) =
    (symbols.find? label).map change.place
  set : ∀ symbols label address, change.symbols (symbols.set label address) =
    (change.symbols symbols).set (change.name label) (change.place address)
  label : ∀ statement, (change.statement statement).label = statement.label.map change.name
  advance : ∀ (address : Address) index,
    change.place (address.advance index) = (change.place address).advance index
  number : ∀ rule (address : Address) symbols statement,
    Encoding.number rule (change.place address + 1) (change.symbols symbols)
        (change.statement statement).instruction =
      (Encoding.number rule (address + 1) symbols statement.instruction).mapError change.cause
  word : ∀ number statement, Encoding.word number (change.statement statement).instruction =
    Encoding.word number statement.instruction
  overflow : ∀ {block}, Admitted block →
    (memorySize < (change.block block).stop ↔ memorySize < block.stop)
  overlaps : ∀ {a b}, Admitted a → Admitted b →
    (change.block a).overlaps (change.block b) = a.overlaps b

theorem length_block (block : Block) : (change.block block).length = block.length :=
  List.length_map change.statement

namespace Followed

variable {change : Alteration} {config : Config} {Admitted : Block → Prop}

theorem located (hfollowed : change.Followed Admitted) (block : Block) :
    (change.block block).located =
      block.located.map fun entry => (change.place entry.1, change.statement entry.2) := by
  simp only [Block.located, Alteration.block, List.zipIdx_map, List.map_map]
  congr 1
  funext entry
  simp only [Function.comp_apply, hfollowed.advance]
  rfl

theorem defineAll (hfollowed : change.Followed Admitted) (symbols : SymbolTable)
    (block : Block) :
    (change.symbols symbols).defineAll (change.block block).definitions =
      (change.symbols (symbols.defineAll block.definitions).1,
        (symbols.defineAll block.definitions).2.map change.error) := by
  have hdefinitions : (change.block block).definitions =
      block.definitions.map fun entry => (change.name entry.1, change.place entry.2) := by
    simp only [Block.definitions_eq_filterMap_located, hfollowed.located, List.filterMap_map,
      List.map_filterMap]
    congr 1
    funext entry
    simp only [Function.comp_apply, hfollowed.label, Option.map_map]
    rfl
  rw [hdefinitions]
  exact SymbolTable.defineAll_map hfollowed.find? hfollowed.set (fun _ _ _ => rfl) symbols _

/-- The block in the way of an altered block is the one that was in its way. -/
theorem find?_overlaps (hfollowed : change.Followed Admitted) {earlier : List Block}
    {block : Block} (hearlier : ∀ other ∈ earlier, Admitted other) (hblock : Admitted block) :
    (earlier.map change.block).find? (change.block block).overlaps =
      (earlier.find? block.overlaps).map change.block := by
  induction earlier with
  | nil => rfl
  | cons other rest ih =>
      obtain ⟨hother, hrest⟩ := List.forall_mem_cons.mp hearlier
      simp only [List.map_cons, List.find?_cons, hfollowed.overlaps hblock hother]
      cases block.overlaps other with
      | true => rfl
      | false => exact ih hrest

theorem placementErrors (hfollowed : change.Followed Admitted) {earlier : List Block}
    {block : Block} (hearlier : ∀ other ∈ earlier, Admitted other) (hblock : Admitted block) :
    (change.block block).placementErrors config (earlier.map change.block) =
      (block.placementErrors config earlier).map change.error := by
  simp only [Block.placementErrors, hfollowed.find?_overlaps hearlier hblock,
    hfollowed.overflow hblock, length_block, List.map_append]
  congr 1
  · split <;> rfl
  · split
    · rfl
    · cases earlier.find? block.overlaps <;> rfl

theorem outcomes (hfollowed : change.Followed Admitted) (rule : OffsetRule)
    (symbols : SymbolTable) (block : Block) :
    (change.block block).outcomes rule (change.symbols symbols) =
      (block.outcomes rule symbols).map (Except.mapError change.error) := by
  simp only [Block.outcomes, Block.encode, hfollowed.located, List.map_map]
  congr 1
  funext entry
  simp only [Function.comp_apply, Logged.value_bind, Logged.value_pure,
    Encoding.value_encode, hfollowed.number, hfollowed.word]
  cases Encoding.number rule (entry.1 + 1) symbols entry.2.instruction <;> rfl

/-- Altered blocks are laid out after altered blocks as the blocks were before. -/
theorem layoutFrom (hfollowed : change.Followed Admitted) {earlier blocks : List Block}
    (symbols : SymbolTable) (hearlier : ∀ block ∈ earlier, Admitted block)
    (hblocks : ∀ block ∈ blocks, Admitted block) :
    Program.layoutFrom config (earlier.map change.block) (change.symbols symbols)
        (blocks.map change.block) =
      (change.symbols (Program.layoutFrom config earlier symbols blocks).1,
        (Program.layoutFrom config earlier symbols blocks).2.map change.error) := by
  -- A block is compared with those before it, so these have to be admitted as well.
  induction blocks generalizing earlier symbols with
  | nil => rfl
  | cons block rest ih =>
      obtain ⟨hblock, hrest⟩ := List.forall_mem_cons.mp hblocks
      have hnext : ∀ other ∈ earlier ++ [block], Admitted other := by
        intro other hother
        rcases List.mem_append.mp hother with hold | hnew
        · exact hearlier other hold
        · exact List.mem_singleton.mp hnew ▸ hblock
      have hlast := ih (symbols.defineAll block.definitions).1 hnext hrest
      rw [List.map_append, List.map_singleton] at hlast
      simp only [List.map_cons, Program.layoutFrom, hfollowed.defineAll,
        hfollowed.placementErrors hearlier hblock, hlast, List.map_append]

theorem segment (hfollowed : change.Followed Admitted) (rule : OffsetRule)
    (symbols : SymbolTable) (block : Block) :
    (change.block block).segment rule (change.symbols symbols) =
      change.segment (block.segment rule symbols) := by
  rw [Block.segment, Block.segment, hfollowed.outcomes, List.filterMap_map]
  congr 2
  funext outcome
  cases outcome <;> rfl

variable {program : Program}

theorem layout (hfollowed : change.Followed Admitted)
    (hadmitted : ∀ block ∈ program.blocks, Admitted block) :
    (change.program program).layout config =
      (change.symbols (program.layout config).1,
        (program.layout config).2.map change.error) := by
  have hlayout := @layoutFrom _ config _ hfollowed [] _ .empty (by simp) hadmitted
  rwa [hfollowed.empty] at hlayout

theorem problems (hfollowed : change.Followed Admitted)
    (hadmitted : ∀ block ∈ program.blocks, Admitted block) :
    (change.program program).problems config =
      (program.problems config).map change.error := by
  have hproblem : ∀ outcome : Except AssemblyError Word,
      problem? (outcome.mapError change.error) = (problem? outcome).map change.error := by
    intro outcome
    cases outcome <;> rfl
  rw [Program.problems, Program.problems, hfollowed.layout hadmitted, List.map_append]
  simp only [Alteration.program, List.flatMap_map, List.map_flatMap, hfollowed.outcomes,
    List.filterMap_map, List.map_filterMap, Function.comp_def, hproblem]

/-- An altered program is answered with the altered answer. -/
theorem value_assemble (hfollowed : change.Followed Admitted)
    (hadmitted : ∀ block ∈ program.blocks, Admitted block) :
    ((change.program program).assemble config).value =
      ((program.assemble config).value.map change.assembled).mapError
        (List.map change.error) := by
  have hsegments : (change.program program).blocks.map (Block.segment config.offsets
        (change.symbols (program.layout config).1)) =
      (program.blocks.map (Block.segment config.offsets (program.layout config).1)).map
        change.segment := by
    simp only [Alteration.program, List.map_map, Function.comp_def, hfollowed.segment]
  rw [Program.value_assemble, Program.value_assemble, hfollowed.problems hadmitted,
    hfollowed.layout hadmitted, hsegments]
  by_cases hnone : program.problems config = []
  · simp only [hnone, List.map_nil, if_true]
    rfl
  · simp only [hnone, List.map_eq_nil_iff, if_false]
    rfl

end Followed

end Alteration

end LittleComputer
