import LittleComputer.Proofs.Assembly.Layout
import LittleComputer.Proofs.Instruction.RoundTrip
import Mathlib.Data.List.Forall2

/-!
Success of assembling.  A program is assembled exactly if its layout has no problems and every
statement is encoded against the finished table; then the image has one segment for each block and
one word for each statement.
-/
namespace LittleComputer

/-- Outcomes without a problem are the results, each of them there. -/
theorem eq_map_ok_iff {α : Type} {outcomes : List (Except AssemblyError α)}
    {results : List α} :
    outcomes = results.map .ok ↔
      outcomes.filterMap problem? = [] ∧
        results = outcomes.filterMap Except.toOption := by
  induction outcomes generalizing results with
  | nil => cases results <;> simp
  | cons outcome rest ih =>
      cases outcome with
      | error error => cases results <;> simp [problem?]
      | ok result =>
          cases results with
          | nil => simp [Except.toOption]
          | cons head tail =>
              simp only [List.map_cons, List.cons.injEq, Except.ok.injEq, ih,
                List.filterMap_cons, problem?, Except.toOption]
              constructor
              · rintro ⟨rfl, hnone, rfl⟩
                exact ⟨hnone, rfl, rfl⟩
              · rintro ⟨hnone, rfl, rfl⟩
                exact ⟨rfl, hnone, rfl⟩

theorem forall₂_getElem? {α β : Type} {R : α → β → Prop} {first : List α}
    {second : List β} (hrelated : List.Forall₂ R first second) {index : Nat} {a : α}
    (hitem : first[index]? = some a) : ∃ b, second[index]? = some b ∧ R a b := by
  obtain ⟨hlt, rfl⟩ := List.getElem?_eq_some_iff.mp hitem
  have hlt' : index < second.length := hrelated.length_eq ▸ hlt
  exact ⟨second[index], List.getElem?_eq_getElem hlt', hrelated.get hlt hlt'⟩

theorem mapError_eq_ok_iff {ε ε' α : Type} {outcome : Except ε α} {f : ε → ε'} {a : α} :
    outcome.mapError f = .ok a ↔ outcome = .ok a := by
  cases outcome <;> simp [Except.mapError]

namespace Block

/-- Words or problems of a block's statements, without what is said on the way. -/
def outcomes (rule : OffsetRule) (symbols : SymbolTable) (block : Block) :
    List (Except AssemblyError Word) :=
  (block.encode rule symbols).map Logged.value

/-- The start of a block and the words of those of its statements that have one. -/
def segment (rule : OffsetRule) (symbols : SymbolTable) (block : Block) : Segment :=
  ⟨block.start, (block.outcomes rule symbols).filterMap Except.toOption⟩

/-- The segment of a block without problems: its start, and a word for each statement. -/
structure Yields (rule : OffsetRule) (symbols : SymbolTable) (block : Block)
    (segment : Segment) : Prop where
  origin : segment.origin = block.start
  words : List.Forall₂ (fun located word =>
    (located.2.instruction.encode rule (located.1 + 1) symbols).run.value = .ok word)
    block.located segment.words

theorem outcomes_eq_map_ok_iff {rule : OffsetRule} {symbols : SymbolTable}
    {block : Block} {words : List Word} :
    block.outcomes rule symbols = words.map .ok ↔
      List.Forall₂ (fun located word =>
        (located.2.instruction.encode rule (located.1 + 1) symbols).run.value =
          .ok word) block.located words := by
  rw [← List.forall₂_eq_eq_eq, outcomes, encode, List.map_map,
    List.forall₂_map_left_iff, List.forall₂_map_right_iff]
  simp only [Function.comp_apply, Logged.value_bind, Logged.value_pure,
    mapError_eq_ok_iff]

theorem Yields.forall₂_sites {rule : OffsetRule} {symbols : SymbolTable} {block : Block}
    {segment : Segment} (hyields : block.Yields rule symbols segment) :
    List.Forall₂ (fun site word =>
      (site.statement.instruction.encode rule (site.address + 1) symbols).run.value =
        .ok word) block.sites segment.words := by
  have hwords := hyields.words
  rwa [located_eq_map_sites, List.forall₂_map_left_iff] at hwords

/-- A block yields a segment exactly if none of its statements is refused. -/
theorem yields_iff {rule : OffsetRule} {symbols : SymbolTable} {block : Block}
    {segment : Segment} :
    block.Yields rule symbols segment ↔
      (block.outcomes rule symbols).filterMap problem? = [] ∧
        segment = block.segment rule symbols := by
  obtain ⟨origin, words⟩ := segment
  rw [Block.segment, Segment.mk.injEq]
  constructor
  · rintro ⟨horigin, hwords⟩
    obtain ⟨hnone, heq⟩ := eq_map_ok_iff.mp (outcomes_eq_map_ok_iff.mpr hwords)
    exact ⟨hnone, horigin, heq⟩
  · rintro ⟨hnone, horigin, heq⟩
    exact ⟨horigin, outcomes_eq_map_ok_iff.mp (eq_map_ok_iff.mpr ⟨hnone, heq⟩)⟩

/-- Blocks yield segments exactly if no statement is refused, and then each its own. -/
theorem forall₂_yields_iff {rule : OffsetRule} {symbols : SymbolTable} {blocks : List Block}
    {segments : List Segment} :
    List.Forall₂ (Yields rule symbols) blocks segments ↔
      (∀ block ∈ blocks, (block.outcomes rule symbols).filterMap problem? = []) ∧
        blocks.map (segment rule symbols) = segments := by
  have heq : blocks.map (segment rule symbols) = segments ↔
      List.Forall₂ (fun block found => found = block.segment rule symbols)
        blocks segments := by
    rw [← List.forall₂_eq_eq_eq, List.forall₂_map_left_iff]
    simp only [eq_comm]
  rw [heq, ← List.forall₂_and_left]
  constructor
  · exact List.Forall₂.imp fun _ _ => yields_iff.mp
  · exact List.Forall₂.imp fun _ _ => yields_iff.mpr

end Block

namespace Program

/-- All problems of a program: those of its layout, then those of its statements. -/
def problems (program : Program) (config : Config) : List AssemblyError :=
  (program.layout config).2 ++ program.blocks.flatMap fun block =>
    (block.outcomes config.offsets (program.layout config).1).filterMap problem?

theorem value_assemble (program : Program) (config : Config) :
    (program.assemble config).value =
      if program.problems config = [] then
        .ok ⟨⟨program.blocks.map (Block.segment config.offsets (program.layout config).1)⟩,
          (program.layout config).1⟩
      else .error (program.problems config) := by
  have hencoded : ∀ symbols : SymbolTable,
      (Logged.all (program.blocks.map fun block =>
        Logged.all (block.encode config.offsets symbols))).value =
          program.blocks.map (Block.outcomes config.offsets symbols) := by
    intro symbols
    simp only [Logged.all, List.map_map]
    rfl
  have hsegments : ∀ (symbols : SymbolTable) (blocks : List Block),
      (blocks.zip (blocks.map (Block.outcomes config.offsets symbols))).map
          (fun entry =>
            (⟨entry.1.start, entry.2.filterMap Except.toOption⟩ : Segment)) =
        blocks.map (Block.segment config.offsets symbols) := by
    intro symbols blocks
    induction blocks with
    | nil => rfl
    | cons block rest ih => simp [Block.segment, ih]
  have hproblems : program.problems config = (program.layout config).2 ++
      (program.blocks.map (Block.outcomes config.offsets
        (program.layout config).1)).flatten.filterMap problem? := by
    rw [problems, List.filterMap_flatten, List.map_map, List.flatMap_def]
    rfl
  simp only [assemble, Logged.value_bind, hencoded, ← hproblems]
  by_cases hnone : program.problems config = []
  · simp [hnone, hsegments]
  · simp [hnone]

/-- A program is assembled exactly if it can be laid out and each block yields its segment. -/
theorem assemble_eq_ok_iff {program : Program} {config : Config} {out : Assembled} :
    (program.assemble config).value = .ok out ↔
      program.layout config = (out.symbols, []) ∧
        List.Forall₂ (Block.Yields config.offsets out.symbols)
          program.blocks out.image.segments := by
  obtain ⟨⟨segments⟩, symbols⟩ := out
  rw [value_assemble, Block.forall₂_yields_iff]
  by_cases hnone : program.problems config = []
  · rw [if_pos hnone]
    rw [problems, List.append_eq_nil_iff, List.flatMap_eq_nil_iff] at hnone
    simp only [Except.ok.injEq, Assembled.mk.injEq, Image.mk.injEq, Prod.ext_iff, hnone.1,
      and_true]
    constructor
    · rintro ⟨hsegments, rfl⟩
      exact ⟨rfl, hnone.2, hsegments⟩
    · rintro ⟨rfl, -, hsegments⟩
      exact ⟨hsegments, rfl⟩
  · rw [if_neg hnone]
    simp only [reduceCtorEq, false_iff]
    rintro ⟨hlayout, houtcomes, -⟩
    apply hnone
    rw [problems, hlayout, List.append_eq_nil_iff, List.flatMap_eq_nil_iff]
    exact ⟨rfl, houtcomes⟩

/-- A program that is not assembled is answered with all of its problems. -/
theorem assemble_eq_error_iff {program : Program} {config : Config}
    {errors : List AssemblyError} :
    (program.assemble config).value = .error errors ↔
      program.problems config = errors ∧ errors ≠ [] := by
  rw [value_assemble]
  by_cases hnone : program.problems config = []
  · simp [hnone]
  · rw [if_neg hnone, Except.error.injEq]
    constructor
    · rintro rfl
      exact ⟨rfl, hnone⟩
    · exact And.left

section Assembled

variable {program : Program} {config : Config} {out : Assembled}

theorem wellPlaced_of_assemble
    (hassemble : (program.assemble config).value = .ok out) :
    program.WellPlaced config := by
  rw [← layout_errors_eq_nil_iff, (assemble_eq_ok_iff.mp hassemble).1]

theorem find?_symbols_iff
    (hassemble : (program.assemble config).value = .ok out) {label : String}
    {address : Address} :
    out.symbols.find? label = some address ↔
      ∃ place index block statement, program.Stands place index block statement ∧
        statement.label = some label ∧ block.start.advance index = address := by
  have hlayout := (assemble_eq_ok_iff.mp hassemble).1
  rw [← (wellPlaced_of_assemble hassemble).find?_layout_iff, hlayout]

/-- The word of a statement is in the segment of its block, at the index of the statement. -/
theorem word_of_stands (hassemble : (program.assemble config).value = .ok out)
    {place index : Nat} {block : Block} {statement : Statement}
    (hstands : program.Stands place index block statement) :
    ∃ segment word, out.image.segments[place]? = some segment ∧
      segment.origin = block.start ∧ segment.words[index]? = some word ∧
      (statement.instruction.encode config.offsets
        (block.start.advance (index + 1)) out.symbols).run.value = .ok word := by
  obtain ⟨-, hyields⟩ := assemble_eq_ok_iff.mp hassemble
  obtain ⟨segment, hsegment, hyield⟩ := forall₂_getElem? hyields hstands.block_at
  have hsite : block.sites[index]? = some ⟨block, index, statement⟩ := by
    rw [Block.getElem?_sites, hstands.statement_at, Option.map_some]
  obtain ⟨word, hword, hencode⟩ := forall₂_getElem? hyield.forall₂_sites hsite
  refine ⟨segment, word, hsegment, hyield.origin, hword, ?_⟩
  rw [Address.advance_succ]
  exact hencode

/-- The words of an image are those of the statements, in order. -/
theorem forall₂_sites_words (hassemble : (program.assemble config).value = .ok out) :
    List.Forall₂ (fun site word =>
      (site.statement.instruction.encode config.offsets (site.address + 1)
        out.symbols).run.value = .ok word) program.sites out.image.words := by
  obtain ⟨-, hyields⟩ := assemble_eq_ok_iff.mp hassemble
  exact List.rel_flatMap hyields fun _ _ hyield => hyield.forall₂_sites

end Assembled

/-- Two blocks that meet where memory ends and starts, each with a label for the other. -/
def overMemoryEnd : Program where
  blocks := [
    ⟨0xFFFE, [
      ⟨some "TOP", .branch ⟨true, true, true⟩ (.label "LOW")⟩,
      ⟨none, .branch .never (.label "TOP")⟩]⟩,
    ⟨0x0000, [
      ⟨none, .not (0#3).toFin (1#3).toFin⟩,
      ⟨some "LOW", .relative .lea (2#3).toFin (.label "TOP")⟩]⟩]

def overMemoryEndAssembled : Assembled where
  image := ⟨[⟨0xFFFE, [0x0E02, 0x01FE]⟩, ⟨0x0000, [0x907F, 0xE5FC]⟩]⟩
  symbols := Dictionary.ofList [("LOW", 0x0001), ("TOP", 0xFFFE)]

end Program

end LittleComputer

/-!
Resolution of labels in assembled programs.  An operand that is a label is encoded as a distance
that leads from its own statement to the one statement that carries the label, in whichever block
and on whichever side of the end of memory that statement is.
-/
namespace LittleComputer.Program

/-- Under the strict rule, a label operand of an assembled program reaches the one statement that
carries the label. -/
theorem label_operand_reaches_its_statement (program : Program) (config : Config)
    (out : Assembled) (hrule : config.offsets = .strict)
    (hassemble : (program.assemble config).value = .ok out)
    {place index : Nat} {block : Block} {statement : Statement} {label : String}
    (hstands : program.Stands place index block statement)
    (hlabel : statement.instruction.label? = some label) :
    ∃ place' index' block' statement',
      program.Stands place' index' block' statement' ∧
      statement'.label = some label ∧
      (∀ place'' index'' block'' statement'',
        program.Stands place'' index'' block'' statement'' →
          statement''.label = some label → place'' = place' ∧ index'' = index') ∧
      out.symbols.find? label = some (block'.start.advance index') ∧
      ∃ segment word decoded,
        out.image.segments[place]? = some segment ∧
        segment.origin = block.start ∧
        segment.words[index]? = some word ∧
        decode word = .ok decoded ∧
        decoded.destination? (block.start.advance (index + 1)) =
          some (block'.start.advance index') := by
  obtain ⟨segment, word, hsegment, horigin, hword, hencode⟩ :=
    word_of_stands hassemble hstands
  obtain ⟨width, htarget⟩ := Instruction.label?_eq_some_iff.mp hlabel
  rw [hrule] at hencode
  obtain ⟨address, decoded, hfind, hdecode, hdestination, -⟩ :=
    Encoding.destination?_of_encode_strict hencode htarget
  obtain ⟨place', index', block', statement', hstands', hlabel', rfl⟩ :=
    (find?_symbols_iff hassemble).mp hfind
  refine ⟨place', index', block', statement', hstands', hlabel', ?_, hfind,
    segment, word, decoded, hsegment, horigin, hword, hdecode, hdestination⟩
  intro place'' index'' block'' statement'' hstands'' hlabel''
  exact (wellPlaced_of_assemble hassemble).site_of_label hstands'' hstands'
    hlabel'' hlabel'

/-- The last statement of the second block refers back to the first one, over the end of memory. -/
theorem load_address_reaches_over_memory_end :
    (overMemoryEnd.assemble {}).value = .ok overMemoryEndAssembled ∧
      ∃ decoded, decode 0xE5FC = .ok decoded ∧
        decoded.destination? 0x0002 = some 0xFFFE := by
  have hassemble : (overMemoryEnd.assemble {}).value = .ok overMemoryEndAssembled := by
    decide
  have hstands : overMemoryEnd.Stands 1 1 _
      ⟨some "LOW", .relative .lea 2 (.label "TOP")⟩ := ⟨rfl, rfl⟩
  obtain ⟨_, _, _, _, -, -, -, hfind, segment, word, decoded, hsegment, -, hword,
      hdecode, hdestination⟩ :=
    label_operand_reaches_its_statement _ _ _ rfl hassemble hstands rfl
  obtain rfl := Option.some.inj hsegment
  obtain rfl := Option.some.inj hword
  have htop : overMemoryEndAssembled.symbols.find? "TOP" = some 0xFFFE := by decide
  rw [← hfind, htop] at hdestination
  exact ⟨hassemble, decoded, hdecode, hdestination⟩

end LittleComputer.Program
