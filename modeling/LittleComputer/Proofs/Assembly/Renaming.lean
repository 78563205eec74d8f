import LittleComputer.Proofs.Assembly.Acceptance
import LittleComputer.Proofs.Assembly.Alteration
import Mathlib.Logic.Equiv.Basic

/-!
Renaming.  A label is only compared with other labels, and only for equality, so different names in
the place of different names make no difference: a program whose labels are renamed has the same
words or the same problems, and its table and its problems have the new names.
-/
namespace LittleComputer

def Target.renamed (f : String → String) : Target → Target
  | .offset distance => .offset distance
  | .label name => .label (f name)

def Instruction.renamed (f : String → String) : Instruction → Instruction
  | .branch condition target => .branch condition (target.renamed f)
  | .relative op register target => .relative op register (target.renamed f)
  | .call (.relative target) => .call (.relative (target.renamed f))
  | other => other

def Statement.renamed (f : String → String) (statement : Statement) : Statement :=
  ⟨statement.label.map f, statement.instruction.renamed f⟩

def Block.renamed (f : String → String) (block : Block) : Block :=
  ⟨block.start, block.statements.map (Statement.renamed f)⟩

/-- The program with every label and every label operand renamed. -/
def Program.renamed (f : String → String) (program : Program) : Program :=
  ⟨program.blocks.map (Block.renamed f)⟩

def SymbolTable.renamed (f : String → String) (symbols : SymbolTable) : SymbolTable :=
  Dictionary.ofList (symbols.entries.map fun entry => (f entry.1, entry.2))

def EncodeError.renamed (f : String → String) : EncodeError → EncodeError
  | .unresolvedLabel label => .unresolvedLabel (f label)
  | .offsetOutOfRange label offset bits => .offsetOutOfRange (f label) offset bits
  | .fieldOutOfRange field value bits => .fieldOutOfRange field value bits

def AssemblyError.renamed (f : String → String) : AssemblyError → AssemblyError
  | .duplicateLabel label first second => .duplicateLabel (f label) first second
  | .overlappingBlocks first second => .overlappingBlocks first second
  | .blockOverflow origin length => .blockOverflow origin length
  | .encoding address cause => .encoding address (cause.renamed f)

variable {f : String → String}

namespace SymbolTable

/-- The names of a renamed table are the new names of the old ones. -/
theorem find?_renamed_eq_some_iff (hinjective : Function.Injective f) {symbols : SymbolTable}
    {name : String} {address : Address} :
    (symbols.renamed f).find? name = some address ↔
      ∃ old, f old = name ∧ symbols.find? old = some address := by
  have hnodup : ((symbols.entries.map fun entry => (f entry.1, entry.2)).reverse.map
      Prod.fst).Nodup := by
    have hnames := symbols.nodup_names.map hinjective
    rw [List.map_reverse, List.nodup_reverse]
    rwa [List.map_map] at hnames ⊢
  rw [renamed, Dictionary.find?_ofList, Dictionary.lookup_eq_some_iff hnodup,
    List.mem_reverse, List.mem_map]
  constructor
  · rintro ⟨⟨old, value⟩, hmem, hpair⟩
    obtain ⟨rfl, rfl⟩ := Prod.mk.inj hpair
    exact ⟨old, rfl, Dictionary.mem_entries_iff.mp hmem⟩
  · rintro ⟨old, rfl, hfind⟩
    exact ⟨(old, address), Dictionary.mem_entries_iff.mpr hfind, rfl⟩

theorem find?_renamed (hinjective : Function.Injective f) (symbols : SymbolTable)
    (label : String) : (symbols.renamed f).find? (f label) = symbols.find? label := by
  apply Option.ext
  intro address
  rw [find?_renamed_eq_some_iff hinjective]
  constructor
  · rintro ⟨old, hold, hfind⟩
    rwa [← hinjective hold]
  · intro hfind
    exact ⟨label, rfl, hfind⟩

theorem find?_renamed_of_ne (hinjective : Function.Injective f) (symbols : SymbolTable)
    {name : String} (hnew : ∀ old, f old ≠ name) :
    (symbols.renamed f).find? name = none := by
  rw [Option.eq_none_iff_forall_ne_some]
  intro address hfind
  obtain ⟨old, hold, -⟩ := (find?_renamed_eq_some_iff hinjective).mp hfind
  exact hnew old hold

theorem renamed_set (hinjective : Function.Injective f) (symbols : SymbolTable)
    (label : String) (address : Address) :
    SymbolTable.renamed f (symbols.set label address) =
      (symbols.renamed f).set (f label) address := by
  -- New names may be in another order, so the tables are compared by what is found in them.
  apply Dictionary.eq_of_find?_eq
  intro name
  rw [Dictionary.find?_set]
  by_cases hold : ∃ old, f old = name
  · obtain ⟨old, rfl⟩ := hold
    rw [find?_renamed hinjective, find?_renamed hinjective, Dictionary.find?_set]
    simp only [hinjective.eq_iff]
  · push Not at hold
    rw [find?_renamed_of_ne hinjective _ hold, find?_renamed_of_ne hinjective _ hold,
      if_neg (hold label).symm]

end SymbolTable

namespace Instruction

theorem target?_renamed (instruction : Instruction) :
    (instruction.renamed f).target? =
      instruction.target?.map fun entry => (entry.1.renamed f, entry.2) := by
  rcases instruction with _ | _ | _ | (_ | _) | _ | _ | _ <;> rfl

/-- An instruction without a label operand stays as it is. -/
theorem renamed_of_label?_eq_none {instruction : Instruction}
    (hlabel : instruction.label? = none) : instruction.renamed f = instruction := by
  rcases instruction with _ | ⟨_, _ | _⟩ | _ | (_ | _ | _) | ⟨_, _, _ | _⟩ | _ | _
  case branch.label | call.relative.label | relative.label => cases hlabel
  all_goals rfl

end Instruction

namespace Encoding

theorem word_renamed (number : Int) (instruction : Instruction) :
    word number (instruction.renamed f) = word number instruction := by
  rcases instruction with _ | _ | _ | (_ | _) | _ | _ | _ <;> rfl

theorem checked_mapError (field : String) (value : Int) (width : Nat) :
    (checked field value width).mapError (EncodeError.renamed f) =
      checked field value width := by
  rw [checked]
  split <;> rfl

/-- A label under its new name counts as before, or is refused under its new name. -/
theorem number_renamed (hinjective : Function.Injective f) (rule : OffsetRule)
    (next : Address) (symbols : SymbolTable) (instruction : Instruction) :
    number rule next (symbols.renamed f) (instruction.renamed f) =
      (number rule next symbols instruction).mapError (EncodeError.renamed f) := by
  cases hlabel : instruction.label? with
  | none =>
      rw [Instruction.renamed_of_label?_eq_none hlabel]
      cases hnumeral : instruction.numeral? with
      | none =>
          rw [number_of_plain hnumeral hlabel, number_of_plain hnumeral hlabel]
          rfl
      | some entry =>
          rw [number_of_numeral hnumeral, number_of_numeral hnumeral, checked_mapError]
  | some name =>
      obtain ⟨width, htarget⟩ := Instruction.label?_eq_some_iff.mp hlabel
      have hrenamed := @Instruction.target?_renamed f instruction
      rw [htarget, Option.map_some] at hrenamed
      rw [number_of_target htarget, number_of_target hrenamed]
      simp only [Target.renamed, offset, SymbolTable.find?_renamed hinjective]
      cases symbols.find? name with
      | none => rfl
      | some address =>
          dsimp only
          split <;> rfl

end Encoding

namespace Program

/-- Renaming labels, as an alteration that leaves addresses alone. -/
def relabelling (f : String → String) : Alteration :=
  ⟨f, id, Statement.renamed f, SymbolTable.renamed f, EncodeError.renamed f⟩

/-- Layout and encoding follow every program whose labels are renamed. -/
theorem relabelling_followed (hinjective : Function.Injective f) :
    (relabelling f).Followed fun _ => True where
  empty := rfl
  find? := by
    intro symbols label
    rw [relabelling, SymbolTable.find?_renamed hinjective, Option.map_id, id]
  set := SymbolTable.renamed_set hinjective
  label := by
    intro statement
    rfl
  advance := by
    intro address index
    rfl
  number := by
    intro rule address symbols statement
    exact Encoding.number_renamed hinjective rule (address + 1) symbols statement.instruction
  word := by
    intro number statement
    exact Encoding.word_renamed number statement.instruction
  overflow := by
    intro block _
    rw [Block.stop, Alteration.length_block]
    rfl
  overlaps := by
    intro a b _ _
    rw [Bool.eq_iff_iff, Block.overlaps_iff, Block.overlaps_iff, Block.stop, Block.stop,
      Alteration.length_block, Alteration.length_block]
    rfl

theorem value_assemble_renamed (hinjective : Function.Injective f) (program : Program)
    (config : Config) :
    ((program.renamed f).assemble config).value =
      ((program.assemble config).value.map fun out =>
        ⟨out.image, out.symbols.renamed f⟩).mapError (List.map (AssemblyError.renamed f)) := by
  have hassembled : (relabelling f).assembled =
      fun out => ⟨out.image, out.symbols.renamed f⟩ := by
    funext out
    rw [Alteration.assembled, show (relabelling f).segment = id from rfl, List.map_id]
    rfl
  have herror : (relabelling f).error = AssemblyError.renamed f := by
    funext error
    cases error <;> rfl
  rw [← hassembled, ← herror]
  exact (relabelling_followed hinjective).value_assemble fun _ _ => trivial

/-- Names have no meaning but to tell labels apart.  A program whose labels are renamed, different
ones differently, is accepted exactly if it was.  Then it has the image it had, and each new name
has the address of its old one; otherwise it is refused for the problems it had, in their order,
with the new names in them. -/
theorem label_names_only_tell_apart (program : Program) (config : Config) (f : String → String)
    (hinjective : Function.Injective f) :
    ((∃ out, ((program.renamed f).assemble config).value = .ok out) ↔
      ∃ out, (program.assemble config).value = .ok out) ∧
    (∀ out, (program.assemble config).value = .ok out →
      ((program.renamed f).assemble config).value =
        .ok ⟨out.image, out.symbols.renamed f⟩ ∧
      ∀ name address, (out.symbols.renamed f).find? name = some address ↔
        ∃ old, f old = name ∧ out.symbols.find? old = some address) ∧
    ∀ errors, (program.assemble config).value = .error errors →
      ((program.renamed f).assemble config).value =
        .error (errors.map (AssemblyError.renamed f)) := by
  rw [value_assemble_renamed hinjective program config]
  refine ⟨?_, ?_, ?_⟩
  · cases (program.assemble config).value <;> simp [Except.map, Except.mapError]
  · intro out hassemble
    refine ⟨by rw [hassemble]; rfl, ?_⟩
    intro name address
    exact SymbolTable.find?_renamed_eq_some_iff hinjective
  · intro errors hassemble
    rw [hassemble]
    rfl

/-- Two names are exchanged, so that they stand in the table the other way around, and a name that
is defined twice is exchanged with one that is not defined. -/
theorem names_exchanged :
    Function.Injective (Equiv.swap "LOW" "TOP") ∧
      Function.Injective (Equiv.swap "A" "NOWHERE") ∧
      ((overMemoryEnd.renamed (Equiv.swap "LOW" "TOP")).assemble {}).value =
        .ok ⟨overMemoryEndAssembled.image,
          Dictionary.ofList [("LOW", 0xFFFE), ("TOP", 0x0001)]⟩ ∧
      ((tangled.renamed (Equiv.swap "A" "NOWHERE")).assemble {}).value = .error [
        .overlappingBlocks 0x3000 0x3001, .duplicateLabel "NOWHERE" 0x3000 0x3001,
        .blockOverflow 0xFFFF 2, .encoding 0x3000 (.offsetOutOfRange "FAR" (-12290) 9),
        .encoding 0x3001 (.fieldOutOfRange "immediate" 16 5),
        .encoding 0x3001 (.unresolvedLabel "A")] := by
  have hassemble : (overMemoryEnd.assemble {}).value = .ok overMemoryEndAssembled := by decide
  have hrefused : (tangled.assemble {}).value = .error tangledProblems := by decide
  have hswap := (Equiv.swap "LOW" "TOP").injective
  have hswap' := (Equiv.swap "A" "NOWHERE").injective
  obtain ⟨-, hout, -⟩ := label_names_only_tell_apart overMemoryEnd {} _ hswap
  obtain ⟨-, -, herrors⟩ := label_names_only_tell_apart tangled {} _ hswap'
  refine ⟨hswap, hswap', (hout _ hassemble).1.trans ?_, (herrors _ hrefused).trans ?_⟩
  · decide
  · decide

end Program

end LittleComputer
