import LittleComputer.Proofs.Assembly.Report
import LittleComputer.Proofs.Assembly.Success
import LittleComputer.Proofs.Instruction.Operands

/-!
Acceptance of programs.  The programs that are assembled can be told without laying them out: their
blocks end inside memory and keep apart, no label has two carriers, every number fits its field, and
every label operand has a carrier that, under the strict rule, is near.  All other programs are
answered with the problems of their layout and one problem for each statement that breaks these
rules.
-/
namespace LittleComputer

open Bits

/-- Distance from the address after a statement to another statement, the short way round memory. -/
def Site.distanceTo (site other : Site) : Int :=
  ((other.address.toNat : Int) - (site.address.toNat + 1)).bmod memorySize

theorem Site.distance_eq (site other : Site) :
    Encoding.distance (site.address + 1) other.address = site.distanceTo other := by
  have hnext : ((site.address + 1).toNat : Int) =
      ((site.address.toNat : Int) + 1) % ((2 ^ 16 : Nat) : Int) := by
    rw [BitVec.toNat_add]
    rfl
  rw [Encoding.distance_eq_bmod, hnext, Int.sub_emod_bmod]
  rfl

/-- No label is carried by both statements. -/
def Site.LabelsDiffer (first second : Site) : Prop :=
  ∀ label, first.statement.label = some label → second.statement.label ≠ some label

/-- What encoding has against a statement where it stands, told from the program alone. -/
inductive Site.Refused (program : Program) (rule : OffsetRule) (site : Site) :
    EncodeError → Prop
  /-- Its field cannot hold the number. -/
  | number {field : String} {value : Int} {width : Nat}
      (hnumeral : site.statement.instruction.numeral? = some (field, value, width))
      (hrange : ¬ Representable value width) :
      Refused program rule site (.fieldOutOfRange field value width)
  /-- No statement carries the label. -/
  | unresolved {name : String} (hlabel : site.statement.instruction.label? = some name)
      (hnone : ∀ other ∈ program.sites, other.statement.label ≠ some name) :
      Refused program rule site (.unresolvedLabel name)
  /-- The first carrier of the label is too far away. -/
  | far {name : String} {width : Nat} {first : Site} (hrule : rule = .strict)
      (htarget : site.statement.instruction.target? = some (.label name, width))
      (hfirst : program.sites.find? (Site.carries name) = some first)
      (hrange : ¬ Representable (site.distanceTo first) width) :
      Refused program rule site (.offsetOutOfRange name (site.distanceTo first) width)

/-- The problem that is reported for a statement without a word. -/
def Site.encodingProblem? (rule : OffsetRule) (symbols : SymbolTable) (site : Site) :
    Option AssemblyError :=
  match (site.statement.instruction.encode rule (site.address + 1) symbols).run.value with
  | .error cause => some (.encoding site.address cause)
  | .ok _ => none

theorem SymbolTable.Knows.find?_eq_none_iff {symbols : SymbolTable} {sites : List Site}
    (hknows : symbols.Knows sites) {label : String} :
    symbols.find? label = none ↔ ∀ site ∈ sites, site.statement.label ≠ some label := by
  rw [hknows label, Option.map_eq_none_iff, List.find?_eq_none]
  simp [Site.carries]

/-- Against a table of first carriers, the statements refused are those that break a rule. -/
theorem Site.encode_eq_error_iff_refused {program : Program} {rule : OffsetRule}
    {symbols : SymbolTable} (hknows : symbols.Knows program.sites) (site : Site)
    (cause : EncodeError) :
    (site.statement.instruction.encode rule (site.address + 1) symbols).run.value =
        .error cause ↔ site.Refused program rule cause := by
  rw [Encoding.value_encode_eq_error_iff, Encoding.number_eq_error_iff]
  constructor
  · rintro (⟨field, value, width, hnumeral, hrange, rfl⟩ | ⟨name, width, htarget, hcause⟩)
    · exact .number hnumeral hrange
    · rcases hcause with ⟨hnone, rfl⟩ | ⟨hrule, address, hfind, hrange, rfl⟩
      · exact .unresolved (Instruction.label?_eq_some_iff.mpr ⟨width, htarget⟩)
          (hknows.find?_eq_none_iff.mp hnone)
      · rw [hknows name] at hfind
        obtain ⟨first, hfirst, rfl⟩ := Option.map_eq_some_iff.mp hfind
        rw [site.distance_eq] at hrange ⊢
        exact .far hrule htarget hfirst hrange
  · intro hrefused
    cases hrefused with
    | number hnumeral hrange => exact .inl ⟨_, _, _, hnumeral, hrange, rfl⟩
    | unresolved hlabel hnone =>
        obtain ⟨width, htarget⟩ := Instruction.label?_eq_some_iff.mp hlabel
        exact .inr ⟨_, width, htarget, .inl ⟨hknows.find?_eq_none_iff.mpr hnone, rfl⟩⟩
    | @far name width first hrule htarget hfirst hrange =>
        have hfind : symbols.find? name = some first.address := by
          rw [hknows name, hfirst, Option.map_some]
        refine .inr ⟨name, width, htarget, .inr ⟨hrule, first.address, hfind, ?_⟩⟩
        rw [site.distance_eq]
        exact ⟨hrange, rfl⟩

theorem Site.encodingProblem?_eq_some_iff {program : Program} {rule : OffsetRule}
    {symbols : SymbolTable} (hknows : symbols.Knows program.sites) (site : Site)
    {problem : AssemblyError} :
    site.encodingProblem? rule symbols = some problem ↔
      ∃ cause, site.Refused program rule cause ∧ problem = .encoding site.address cause := by
  simp only [← site.encode_eq_error_iff_refused hknows]
  rw [encodingProblem?]
  cases (site.statement.instruction.encode rule (site.address + 1) symbols).run.value with
  | error cause => simp [@eq_comm _ problem]
  | ok word => simp

theorem Block.filterMap_problem?_outcomes (rule : OffsetRule) (symbols : SymbolTable)
    (block : Block) :
    (block.outcomes rule symbols).filterMap problem? =
      block.sites.filterMap (Site.encodingProblem? rule symbols) := by
  rw [outcomes, encode, located_eq_map_sites, List.map_map, List.map_map, List.filterMap_map]
  congr 1
  funext site
  simp only [Function.comp_apply, Logged.value_bind, Logged.value_pure, Site.encodingProblem?]
  cases (site.statement.instruction.encode rule (site.address + 1) symbols).run.value <;> rfl

theorem Block.overlaps_eq_false_iff {a b : Block} (ha : a.length < 2 ^ 31)
    (hb : b.length < 2 ^ 31) : b.overlaps a = false ↔ ¬ a.Meets b := by
  rw [← Bool.not_eq_true, overlaps_iff_meets hb ha, Meets, Meets]
  simp only [and_comm]

namespace Program

/-- The programs that can be assembled, told from their statements. -/
structure WellFormed (program : Program) (config : Config) : Prop where
  /-- Every block ends inside memory. -/
  inside : ∀ block ∈ program.blocks, block.start.toNat + block.length ≤ memorySize
  /-- Blocks may overlap, or no two of them have a common address. -/
  apart : config.allowOverlap = true ∨
    program.blocks.Pairwise fun first second => ¬ first.Meets second
  /-- No label is carried by two statements. -/
  distinct : program.sites.Pairwise Site.LabelsDiffer
  /-- Every label operand is carried by some statement. -/
  resolved : ∀ site ∈ program.sites, ∀ name,
    site.statement.instruction.label? = some name →
      ∃ other ∈ program.sites, other.statement.label = some name
  /-- Every number fits its field. -/
  numbers : ∀ site ∈ program.sites, ∀ field value width,
    site.statement.instruction.numeral? = some (field, value, width) →
      Representable value width
  /-- Under the strict rule, every label operand is near enough for its field. -/
  near : config.offsets = .strict → ∀ site ∈ program.sites, ∀ name width,
    site.statement.instruction.target? = some (.label name, width) →
      ∀ other ∈ program.sites, other.statement.label = some name →
        Representable (site.distanceTo other) width

variable {program : Program} {config : Config}

theorem nodup_definitions_iff :
    (program.definitions.map Prod.fst).Nodup ↔
      program.sites.Pairwise Site.LabelsDiffer := by
  rw [definitions_eq_filterMap_sites, List.Nodup, List.pairwise_map, List.pairwise_filterMap]
  simp only [Option.map_eq_some_iff]
  constructor
  · intro hpairs
    exact hpairs.imp fun hne label hfirst hsecond =>
      hne _ ⟨label, hfirst, rfl⟩ _ ⟨label, hsecond, rfl⟩ rfl
  · intro hpairs
    refine hpairs.imp ?_
    rintro first second hne _ ⟨label, hfirst, rfl⟩ _ ⟨other, hsecond, rfl⟩ rfl
    exact hne _ hfirst hsecond

/-- Where no label is carried twice, its only carrier is the first. -/
theorem find?_carries {sites : List Site} {site : Site} {label : String}
    (hdistinct : sites.Pairwise Site.LabelsDiffer)
    (hsite : site ∈ sites) (hlabel : site.statement.label = some label) :
    sites.find? (Site.carries label) = some site := by
  induction hdistinct with
  | nil => cases hsite
  | @cons head rest hhead _ ih =>
      rcases List.mem_cons.mp hsite with rfl | hrest
      · simp [Site.carries, hlabel]
      · have hskip : head.statement.label ≠ some label :=
          fun hfirst => hhead site hrest label hfirst hlabel
        simp [Site.carries, hskip, ih hrest]

/-- Well formed programs are those that can be laid out and of which no statement is refused. -/
theorem wellFormed_iff (hsmall : ∀ block ∈ program.blocks, block.length < 2 ^ 31) :
    program.WellFormed config ↔ program.WellPlaced config ∧
      ∀ site ∈ program.sites, ∀ cause, ¬ site.Refused program config.offsets cause := by
  constructor
  · intro hformed
    refine ⟨⟨?_, ?_, nodup_definitions_iff.mpr hformed.distinct⟩, ?_⟩
    · intro block hblock
      rw [Block.stop_eq (hsmall block hblock)]
      exact hformed.inside block hblock
    · intro hconfig
      have hpairs := hformed.apart.resolve_left (by simp [hconfig])
      refine hpairs.imp_of_mem fun hfirst hsecond hapart => ?_
      exact (Block.overlaps_eq_false_iff (hsmall _ hfirst) (hsmall _ hsecond)).mpr hapart
    · intro site hsite cause hrefused
      cases hrefused with
      | number hnumeral hrange => exact hrange (hformed.numbers site hsite _ _ _ hnumeral)
      | unresolved hlabel hnone =>
          obtain ⟨other, hother, hcarries⟩ := hformed.resolved site hsite _ hlabel
          exact hnone other hother hcarries
      | far hrule htarget hfirst hrange =>
          have hcarries := List.find?_some hfirst
          exact hrange (hformed.near hrule site hsite _ _ htarget _
            (List.mem_of_find?_eq_some hfirst) (by simpa [Site.carries] using hcarries))
  · rintro ⟨hplaced, haccepted⟩
    have hdistinct := nodup_definitions_iff.mp hplaced.distinct
    refine ⟨fun block hblock => hplaced.end_le hsmall hblock, ?_, hdistinct, ?_, ?_, ?_⟩
    · cases hconfig : config.allowOverlap with
      | true => exact .inl rfl
      | false =>
          refine .inr ((hplaced.apart hconfig).imp_of_mem fun hfirst hsecond hoverlaps => ?_)
          exact (Block.overlaps_eq_false_iff (hsmall _ hfirst) (hsmall _ hsecond)).mp hoverlaps
    · intro site hsite name hlabel
      by_contra hnone
      push Not at hnone
      exact haccepted site hsite _ (.unresolved hlabel hnone)
    · intro site hsite field value width hnumeral
      by_contra hrange
      exact haccepted site hsite _ (.number hnumeral hrange)
    · intro hrule site hsite name width htarget other hother hcarries
      by_contra hrange
      -- Encoding measures to the first carrier, which is `other` as there is no second one.
      have hfirst : program.sites.find? (Site.carries name) = some other :=
        find?_carries hdistinct hother hcarries
      exact haccepted site hsite _ (.far hrule htarget hfirst hrange)

/-- The problems of a program are those of its layout, then one for each statement that cannot be
encoded, in order. -/
theorem problems_eq (program : Program) (config : Config) :
    program.problems config = (program.layout config).2 ++
      program.sites.filterMap
        (Site.encodingProblem? config.offsets (program.layout config).1) := by
  rw [problems, sites, List.filterMap_flatMap]
  simp only [Block.filterMap_problem?_outcomes]

theorem problems_eq_nil_iff (hsmall : ∀ block ∈ program.blocks, block.length < 2 ^ 31) :
    program.problems config = [] ↔ program.WellFormed config := by
  have hnone : ∀ site : Site,
      site.encodingProblem? config.offsets (program.layout config).1 = none ↔
        ∀ cause, ¬ site.Refused program config.offsets cause := by
    intro site
    rw [Option.eq_none_iff_forall_ne_some]
    simp only [ne_eq, site.encodingProblem?_eq_some_iff (program.knows_layout config),
      not_exists, not_and]
    constructor
    · intro hnone cause hrefused
      exact hnone _ cause hrefused rfl
    · intro haccepted _ cause hrefused _
      exact haccepted cause hrefused
  rw [problems_eq, List.append_eq_nil_iff, List.filterMap_eq_nil_iff,
    layout_errors_eq_nil_iff, wellFormed_iff hsmall]
  simp only [hnone]

/-- Exactly the well formed programs are assembled, a segment for each block and a word for each
statement.  Every other program is answered with the problems of its layout, then one problem for
each statement that cannot be encoded; those are the statements that break a rule. -/
theorem assemble_accepts_exactly_well_formed (program : Program) (config : Config) :
    ((∀ block ∈ program.blocks, block.length < 2 ^ 31) →
      ((∃ out, (program.assemble config).value = .ok out) ↔ program.WellFormed config)) ∧
    (∀ out, (program.assemble config).value = .ok out →
      out.symbols = (program.layout config).1 ∧
        List.Forall₂ (Block.Yields config.offsets out.symbols) program.blocks
          out.image.segments) ∧
    (∀ errors, (program.assemble config).value = .error errors →
      errors ≠ [] ∧ errors = (program.layout config).2 ++ program.sites.filterMap
        (Site.encodingProblem? config.offsets (program.layout config).1)) ∧
    ∀ site problem,
      Site.encodingProblem? config.offsets (program.layout config).1 site = some problem ↔
        ∃ cause, site.Refused program config.offsets cause ∧
          problem = .encoding site.address cause := by
  refine ⟨?_, ?_, ?_, ?_⟩
  · intro hsmall
    rw [← problems_eq_nil_iff hsmall, value_assemble]
    by_cases hnone : program.problems config = []
    · simp [hnone]
    · simp [hnone]
  · intro out hassemble
    obtain ⟨hlayout, hyields⟩ := assemble_eq_ok_iff.mp hassemble
    exact ⟨by rw [hlayout], hyields⟩
  · intro errors hassemble
    rw [value_assemble] at hassemble
    split at hassemble
    · cases hassemble
    · rename_i hsome
      obtain rfl := Except.error.inj hassemble
      exact ⟨hsome, problems_eq program config⟩
  · intro site problem
    exact site.encodingProblem?_eq_some_iff (program.knows_layout config)

def tangledProblems : List AssemblyError := [
  .overlappingBlocks 0x3000 0x3001, .duplicateLabel "A" 0x3000 0x3001,
  .blockOverflow 0xFFFF 2, .encoding 0x3000 (.offsetOutOfRange "FAR" (-12290) 9),
  .encoding 0x3001 (.fieldOutOfRange "immediate" 16 5),
  .encoding 0x3001 (.unresolvedLabel "NOWHERE")]

/-- A program with every kind of problem is answered with all of them, and one over the end of
memory is well formed. -/
theorem tangled_program_is_refused :
    (tangled.assemble {}).value = .error tangledProblems ∧
      tangledProblems = (tangled.layout {}).2 ++
        tangled.sites.filterMap (Site.encodingProblem? .strict (tangled.layout {}).1) ∧
      ¬ tangled.WellFormed {} ∧
      (overMemoryEnd.assemble {}).value = .ok overMemoryEndAssembled ∧
      overMemoryEnd.WellFormed {} ∧
      List.Forall₂ (Block.Yields .strict overMemoryEndAssembled.symbols) overMemoryEnd.blocks
        overMemoryEndAssembled.image.segments := by
  have hrefused : (tangled.assemble {}).value = .error tangledProblems := by decide
  have hassemble : (overMemoryEnd.assemble {}).value = .ok overMemoryEndAssembled := by
    decide
  obtain ⟨haccepts, -, hproblems, -⟩ := assemble_accepts_exactly_well_formed tangled {}
  obtain ⟨haccepts', hyields, -, -⟩ := assemble_accepts_exactly_well_formed overMemoryEnd {}
  refine ⟨hrefused, (hproblems _ hrefused).2, fun hformed => ?_, hassemble,
    (haccepts' (by decide)).mp ⟨_, hassemble⟩, (hyields _ hassemble).2⟩
  obtain ⟨out, hout⟩ := (haccepts (by decide)).mpr hformed
  rw [hrefused] at hout
  cases hout

end Program

end LittleComputer
