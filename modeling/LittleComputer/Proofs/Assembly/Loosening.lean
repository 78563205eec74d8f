import LittleComputer.Proofs.Assembly.Acceptance

/-!
Looser configs.  A config may pass over two kinds of problems: blocks that overlap, and labels too
far away for their field.  Nothing else depends on it.  So the problems of a program under a looser
config are those under the stricter one that the looser config minds, in the same order, and a
program that the stricter config lets pass is assembled to the same image and table.
-/
namespace LittleComputer

namespace Config

/-- A config that is at least as permissive as another. -/
structure Loosens (looser stricter : Config) : Prop where
  offsets : looser.offsets = stricter.offsets ∨ looser.offsets = .wrap
  overlap : stricter.allowOverlap = true → looser.allowOverlap = true

/-- Whether a config counts a problem as one.  Overlaps may be allowed and offsets may wrap; every
other problem counts. -/
def minds (config : Config) : AssemblyError → Bool
  | .overlappingBlocks _ _ => !config.allowOverlap
  | .encoding _ (.offsetOutOfRange _ _ _) => config.offsets != .wrap
  | _ => true

theorem minds_offsetOutOfRange_iff {config : Config} {address : Address} {label : String}
    {offset : Int} {bits : Nat} :
    config.minds (.encoding address (.offsetOutOfRange label offset bits)) = true ↔
      config.offsets = .strict := by
  cases hrule : config.offsets <;> simp [minds, hrule]

end Config

namespace Encoding

theorem number_wrap_of_strict {next : Address} {symbols : SymbolTable}
    {instruction : Instruction} {value : Int}
    (hnumber : number .strict next symbols instruction = .ok value) :
    number .wrap next symbols instruction = .ok value := by
  cases hlabel : instruction.label? with
  | none =>
      cases hnumeral : instruction.numeral? with
      | none => rwa [number_of_plain hnumeral hlabel] at hnumber ⊢
      | some entry => rwa [number_of_numeral hnumeral] at hnumber ⊢
  | some name =>
      obtain ⟨width, htarget⟩ := Instruction.label?_eq_some_iff.mp hlabel
      rw [number_of_target htarget] at hnumber ⊢
      obtain ⟨address, hfind, rfl, -⟩ := offset_label_eq_ok hnumber
      simp [offset, hfind]

/-- A word under the stricter config is the word under the looser one. -/
theorem encode_of_loosens {looser stricter : Config} (hloosens : looser.Loosens stricter)
    {next : Address} {symbols : SymbolTable} {instruction : Instruction} {encoded : Word}
    (hencode : (instruction.encode stricter.offsets next symbols).run.value = .ok encoded) :
    (instruction.encode looser.offsets next symbols).run.value = .ok encoded := by
  rcases hloosens.offsets with hsame | hwrap
  · rwa [hsame]
  · cases hrule : stricter.offsets with
    | wrap => rwa [hwrap, ← hrule]
    | strict =>
        rw [hrule] at hencode
        obtain ⟨value, hnumber, hword⟩ := value_encode_eq_ok_iff.mp hencode
        rw [hwrap]
        exact value_encode_eq_ok_iff.mpr ⟨value, number_wrap_of_strict hnumber, hword⟩

end Encoding

section Loosens

variable {looser stricter : Config}

/-- A looser config refuses a statement for what the stricter one refuses it for, if it minds
that. -/
theorem Site.refused_iff_of_loosens (hloosens : looser.Loosens stricter) {program : Program}
    {site : Site} {cause : EncodeError} :
    site.Refused program looser.offsets cause ↔
      site.Refused program stricter.offsets cause ∧
        looser.minds (.encoding site.address cause) = true := by
  -- The rule for offsets enters only where a label is too far away.
  constructor
  · intro hrefused
    cases hrefused with
    | number hnumeral hrange => exact ⟨.number hnumeral hrange, rfl⟩
    | unresolved hlabel hnone => exact ⟨.unresolved hlabel hnone, rfl⟩
    | far hrule htarget hfirst hrange =>
        have hstricter : stricter.offsets = .strict := by
          rcases hloosens.offsets with hsame | hwrap
          · rw [← hsame, hrule]
          · rw [hrule] at hwrap
            cases hwrap
        exact ⟨.far hstricter htarget hfirst hrange,
          Config.minds_offsetOutOfRange_iff.mpr hrule⟩
  · rintro ⟨hrefused, hminds⟩
    cases hrefused with
    | number hnumeral hrange => exact .number hnumeral hrange
    | unresolved hlabel hnone => exact .unresolved hlabel hnone
    | far _ htarget hfirst hrange =>
        exact .far (Config.minds_offsetOutOfRange_iff.mp hminds) htarget hfirst hrange

theorem Site.encodingProblem?_of_loosens (hloosens : looser.Loosens stricter)
    {program : Program} {symbols : SymbolTable} (hknows : symbols.Knows program.sites)
    (site : Site) :
    site.encodingProblem? looser.offsets symbols =
      (site.encodingProblem? stricter.offsets symbols).filter looser.minds := by
  apply Option.ext
  intro problem
  rw [Option.filter_eq_some_iff, site.encodingProblem?_eq_some_iff hknows,
    site.encodingProblem?_eq_some_iff hknows]
  constructor
  · rintro ⟨cause, hrefused, rfl⟩
    obtain ⟨hstricter, hminds⟩ := (refused_iff_of_loosens hloosens).mp hrefused
    exact ⟨⟨cause, hstricter, rfl⟩, hminds⟩
  · rintro ⟨⟨cause, hstricter, rfl⟩, hminds⟩
    exact ⟨cause, (refused_iff_of_loosens hloosens).mpr ⟨hstricter, hminds⟩, rfl⟩

/-- A label that is defined again is a problem under every config. -/
theorem Site.filter_redefinition? (config : Config) (before : List Site) (site : Site) :
    (site.redefinition? before).filter config.minds = site.redefinition? before := by
  cases hproblem : site.redefinition? before with
  | none => rfl
  | some problem =>
      obtain ⟨label, -, hfirst⟩ := Option.bind_eq_some_iff.mp hproblem
      obtain ⟨first, -, rfl⟩ := Option.map_eq_some_iff.mp hfirst
      rfl

/-- A looser config reports of an earlier block in the way what the stricter one reports of it. -/
theorem Block.overlapProblem_of_loosens (hloosens : looser.Loosens stricter)
    (clash : Option Block) (block : Block) :
    (if looser.allowOverlap then []
      else (clash.map fun first =>
        AssemblyError.overlappingBlocks first.start block.start).toList) =
      (if stricter.allowOverlap then []
        else (clash.map fun first =>
          AssemblyError.overlappingBlocks first.start block.start).toList).filter
        looser.minds := by
  cases hlooser : looser.allowOverlap with
  | true =>
      cases clash <;> cases stricter.allowOverlap <;> simp [Config.minds, hlooser]
  | false =>
      have hstricter : stricter.allowOverlap = false := by
        by_contra hallowed
        simp [hloosens.overlap (by simpa using hallowed)] at hlooser
      cases clash <;> simp [Config.minds, hlooser, hstricter]

theorem Block.placementErrors_of_loosens (hloosens : looser.Loosens stricter)
    (earlier : List Block) (block : Block) :
    block.placementErrors looser earlier =
      (block.placementErrors stricter earlier).filter looser.minds := by
  simp only [placementErrors, List.filter_append, overlapProblem_of_loosens hloosens]
  congr 1
  split <;> rfl

theorem Block.filter_redefinitions (config : Config) (earlier : List Block) (block : Block) :
    (block.redefinitions earlier).filter config.minds = block.redefinitions earlier := by
  simp only [redefinitions, List.filter_filterMap, Site.filter_redefinition?]

namespace Program

theorem layout_errors_of_loosens (hloosens : looser.Loosens stricter) (program : Program) :
    (program.layout looser).2 = (program.layout stricter).2.filter looser.minds := by
  rw [layout_errors_eq, layout_errors_eq, List.filter_flatMap]
  simp only [Block.placementErrors_of_loosens hloosens, List.filter_append,
    Block.filter_redefinitions]

/-- The problems of a program under a looser config are those of them that it minds. -/
theorem problems_of_loosens (hloosens : looser.Loosens stricter) (program : Program) :
    program.problems looser = (program.problems stricter).filter looser.minds := by
  have hknows := program.knows_layout stricter
  rw [problems_eq, problems_eq, List.filter_append, List.filter_filterMap,
    layout_errors_of_loosens hloosens, program.layout_symbols_eq looser stricter]
  simp only [Site.encodingProblem?_of_loosens hloosens hknows]

/-- A program that the stricter config lets pass comes out the same under the looser one. -/
theorem assemble_of_loosens (hloosens : looser.Loosens stricter) {program : Program}
    {out : Assembled} (hassemble : (program.assemble stricter).value = .ok out) :
    (program.assemble looser).value = .ok out := by
  obtain ⟨hlayout, hyields⟩ := assemble_eq_ok_iff.mp hassemble
  refine assemble_eq_ok_iff.mpr ⟨Prod.ext ?_ ?_, hyields.imp fun _ _ hyield => ?_⟩
  · rw [program.layout_symbols_eq looser stricter, hlayout]
  · rw [layout_errors_of_loosens hloosens, hlayout]
    rfl
  · exact ⟨hyield.origin, hyield.words.imp fun _ _ => Encoding.encode_of_loosens hloosens⟩

end Program

end Loosens

namespace Program

/-- A looser config changes nothing but which problems count: what was assembled stays as it is, and
of the problems that were reported those remain that the looser config minds. -/
theorem loosening_removes_only_passed_problems (program : Program) (stricter looser : Config)
    (hloosens : looser.Loosens stricter) :
    (∀ out, (program.assemble stricter).value = .ok out →
      (program.assemble looser).value = .ok out) ∧
    ∀ errors, (program.assemble stricter).value = .error errors →
      ((∃ out, (program.assemble looser).value = .ok out) ↔
        errors.filter looser.minds = []) ∧
      (errors.filter looser.minds ≠ [] →
        (program.assemble looser).value = .error (errors.filter looser.minds)) := by
  refine ⟨fun out hassemble => assemble_of_loosens hloosens hassemble,
    fun errors hassemble => ?_⟩
  obtain ⟨rfl, -⟩ := assemble_eq_error_iff.mp hassemble
  rw [value_assemble, ← problems_of_loosens hloosens]
  by_cases hnone : program.problems looser = []
  · simp [hnone]
  · simp [hnone]

/-- Of a program with every kind of problem, the overlap and the label too far away are passed over;
a program without problems comes out the same. -/
theorem tangled_program_under_loosest_config :
    Config.Loosens ⟨.wrap, true⟩ {} ∧
      (tangled.assemble {}).value = .error tangledProblems ∧
      (tangled.assemble ⟨.wrap, true⟩).value = .error [
        .duplicateLabel "A" 0x3000 0x3001, .blockOverflow 0xFFFF 2,
        .encoding 0x3001 (.fieldOutOfRange "immediate" 16 5),
        .encoding 0x3001 (.unresolvedLabel "NOWHERE")] ∧
      (overMemoryEnd.assemble {}).value = .ok overMemoryEndAssembled ∧
      (overMemoryEnd.assemble ⟨.wrap, true⟩).value = .ok overMemoryEndAssembled := by
  have hloosens : Config.Loosens ⟨.wrap, true⟩ {} := ⟨.inr rfl, fun _ => rfl⟩
  have hrefused : (tangled.assemble {}).value = .error tangledProblems := by decide
  have hassemble : (overMemoryEnd.assemble {}).value = .ok overMemoryEndAssembled := by
    decide
  obtain ⟨-, hremain⟩ := loosening_removes_only_passed_problems tangled _ _ hloosens
  obtain ⟨hsame, -⟩ := loosening_removes_only_passed_problems overMemoryEnd _ _ hloosens
  exact ⟨hloosens, hrefused, (hremain _ hrefused).2 (by decide), hassemble,
    hsame _ hassemble⟩

end Program

end LittleComputer
