import LittleComputer.Proofs.Interchange
import LittleComputer.Proofs.Tool.Files
import LittleComputer.Tool.Run

/-!
What the assembler's command leaves behind.  All reading and assembling comes before the first
write, so a command that fails there has changed no file.
-/
namespace LittleComputer.Tool

/-! Running over a tree of files. -/

/-- A run of a part of a command: what it gives, and the files it leaves. -/
def Runs {α : Type} (work : ExceptT Failure (StateM FileTree) α) (files : FileTree)
    (result : Except Failure α) (after : FileTree) : Prop :=
  work.run.run files = (result, after)

namespace Runs

variable {α β : Type} {work : ExceptT Failure (StateM FileTree) α}
  {next : α → ExceptT Failure (StateM FileTree) β} {files middle after : FileTree}
  {failure : Failure} {path : String} {content : ByteArray}

theorem pure (a : α) : Runs (pure a) files (.ok a) files := rfl

theorem throw : Runs (throw failure : ExceptT _ _ α) files (.error failure) files := rfl

theorem bind {a : α} {result : Except Failure β} (hwork : Runs work files (.ok a) middle)
    (hnext : Runs (next a) middle result after) : Runs (work >>= next) files result after := by
  rw [Runs, ExceptT.run_bind, StateT.run_bind, hwork]
  exact hnext

theorem bind_error (hwork : Runs work files (.error failure) after) :
    Runs (work >>= next) files (.error failure) after := by
  rw [Runs, ExceptT.run_bind, StateT.run_bind, hwork]
  rfl

theorem lift {action : StateM FileTree α} {a : α} (haction : action.run files = (a, after)) :
    Runs (liftM action) files (.ok a) after := by
  change (Except.ok <$> action : StateM FileTree _).run files = _
  rw [StateT.run_map, haction]
  rfl

theorem read : Runs (liftM (Files.read path : StateM FileTree _)) files (.ok (files.read path))
    files := rfl

theorem write (hwrite : files.write path content = .ok after) :
    Runs (liftM (Files.write path content : StateM FileTree _)) files (.ok (.ok ())) after := by
  apply lift
  simp only [Files.write, StateT.run_bind, StateT.run_get, pure_bind, hwrite]
  rfl

theorem write_error {fault : FileFault} (hwrite : files.write path content = .error fault) :
    Runs (liftM (Files.write path content : StateM FileTree _)) files (.ok (.error fault))
      files := by
  apply lift
  simp only [Files.write, StateT.run_bind, StateT.run_get, pure_bind, hwrite]
  rfl

end Runs

/-- A file holds the text of a value. -/
def FileTree.Holds {α : Type} [Codec α] (files : FileTree) (path : String) (value : α) : Prop :=
  ∃ text : String, files.read path = .ok text.toUTF8 ∧ Codec.ofText text = some value

section

variable {α : Type} [Codec α] {files after : FileTree} {path : String} {content : ByteArray}

theorem runs_readBytes (hread : files.read path = .ok content) :
    Runs (readBytes path) files (.ok content) files := by
  apply Runs.bind .read
  rw [hread]
  exact .pure content

theorem runs_readBytes_error {fault : FileFault} (hread : files.read path = .error fault) :
    Runs (readBytes path) files (.error { message := s!"reading {path}" }) files := by
  apply Runs.bind .read
  rw [hread]
  exact .throw

theorem fromUTF8?_eq_some_iff {text : String} :
    String.fromUTF8? content = some text ↔ content = text.toUTF8 := by
  rw [String.fromUTF8?]
  split
  · rw [Option.some.injEq, ← String.toByteArray_inj]
    exact Iff.rfl
  · rename_i hinvalid
    constructor
    · nofun
    · rintro rfl
      exact absurd text.isValidUTF8 hinvalid

theorem runs_readJson {value : α} (hholds : files.Holds path value) :
    Runs (readJson α path) files (.ok value) files := by
  obtain ⟨text, hread, hvalue⟩ := hholds
  apply Runs.bind (runs_readBytes hread)
  rw [fromUTF8?_eq_some_iff.mpr rfl]
  simp only [hvalue]
  exact .pure value

/-- A file that holds no value is refused. -/
theorem exists_runs_readJson_error (hholds : ¬ ∃ value : α, files.Holds path value) :
    ∃ failure, Runs (readJson α path) files (.error failure) files := by
  cases hread : files.read path with
  | error fault => exact ⟨_, .bind_error (runs_readBytes_error hread)⟩
  | ok content =>
      cases htext : String.fromUTF8? content with
      | none =>
          refine ⟨{ message := s!"reading {path}" }, .bind (runs_readBytes hread) ?_⟩
          rw [htext]
          exact .throw
      | some text =>
          refine ⟨{ message := s!"parsing {path}" }, .bind (runs_readBytes hread) ?_⟩
          rw [htext]
          cases hvalue : Codec.ofText (α := α) text with
          | none =>
              simp only [hvalue]
              exact .throw
          | some value =>
              rw [fromUTF8?_eq_some_iff.mp htext] at hread
              exact absurd ⟨value, text, hread, hvalue⟩ hholds

theorem runs_writeBytes {location : Location} (hpath : files.WritableAt path location) :
    Runs (writeBytes path content) files (.ok ()) (files.store location content) :=
  .bind (.write (hpath.write_eq content)) (.pure ())

theorem exists_runs_writeBytes_error (hpath : ¬ ∃ location, files.WritableAt path location) :
    ∃ failure, Runs (writeBytes path content) files (.error failure) files := by
  cases hwrite : files.write path content with
  | ok after =>
      obtain ⟨location, hlocation, -⟩ := FileTree.write_eq_ok_iff.mp hwrite
      exact absurd ⟨location, hlocation⟩ hpath
  | error fault => exact ⟨{ message := s!"writing {path}" }, .bind (.write_error hwrite) .throw⟩

end

namespace AssembleCommand

variable {command : AssembleCommand} {files after : FileTree} {config : Config}
  {program : Program} {out : Assembled}

/-- The configuration a command works under: that of its file, or the default one, with offsets that
wrap and blocks that overlap if the command says so. -/
def Effective (command : AssembleCommand) (files : FileTree) (config : Config) : Prop :=
  ∃ given : Config, (command.config = none → given = {}) ∧
    (∀ path, command.config = some path → files.Holds path given) ∧
    config.offsets = (if command.wrapOffsets then .wrap else given.offsets) ∧
    config.allowOverlap = (given.allowOverlap || command.allowOverlap)

theorem runs_readConfig (hconfig : command.Effective files config) :
    Runs command.readConfig files (.ok config) files := by
  obtain ⟨given, hdefault, hholds, hoffsets, hoverlap⟩ := hconfig
  obtain rfl : command.loosen given = config := by
    rw [loosen, ← hoffsets, ← hoverlap]
  rw [readConfig]
  cases hfile : command.config with
  | none =>
      rw [hdefault hfile]
      exact .pure _
  | some path => exact .bind (runs_readJson (hholds path hfile)) (.pure _)

theorem exists_runs_readConfig_error (hconfig : ¬ ∃ config, command.Effective files config) :
    ∃ failure, Runs command.readConfig files (.error failure) files := by
  rw [readConfig]
  cases hfile : command.config with
  | none =>
      refine absurd ⟨command.loosen {}, {}, fun _ => rfl, ?_, rfl, rfl⟩ hconfig
      simp [hfile]
  | some path =>
      have hnone : ¬ ∃ given : Config, files.Holds path given := by
        rintro ⟨given, hgiven⟩
        refine hconfig ⟨command.loosen given, given, by simp [hfile], ?_, rfl, rfl⟩
        intro other hother
        rw [hfile, Option.some.injEq] at hother
        exact hother ▸ hgiven
      obtain ⟨failure, hfailure⟩ := exists_runs_readJson_error hnone
      exact ⟨failure, .bind_error hfailure⟩

/-- Without a configuration or a program, nothing is written. -/
theorem exists_runs_error (hunread : (¬ ∃ config, command.Effective files config) ∨
      ¬ ∃ program : Program, files.Holds command.program program) :
    ∃ failure, Runs command.run files (.error failure) files := by
  by_cases hconfig : ∃ config, command.Effective files config
  · obtain ⟨config, hconfig⟩ := hconfig
    have hprogram := hunread.resolve_left (not_not_intro ⟨config, hconfig⟩)
    obtain ⟨failure, hfailure⟩ := exists_runs_readJson_error hprogram
    exact ⟨failure, .bind (runs_readConfig hconfig) (.bind_error hfailure)⟩
  · obtain ⟨failure, hfailure⟩ := exists_runs_readConfig_error hconfig
    exact ⟨failure, .bind_error hfailure⟩

theorem runs_of_errors (hconfig : command.Effective files config)
    (hprogram : files.Holds command.program program) {errors : List AssemblyError}
    (herrors : (program.assemble config).value = .error errors) :
    Runs command.run files (.error {
      details := errors.map fun error => "error: " ++ error.message
      message := "assembly failed with " ++ toString errors.length ++ " error(s)" }) files := by
  refine .bind (runs_readConfig hconfig) (.bind (runs_readJson hprogram) ?_)
  rw [herrors]
  exact .throw

/-- After assembling, only writing is left. -/
theorem runs_of_assembled (hconfig : command.Effective files config)
    (hprogram : files.Holds command.program program)
    (hout : (program.assemble config).value = .ok out) {result : Except Failure Unit}
    (hwrites : Runs (do
      writeBytes command.outputPath out.image.toBytes.toByteArray
      command.symbols.elim (pure ()) fun path =>
        writeBytes path (Codec.write out.symbols).pretty.toUTF8) files result after) :
    Runs command.run files result after := by
  refine .bind (runs_readConfig hconfig) (.bind (runs_readJson hprogram) ?_)
  rw [hout]
  cases hsymbols : command.symbols <;> simpa only [hsymbols, Option.elim] using hwrites

def outputPaths (command : AssembleCommand) : List String :=
  command.output.getD (withExtension command.program "bin") :: command.symbols.toList

theorem outputPath_mem : command.outputPath ∈ command.outputPaths :=
  List.mem_cons_self

theorem mem_outputPaths {path : String} (hsymbols : command.symbols = some path) :
    path ∈ command.outputPaths := by
  simp [outputPaths, hsymbols]

/-- The outputs hold what was assembled, the image unless the symbol table took its place. -/
structure Written (command : AssembleCommand) (out : Assembled) (files after : FileTree) :
    Prop where
  symbols : ∀ path, command.symbols = some path →
    after.read path = .ok (Codec.write out.symbols).pretty.toUTF8
  image : (∀ path, command.symbols = some path →
      files.locate path ≠ files.locate command.outputPath) →
    after.read command.outputPath = .ok out.image.toBytes.toByteArray

section

variable (hconfig : command.Effective files config)
  (hprogram : files.Holds command.program program)
  (hout : (program.assemble config).value = .ok out)
include hconfig hprogram hout

/-- Where all outputs can be written, they are. -/
theorem exists_runs_ok
    (hpaths : ∀ path ∈ command.outputPaths, ∃ location, files.WritableAt path location) :
    ∃ after, Runs command.run files (.ok ()) after ∧
      FileTree.AgreesOutside command.outputPaths files after ∧
      command.Written out files after := by
  obtain ⟨location, hlocation⟩ := hpaths _ outputPath_mem
  have hfirst := (FileTree.AgreesOutside.refl command.outputPaths files).store outputPath_mem
    hlocation out.image.toBytes.toByteArray
  have hread := hlocation.read_store out.image.toBytes.toByteArray
  cases hsymbols : command.symbols with
  | none =>
      refine ⟨_, runs_of_assembled hconfig hprogram hout ?_, hfirst, by simp [hsymbols],
        fun _ => hread⟩
      rw [hsymbols]
      exact .bind (runs_writeBytes hlocation) (.pure ())
  | some path =>
      obtain ⟨other, hother⟩ := hpaths path (mem_outputPaths hsymbols)
      have hnext := (hlocation.store_iff out.image.toBytes.toByteArray).mpr hother
      refine ⟨_, runs_of_assembled hconfig hprogram hout ?_,
        hfirst.store (mem_outputPaths hsymbols) hother (Codec.write out.symbols).pretty.toUTF8,
        ?_, ?_⟩
      · rw [hsymbols]
        exact .bind (runs_writeBytes hlocation) (runs_writeBytes hnext)
      · intro place hplace
        obtain rfl : path = place := by simpa [hsymbols] using hplace
        exact hnext.read_store _
      · intro hapart
        apply hnext.read_store_of_ne _ hread
        rw [Ne, hlocation.locate_store_eq_ok_iff, ← hother.locate_eq]
        exact (hapart path hsymbols).symm

/-- Where some output cannot be written, the command fails. -/
theorem exists_runs_error_of_not_writableAt
    (hpaths : ¬ ∀ path ∈ command.outputPaths, ∃ location, files.WritableAt path location) :
    ∃ failure after, Runs command.run files (.error failure) after ∧
      FileTree.AgreesOutside command.outputPaths files after := by
  by_cases himage : ∃ location, files.WritableAt command.outputPath location
  · obtain ⟨location, hlocation⟩ := himage
    cases hsymbols : command.symbols with
    | none =>
        refine absurd ?_ hpaths
        simpa [outputPaths, hsymbols] using ⟨location, hlocation⟩
    | some path =>
        have hpath : ¬ ∃ other, files.WritableAt path other := by
          intro hpath
          refine hpaths ?_
          simpa [outputPaths, hsymbols] using ⟨⟨location, hlocation⟩, hpath⟩
        -- The first write makes no path writable.
        simp only [← hlocation.store_iff out.image.toBytes.toByteArray] at hpath
        obtain ⟨failure, hfailure⟩ := exists_runs_writeBytes_error hpath
        refine ⟨failure, _, runs_of_assembled hconfig hprogram hout ?_,
          (FileTree.AgreesOutside.refl _ files).store outputPath_mem hlocation
            out.image.toBytes.toByteArray⟩
        rw [hsymbols]
        exact .bind (runs_writeBytes hlocation) hfailure
  · obtain ⟨failure, hfailure⟩ := exists_runs_writeBytes_error himage
    exact ⟨failure, files, runs_of_assembled hconfig hprogram hout (.bind_error hfailure),
      .refl _ files⟩

end

/-- However a run ends, it changes at most the outputs. -/
theorem exists_runs_agreesOutside (command : AssembleCommand) (files : FileTree) :
    ∃ result after, Runs command.run files result after ∧
      FileTree.AgreesOutside command.outputPaths files after := by
  by_cases hread : (∃ config, command.Effective files config) ∧
      ∃ program : Program, files.Holds command.program program
  · obtain ⟨⟨config, hconfig⟩, program, hprogram⟩ := hread
    cases hvalue : (program.assemble config).value with
    | error errors => exact ⟨_, files, runs_of_errors hconfig hprogram hvalue, .refl _ files⟩
    | ok out =>
        by_cases hpaths : ∀ path ∈ command.outputPaths, ∃ location, files.WritableAt path location
        · obtain ⟨after, hruns, hagree, -⟩ := exists_runs_ok hconfig hprogram hvalue hpaths
          exact ⟨_, after, hruns, hagree⟩
        · obtain ⟨failure, after, hruns, hagree⟩ :=
            exists_runs_error_of_not_writableAt hconfig hprogram hvalue hpaths
          exact ⟨_, after, hruns, hagree⟩
  · obtain ⟨failure, hruns⟩ := exists_runs_error (not_and_or.mp hread)
    exact ⟨_, files, hruns, .refl _ files⟩

end AssembleCommand

/-! Commands as a whole. -/

def Command.runOn (command : Command) (files : FileTree) : Outcome × FileTree :=
  (command.run : StateM FileTree Outcome).run files

def Outcome.ofResult : Except Failure String → Outcome
  | .ok output => { exitCode := 0, output }
  | .error failure =>
      { exitCode := 1, diagnostics := failure.details ++ ["Error: " ++ failure.message] }

theorem runOn_list {command : ListCommand} {files after : FileTree}
    {result : Except Failure String} (hruns : Runs command.run files result after) :
    (Command.list command).runOn files = (.ofResult result, after) := by
  rw [Command.runOn, Command.run, StateT.run_bind, hruns]
  cases result <;> rfl

theorem runOn_assemble {command : AssembleCommand} {files after : FileTree}
    {result : Except Failure Unit} (hruns : Runs command.run files result after) :
    (Command.assemble command).runOn files = (.ofResult (result.map fun _ => ""), after) := by
  have hwork : Runs (do command.run; return "") files (result.map fun _ => "") after := by
    cases result with
    | ok => exact hruns.bind (.pure "")
    | error failure => exact hruns.bind_error
  rw [Command.runOn, Command.run, StateT.run_bind, hwork]
  cases result <;> rfl

/-- A command that succeeds has assembled the program and written the outputs. -/
theorem AssembleCommand.exists_assembled {command : AssembleCommand} {files after : FileTree}
    {outcome : Outcome} {program : Program} (hprogram : files.Holds command.program program)
    (hrun : (Command.assemble command).runOn files = (outcome, after))
    (hexit : outcome.exitCode = 0) :
    ∃ config out, command.Effective files config ∧ (program.assemble config).value = .ok out ∧
      command.Written out files after := by
  have hfails : ∀ failure other, ¬ Runs command.run files (.error failure) other := by
    intro failure other hruns
    rw [runOn_assemble hruns] at hrun
    cases hrun
    exact Nat.one_ne_zero hexit
  by_cases hconfig : ∃ config, command.Effective files config
  · obtain ⟨config, hconfig⟩ := hconfig
    cases hvalue : (program.assemble config).value with
    | error errors => exact absurd (runs_of_errors hconfig hprogram hvalue) (hfails _ _)
    | ok out =>
        by_cases hpaths : ∀ path ∈ command.outputPaths, ∃ location, files.WritableAt path location
        · obtain ⟨last, hruns, -, hwritten⟩ := exists_runs_ok hconfig hprogram hvalue hpaths
          rw [runOn_assemble hruns] at hrun
          cases hrun
          exact ⟨config, out, hconfig, hvalue, hwritten⟩
        · obtain ⟨failure, last, hruns, -⟩ :=
            exists_runs_error_of_not_writableAt hconfig hprogram hvalue hpaths
          exact absurd hruns (hfails _ _)
  · obtain ⟨failure, hruns⟩ := exists_runs_error (.inl hconfig)
    exact absurd hruns (hfails _ _)

/-- A command that cannot read what it needs, or whose program is not assembled, changes no file.
Any other changes at most its outputs.  It succeeds when they can be written, and then they hold the
image and the symbol table. -/
theorem assembling_changes_only_its_outputs (command : AssembleCommand) (files : FileTree) :
    ∃ outcome after, (Command.assemble command).runOn files = (outcome, after) ∧
      FileTree.AgreesOutside command.outputPaths files after ∧
      ((¬ ∃ config, command.Effective files config) ∨
          (¬ ∃ program : Program, files.Holds command.program program) →
        outcome.exitCode ≠ 0 ∧ after = files) ∧
      ∀ (config : Config) (program : Program), command.Effective files config →
        files.Holds command.program program →
        (∀ errors, (program.assemble config).value = .error errors →
          outcome.exitCode ≠ 0 ∧ after = files ∧
          outcome.diagnostics = (errors.map fun error => "error: " ++ error.message) ++
            ["Error: assembly failed with " ++ toString errors.length ++ " error(s)"]) ∧
        ∀ out, (program.assemble config).value = .ok out →
          (outcome.exitCode = 0 ↔
            ∀ path ∈ command.outputPaths, ∃ location, files.WritableAt path location) ∧
          (outcome.exitCode = 0 →
            (∀ path, command.symbols = some path →
              after.read path = .ok (Codec.write out.symbols).pretty.toUTF8 ∧
              after.Holds path out.symbols) ∧
            ∀ path, path = command.output.getD (withExtension command.program "bin") →
              (∀ other, command.symbols = some other →
                files.locate other ≠ files.locate path) →
              after.read path = .ok out.image.toBytes.toByteArray) := by
  refine ⟨((Command.assemble command).runOn files).1, ((Command.assemble command).runOn files).2,
    rfl, ?_, ?_, ?_⟩
  · obtain ⟨result, after, hruns, hagree⟩ := command.exists_runs_agreesOutside files
    rw [runOn_assemble hruns]
    exact hagree
  · intro hunread
    obtain ⟨failure, hruns⟩ := AssembleCommand.exists_runs_error hunread
    rw [runOn_assemble hruns]
    exact ⟨Nat.one_ne_zero, rfl⟩
  · intro config program hconfig hprogram
    refine ⟨?_, ?_⟩
    · intro errors herrors
      rw [runOn_assemble (AssembleCommand.runs_of_errors hconfig hprogram herrors)]
      exact ⟨Nat.one_ne_zero, rfl, rfl⟩
    · intro out hout
      by_cases hpaths : ∀ path ∈ command.outputPaths, ∃ location, files.WritableAt path location
      · obtain ⟨after, hruns, -, hwritten⟩ :=
          AssembleCommand.exists_runs_ok hconfig hprogram hout hpaths
        rw [runOn_assemble hruns]
        refine ⟨iff_of_true rfl hpaths, fun _ => ⟨?_, ?_⟩⟩
        · intro path hpath
          have hread := hwritten.symbols path hpath
          exact ⟨hread, _, hread, Codec.ofText_pretty out.symbols⟩
        · rintro path rfl hapart
          exact hwritten.image hapart
      · obtain ⟨failure, after, hruns, -⟩ :=
          AssembleCommand.exists_runs_error_of_not_writableAt hconfig hprogram hout hpaths
        rw [runOn_assemble hruns]
        refine ⟨iff_of_false Nat.one_ne_zero hpaths, fun hexit => absurd hexit Nat.one_ne_zero⟩

/-- A loop of the last two words of memory. -/
def lastLoop : Block where
  start := 0xFFFE
  statements := [
    ⟨some "TOP", .not (0#3).toFin (1#3).toFin⟩,
    ⟨none, .branch ⟨true, true, true⟩ (.label "TOP")⟩]

def lastLoopAssembled : Assembled where
  image := ⟨[⟨0xFFFE, [0x907F, 0x0FFE]⟩]⟩
  symbols := Dictionary.ofList [("TOP", 0xFFFE)]

/-- A file with the program of this block alone. -/
def lastLoopFiles : FileTree where
  workingDirectory := ["work"]
  files := [(["work", "loop.json"], (Codec.write (Program.mk [lastLoop])).pretty.toUTF8)]

/-- A command without an output file, and with a symbol file given from the root. -/
def assembleBeside : AssembleCommand where
  program := "loop.json"
  symbols := some "/work/loop.sym"

/-- Without an output file the image goes beside the program, which stays as it is. -/
theorem default_output_is_beside_the_program :
    ∃ outcome after, (Command.assemble assembleBeside).runOn lastLoopFiles = (outcome, after) ∧
      outcome.exitCode = 0 ∧
      after.read "loop.bin" = .ok lastLoopAssembled.image.toBytes.toByteArray ∧
      after.Holds "/work/loop.sym" lastLoopAssembled.symbols ∧
      after.find? ["work", "loop.json"] = lastLoopFiles.find? ["work", "loop.json"] := by
  have hprogram : lastLoopFiles.Holds "loop.json" (Program.mk [lastLoop]) :=
    ⟨_, rfl, Codec.ofText_pretty _⟩
  have hconfig : assembleBeside.Effective lastLoopFiles {} :=
    ⟨{}, fun _ => rfl, nofun, rfl, rfl⟩
  have hassemble : (Program.assemble ⟨[lastLoop]⟩ {}).value = .ok lastLoopAssembled := by decide
  have hdefault : assembleBeside.outputPaths = ["loop.bin", "/work/loop.sym"] := by decide
  have hpaths : ∀ path ∈ assembleBeside.outputPaths,
      ∃ location, lastLoopFiles.WritableAt path location := by
    have himage : lastLoopFiles.WritableAt "loop.bin" ["work", "loop.bin"] :=
      ⟨by decide, rfl, rfl⟩
    have hsymbols : lastLoopFiles.WritableAt "/work/loop.sym" ["work", "loop.sym"] :=
      ⟨by decide, rfl, rfl⟩
    rw [hdefault]
    exact List.forall_mem_cons.mpr ⟨⟨_, himage⟩, List.forall_mem_singleton.mpr ⟨_, hsymbols⟩⟩
  obtain ⟨outcome, after, hrun, hagree, -, hassembled⟩ :=
    assembling_changes_only_its_outputs assembleBeside lastLoopFiles
  obtain ⟨-, hout⟩ := hassembled {} ⟨[lastLoop]⟩ hconfig hprogram
  obtain ⟨hexit, hwritten⟩ := hout lastLoopAssembled hassemble
  obtain ⟨hsymbols, himage⟩ := hwritten (hexit.mpr hpaths)
  refine ⟨outcome, after, hrun, hexit.mpr hpaths, ?_, (hsymbols _ rfl).2, ?_⟩
  · apply himage "loop.bin" (by decide)
    rintro _ ⟨⟩
    decide
  · apply hagree
    rw [hdefault]
    decide

end LittleComputer.Tool
