import LittleComputer.Interchange
import LittleComputer.Listing
import LittleComputer.Tool.Command
import LittleComputer.Tool.Files

/-!
Running a command.  A command that fails says why, and has changed no file before its first write.
-/
namespace LittleComputer.Tool

/-- Why a command failed: lines about single problems, and a last line. -/
structure Failure where
  details : List String := []
  message : String
deriving DecidableEq, Repr

/-- What a command leaves behind besides files. -/
structure Outcome where
  exitCode : Nat
  output : String := ""
  /-- Lines for the user. -/
  diagnostics : List String := []
deriving DecidableEq, Repr

variable {m : Type → Type} [Monad m] [Files m]

def readBytes (path : String) : ExceptT Failure m ByteArray := do
  match ← (Files.read path : m _) with
  | .ok content => return content
  | .error _ => throw { message := s!"reading {path}" }

def readJson (α : Type) [Codec α] (path : String) : ExceptT Failure m α := do
  let content ← readBytes path
  match String.fromUTF8? content with
  | none => throw { message := s!"reading {path}" }
  | some text =>
      match Codec.ofText text with
      | some value => return value
      | none => throw { message := s!"parsing {path}" }

def writeBytes (path : String) (content : ByteArray) : ExceptT Failure m Unit := do
  match ← (Files.write path content : m _) with
  | .ok () => return
  | .error _ => throw { message := s!"writing {path}" }

namespace AssembleCommand

/-- The configuration of the file, loosened by the flags. -/
def loosen (command : AssembleCommand) (config : Config) : Config where
  offsets := if command.wrapOffsets then .wrap else config.offsets
  allowOverlap := config.allowOverlap || command.allowOverlap

def readConfig (command : AssembleCommand) : ExceptT Failure m Config := do
  match command.config with
  | some path => return command.loosen (← readJson Config path)
  | none => return command.loosen {}

def outputPath (command : AssembleCommand) : String :=
  command.output.getD (withExtension command.program "bin")

def run (command : AssembleCommand) : ExceptT Failure m Unit := do
  let config ← command.readConfig
  let program ← readJson Program command.program
  match (program.assemble config).value with
  | .error errors =>
      throw {
        details := errors.map fun error => s!"error: {error.message}"
        message := s!"assembly failed with {Numeral.decimal errors.length} error(s)" }
  | .ok assembled =>
      writeBytes command.outputPath assembled.image.toBytes.toByteArray
      match command.symbols with
      | some path => writeBytes path (Codec.write assembled.symbols).pretty.toUTF8
      | none => return

end AssembleCommand

namespace ListCommand

/-- The text of a listing, each line with its line end. -/
def listingText (showWords : Bool) (lines : List Line) : String :=
  String.join (lines.map fun line => line.render showWords ++ "\n")

def readSymbols (command : ListCommand) : ExceptT Failure m (Option SymbolTable) := do
  match command.symbols with
  | some path => return some (← readJson SymbolTable path)
  | none => return none

/-- Gives the text to print. -/
def run (command : ListCommand) : ExceptT Failure m String := do
  match Address.parse command.origin with
  | .error error => throw { message := error.message }
  | .ok origin =>
      let content ← readBytes command.image
      match Image.ofBytes origin content.data.toList with
      | .error error => throw { message := error.message }
      | .ok image =>
          let symbols ← command.readSymbols
          let (lines, _) := DecodeCache.empty.disassembleSegments symbols image.segments
          let text := listingText command.showWords lines.value
          match command.output with
          | none => return text
          | some path =>
              match ← (Files.write path text.toUTF8 : m _) with
              | .ok () => return ""
              | .error fault => throw { message := fault.message }

end ListCommand

namespace Command

def run (command : Command) : m Outcome := do
  let work : ExceptT Failure m String := match command with
    | .assemble command => do
        command.run
        return ""
    | .list command => command.run
  match ← work.run with
  | .ok output => return { exitCode := 0, output }
  | .error failure =>
      return { exitCode := 1, diagnostics := failure.details ++ [s!"Error: {failure.message}"] }

end Command

end LittleComputer.Tool
