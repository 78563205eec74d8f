import LittleComputer.Tool.Run

/-!
The command line of the tool.
-/
namespace LittleComputer.Tool

/-- The fault behind an error of the operating system. -/
def FileFault.ofError : IO.Error → FileFault
  | .noFileOrDirectory .. => .notFound
  | .inappropriateType _ code _ => if code = 20 then .notDirectory else .isDirectory
  | .invalidArgument _ code details =>
      if code = 36 then .nameTooLong else .other s!"{details} (os error {code})"
  | .permissionDenied _ code details => .other s!"{details} (os error {code})"
  | error => .other (toString error)

instance : Files IO where
  read path := do
    try
      return .ok (← IO.FS.readBinFile path)
    catch error => return .error (.ofError error)
  write path content := do
    try
      IO.FS.writeBinFile path content
      return .ok ()
    catch error => return .error (.ofError error)

def usage : String :=
  "usage: assemble PROGRAM [-o|--output FILE] [--symbols FILE] [--config FILE] [--wrap-offsets]" ++
    " [--allow-overlap]\n" ++
    "       disasm BINFILE [--origin ADDR] [--symbols FILE] [--show-words] [--out FILE]"

end LittleComputer.Tool

open LittleComputer.Tool in
def main (arguments : List String) : IO UInt32 := do
  match Command.parse arguments with
  | none =>
      IO.eprintln usage
      return 2
  | some command =>
      let outcome ← (command.run : IO Outcome)
      IO.print outcome.output
      for line in outcome.diagnostics do
        IO.eprintln line
      return UInt32.ofNat outcome.exitCode
