import LittleComputer.Assembly
import LittleComputer.Instruction.Record
import LittleComputer.Json.Shape

/-!
The JSON forms of instructions, programs, configurations, symbol tables and images.
-/
namespace LittleComputer

open Codec

instance : Codec Register where
  write register := .int register.val
  read value := do
    let index ← readByte value
    (Register.ofIndex index).mapError fun error => .refused error.message

instance : Codec Opcode where
  write opcode := .str opcode.mnemonic
  read := readVariant (Opcode.all.map fun opcode => (opcode.mnemonic, opcode))

def OffsetRule.names : List (String × OffsetRule) :=
  [("strict", .strict), ("wrap", .wrap)]

instance : Codec OffsetRule where
  write
    | .strict => .str "strict"
    | .wrap => .str "wrap"
  read := readVariant OffsetRule.names

def Condition.shape : Shape Condition where
  name := "Nzp"
  blank := .never
  slots := [
    .of "n" .defaulted fun draft n => { draft with n },
    .of "z" .defaulted fun draft z => { draft with z },
    .of "p" .defaulted fun draft p => { draft with p }]

instance : Codec Condition where
  write condition :=
    .obj [("n", .bool condition.n), ("z", .bool condition.z), ("p", .bool condition.p)]
  read := Condition.shape.read

def Record.shape : Shape Record where
  name := "RawInstruction"
  blank := { operation := "" }
  slots := [
    .of "operation" .required fun draft operation => { draft with operation },
    .of "conditionCode" .optional fun draft conditionCode => { draft with conditionCode },
    .of "destReg" .optional fun draft destReg => { draft with destReg },
    .of "srcReg1" .optional fun draft srcReg1 => { draft with srcReg1 },
    .of "srcReg2" .optional fun draft srcReg2 => { draft with srcReg2 },
    .of "immediate" .optional fun draft immediate => { draft with immediate },
    .of "srcReg" .optional fun draft srcReg => { draft with srcReg },
    .of "register" .optional fun draft register => { draft with register },
    .of "moveReg" .optional fun draft moveReg => { draft with moveReg },
    .of "baseReg" .optional fun draft baseReg => { draft with baseReg },
    .of "offset" .optional fun draft offset => { draft with offset },
    { Slot.of "argLabel" .optional fun draft argLabel => { draft with argLabel } with
      otherName := some "gotoLabel" }]

instance : Codec Record where
  write record := .obj <|
    [("operation", .str record.operation)] ++
      optionalMember "conditionCode" record.conditionCode ++
      optionalMember "destReg" record.destReg ++
      optionalMember "srcReg1" record.srcReg1 ++
      optionalMember "srcReg2" record.srcReg2 ++
      optionalMember "immediate" record.immediate ++
      optionalMember "srcReg" record.srcReg ++
      optionalMember "register" record.register ++
      optionalMember "moveReg" record.moveReg ++
      optionalMember "baseReg" record.baseReg ++
      optionalMember "offset" record.offset ++
      optionalMember "argLabel" record.argLabel
  read := Record.shape.read

/-- An instruction has the form of its record. -/
instance : Codec Instruction where
  write instruction := write (Record.ofInstruction instruction)
  read value := do
    let record : Record ← read value
    record.toInstruction.mapError fun error => .refused error.message

def Statement.shape : Shape Statement where
  name := "Statement"
  blank := ⟨none, .branch .never (.offset 0)⟩
  slots := [
    .of "label" .defaulted fun draft label => { draft with label },
    .of "instruction" .required fun draft instruction => { draft with instruction }]

instance : Codec Statement where
  write statement := .obj <|
    optionalMember "label" statement.label ++ [("instruction", write statement.instruction)]
  read := Statement.shape.read

def Block.shape : Shape Block where
  name := "CodeBlock"
  blank := ⟨0, []⟩
  slots := [
    .of "start" .required fun draft start => { draft with start },
    .of "instructions" .required fun draft statements => { draft with statements }]

instance : Codec Block where
  write block := .obj [("start", write block.start), ("instructions", write block.statements)]
  read := Block.shape.read

def Program.shape : Shape Program where
  name := "Program"
  blank := ⟨[]⟩
  slots := [.of "blocks" .required fun draft blocks => { draft with blocks }]

instance : Codec Program where
  write program := .obj [("blocks", write program.blocks)]
  read := Program.shape.read

def Config.shape : Shape Config where
  name := "AsmConfig"
  blank := {}
  slots := [
    .of "offsets" .defaulted fun draft offsets => { draft with offsets },
    .of "allow_overlap" .defaulted fun draft allowOverlap => { draft with allowOverlap }]

instance : Codec Config where
  write config :=
    .obj [("offsets", write config.offsets), ("allow_overlap", write config.allowOverlap)]
  read := Config.shape.read

def Segment.shape : Shape Segment where
  name := "Segment"
  blank := ⟨0, []⟩
  slots := [
    .of "origin" .required fun draft origin => { draft with origin },
    .of "words" .required fun draft words => { draft with words }]

instance : Codec Segment where
  write segment := .obj [("origin", write segment.origin), ("words", write segment.words)]
  read := Segment.shape.read

def Image.shape : Shape Image where
  name := "Image"
  blank := ⟨[]⟩
  slots := [.of "segments" .required fun draft segments => { draft with segments }]

instance : Codec Image where
  write image := .obj [("segments", write image.segments)]
  read := Image.shape.read

def Assembled.shape : Shape Assembled where
  name := "Assembled"
  blank := ⟨⟨[]⟩, .empty⟩
  slots := [
    .of "image" .required fun draft image => { draft with image },
    .of "symbols" .required fun draft symbols => { draft with symbols }]

instance : Codec Assembled where
  write assembled :=
    .obj [("image", write assembled.image), ("symbols", write assembled.symbols)]
  read := Assembled.shape.read

end LittleComputer
