import LittleComputer.Instruction.Basic

/-!
Instructions as flat records, the way a source parser hands them over: an operation name and the
operands under their names, each of them optional.  Which operands are present picks the form.
-/
namespace LittleComputer

/-- An operation name and operands by name. -/
structure Record where
  operation : String
  conditionCode : Option Condition := none
  destReg : Option Register := none
  srcReg1 : Option Register := none
  srcReg2 : Option Register := none
  immediate : Option Int16 := none
  srcReg : Option Register := none
  register : Option Register := none
  moveReg : Option Register := none
  baseReg : Option Register := none
  offset : Option Int16 := none
  argLabel : Option String := none
deriving DecidableEq, Repr

/-- Why a record is not an instruction. -/
inductive RecordError
  | unknownOperation (name : String)
  | unsupported (mnemonic : String)
  | missing (mnemonic field : String)
  | conflict (mnemonic first second : String)
deriving DecidableEq, Repr

def RecordError.message : RecordError → String
  | .unknownOperation name => s!"unknown operation `{name}`"
  | .unsupported mnemonic => s!"{mnemonic} instructions are not supported"
  | .missing mnemonic field => s!"{mnemonic}: missing `{field}`"
  | .conflict mnemonic first second => s!"{mnemonic}: `{first}` and `{second}` cannot both be given"

namespace Record

/-- A field that the operation cannot do without. -/
def required {α : Type} (mnemonic field : String) : Option α → Except RecordError α
  | some value => .ok value
  | none => .error (.missing mnemonic field)

/-- The target: a distance or a label, and not both. -/
def target (record : Record) (mnemonic : String) : Except RecordError Target :=
  match record.offset, record.argLabel with
  | some distance, none => .ok (.offset distance)
  | none, some name => .ok (.label name)
  | some _, some _ => .error (.conflict mnemonic "offset" "argLabel")
  | none, none => .error (.missing mnemonic "argLabel")

/-- The second operand: a register or an immediate, and not both. -/
def operand (record : Record) (mnemonic : String) : Except RecordError Operand :=
  match record.srcReg2, record.immediate with
  | some register, none => .ok (.register register)
  | none, some value => .ok (.immediate value)
  | some _, some _ => .error (.conflict mnemonic "srcReg2" "immediate")
  | none, none => .error (.missing mnemonic "srcReg2")

/-- Where a call goes: through a register or to a target, and not both. -/
def callee (record : Record) (mnemonic : String) : Except RecordError Callee :=
  match record.register with
  | some register =>
      if record.offset.isSome || record.argLabel.isSome then
        .error (.conflict mnemonic "register" "argLabel")
      else .ok (.register register)
  | none => (record.target mnemonic).map .relative

def alu (record : Record) (mnemonic : String) (op : AluOp) : Except RecordError Instruction := do
  let dest ← required mnemonic "destReg" record.destReg
  let source ← required mnemonic "srcReg1" record.srcReg1
  let operand ← record.operand mnemonic
  return .alu op dest source operand

def relative (record : Record) (mnemonic : String) (op : RelativeOp) :
    Except RecordError Instruction := do
  let register ← required mnemonic "register" record.register
  let target ← record.target mnemonic
  return .relative op register target

def indexed (record : Record) (mnemonic : String) (op : IndexedOp) :
    Except RecordError Instruction := do
  let register ← required mnemonic "moveReg" record.moveReg
  let base ← required mnemonic "baseReg" record.baseReg
  let offset ← required mnemonic "offset" record.offset
  return .indexed op register base offset

/-- The instruction of a record whose operation is `mnemonic`.  Fields that are not of its form are
left aside. -/
def read (record : Record) (mnemonic : Mnemonic) : Except RecordError Instruction :=
  let name := mnemonic.name
  match mnemonic.opcode, mnemonic.form with
  | .add, _ => record.alu name .add
  | .and, _ => record.alu name .and
  | .br, _ => do
      let condition ← required name "conditionCode" record.conditionCode
      let target ← record.target name
      return .branch condition target
  | .jmp, .ret => .ok (.jump .link)
  | .jmp, _ => (required name "register" record.register).map .jump
  | .jsr, .registerCall =>
      (required name "register" record.register).map fun register => .call (.register register)
  | .jsr, _ => (record.callee name).map .call
  | .ld, _ => record.relative name .ld
  | .ldi, _ => record.relative name .ldi
  | .lea, _ => record.relative name .lea
  | .st, _ => record.relative name .st
  | .sti, _ => record.relative name .sti
  | .ldr, _ => record.indexed name .ldr
  | .str, _ => record.indexed name .str
  | .not, _ => do
      let dest ← required name "destReg" record.destReg
      let source ← required name "srcReg" record.srcReg
      return .not dest source
  | .rti, _ | .trap, _ => .error (.unsupported name)

def toInstruction (record : Record) : Except RecordError Instruction :=
  match Mnemonic.find? record.operation with
  | none => .error (.unknownOperation record.operation)
  | some mnemonic => record.read mnemonic

def withTarget (record : Record) : Target → Record
  | .offset distance => { record with offset := some distance }
  | .label name => { record with argLabel := some name }

/-- The record of an instruction, with the operands of its form alone. -/
def ofInstruction (instruction : Instruction) : Record :=
  let record : Record := { operation := instruction.opcode.mnemonic }
  match instruction with
  | .alu _ dest source (.register register) =>
      { record with destReg := some dest, srcReg1 := some source, srcReg2 := some register }
  | .alu _ dest source (.immediate value) =>
      { record with destReg := some dest, srcReg1 := some source, immediate := some value }
  | .branch condition target => { record with conditionCode := some condition }.withTarget target
  | .jump base => { record with register := some base }
  | .call (.register base) => { record with register := some base }
  | .call (.relative target) => record.withTarget target
  | .relative _ register target => { record with register := some register }.withTarget target
  | .indexed _ register base offset =>
      { record with moveReg := some register, baseReg := some base, offset := some offset }
  | .not dest source => { record with destReg := some dest, srcReg := some source }

end Record

end LittleComputer
