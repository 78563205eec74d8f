import LittleComputer.Machine

/-!
Instructions of the machine.  Forms that share a layout share a constructor, and an operand that
counts from the program counter is a `Target`: a distance, or a label still to be resolved.
-/
namespace LittleComputer

/-- The condition flags a branch looks at: negative, zero, positive. -/
structure Condition where
  n : Bool
  z : Bool
  p : Bool
deriving DecidableEq, Repr

/-- No flag at all: the branch is never taken. -/
def Condition.never : Condition := ⟨false, false, false⟩

/-- Second operand of an arithmetic instruction. -/
inductive Operand
  | register (register : Register)
  | immediate (value : Int16)
deriving DecidableEq, Repr

/-- An operand relative to the program counter. -/
inductive Target
  /-- Distance from the next instruction. -/
  | offset (distance : Int16)
  /-- The address of a statement. -/
  | label (name : String)
deriving DecidableEq, Repr

/-- Where a subroutine call goes. -/
inductive Callee
  | register (register : Register)
  | relative (target : Target)
deriving DecidableEq, Repr

/-- Operations on two operands and a destination. -/
inductive AluOp
  | add | and
deriving DecidableEq, Repr

/-- Operations on a register and a target. -/
inductive RelativeOp
  | ld | ldi | lea | st | sti
deriving DecidableEq, Repr

/-- Operations on a register and a distance from a base register. -/
inductive IndexedOp
  | ldr | str
deriving DecidableEq, Repr

inductive Instruction
  | alu (op : AluOp) (dest source : Register) (operand : Operand)
  | branch (condition : Condition) (target : Target)
  | jump (base : Register)
  | call (callee : Callee)
  | relative (op : RelativeOp) (register : Register) (target : Target)
  | indexed (op : IndexedOp) (register base : Register) (offset : Int16)
  | not (dest source : Register)
deriving DecidableEq, Repr

-- Widths of the numeric fields, in bits.

def immediateWidth : Nat := 5

def indexWidth : Nat := 6

def targetWidth : Nat := 9

def callWidth : Nat := 11

def AluOp.opcode : AluOp → Opcode
  | .add => .add
  | .and => .and

def RelativeOp.opcode : RelativeOp → Opcode
  | .ld => .ld
  | .ldi => .ldi
  | .lea => .lea
  | .st => .st
  | .sti => .sti

def IndexedOp.opcode : IndexedOp → Opcode
  | .ldr => .ldr
  | .str => .str

namespace Instruction

def opcode : Instruction → Opcode
  | alu op _ _ _ => op.opcode
  | branch _ _ => .br
  | jump _ => .jmp
  | call _ => .jsr
  | relative op _ _ => op.opcode
  | indexed op _ _ _ => op.opcode
  | not _ _ => .not

/-- The operand relative to the program counter and the width of its field. -/
def target? : Instruction → Option (Target × Nat)
  | branch _ target => some (target, targetWidth)
  | relative _ _ target => some (target, targetWidth)
  | call (.relative target) => some (target, callWidth)
  | _ => none

/-- The instruction with another target, if it has one. -/
def withTarget (target : Target) : Instruction → Instruction
  | branch condition _ => branch condition target
  | relative op register _ => relative op register target
  | call (.relative _) => call (.relative target)
  | other => other

def label? (instruction : Instruction) : Option String :=
  match instruction.target? with
  | some (.label name, _) => some name
  | _ => none

def offset? (instruction : Instruction) : Option Int16 :=
  match instruction.target? with
  | some (.offset distance, _) => some distance
  | _ => none

/-- The address that a numeric target reaches from the address of the next instruction. -/
def destination? (instruction : Instruction) (next : Address) : Option Address :=
  instruction.offset?.map fun distance => next + distance.toBitVec

end Instruction

/-!
Assembly text of an instruction, as listings show it.
-/

/-- A numeric operand, `#-5`. -/
def numberText (value : Int16) : String :=
  s!"#{Numeral.decimal value.toInt}"

def Operand.text : Operand → String
  | .register r => r.text
  | .immediate value => numberText value

def Target.text : Target → String
  | .offset distance => numberText distance
  | .label name => name

/-- The letters of the flags that are looked at. -/
def Condition.letters (condition : Condition) : String :=
  (if condition.n then "n" else "") ++ (if condition.z then "z" else "") ++
    (if condition.p then "p" else "")

/-- The text of an instruction.  A branch on no flag is `NOP`, and a jump through R7 is `RET`. -/
def Instruction.text : Instruction → String
  | .alu op dest source operand =>
      s!"{op.opcode.mnemonic} {dest.text}, {source.text}, {operand.text}"
  | .branch condition target =>
      if condition = .never then "NOP" else s!"BR{condition.letters} {target.text}"
  | .jump base => if base = .link then "RET" else s!"JMP {base.text}"
  | .call (.register base) => s!"JSRR {base.text}"
  | .call (.relative target) => s!"JSR {target.text}"
  | .relative op register target => s!"{op.opcode.mnemonic} {register.text}, {target.text}"
  | .indexed op register base offset =>
      s!"{op.opcode.mnemonic} {register.text}, {base.text}, {numberText offset}"
  | .not dest source => s!"NOT {dest.text}, {source.text}"

end LittleComputer
