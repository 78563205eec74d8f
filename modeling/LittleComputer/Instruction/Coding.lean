import LittleComputer.Bits
import LittleComputer.Dictionary

/-!
From instructions to words.  A label is encoded as its distance from the next instruction, modulo
the size of memory; numeric operands and, under the strict rule, distances have to fit their field.
-/
namespace LittleComputer

open Bits

/-- What becomes of a label too far away for its field. -/
inductive OffsetRule
  /-- The instruction is refused. -/
  | strict
  /-- The low bits of the distance are kept. -/
  | wrap
deriving DecidableEq, Repr

/-- A computation that speaks and may refuse an instruction. -/
abbrev Encoding := ExceptT EncodeError Logged

namespace Encoding

def destField : BitField := ⟨"destReg", 9, 11⟩

def source1Field : BitField := ⟨"srcReg1", 6, 8⟩

def source2Field : BitField := ⟨"srcReg2", 0, 2⟩

def immediateField : BitField := ⟨"immediate", 0, 4⟩

def negativeField : BitField := ⟨"n", 11, 11⟩

def zeroField : BitField := ⟨"z", 10, 10⟩

def positiveField : BitField := ⟨"p", 9, 9⟩

def sourceField : BitField := ⟨"srcReg", 6, 8⟩

def highField : BitField := ⟨"register", 9, 11⟩

def baseField : BitField := ⟨"register", 6, 8⟩

def moveField : BitField := ⟨"moveReg", 9, 11⟩

def indexBaseField : BitField := ⟨"baseReg", 6, 8⟩

def indexField : BitField := ⟨"offset", 0, 5⟩

def targetField : BitField := ⟨"offset", 0, 8⟩

def callField : BitField := ⟨"offset", 0, 10⟩

/-- Marks the immediate form of ADD and AND. -/
def immediateFlag : Word := 0x20

/-- Marks JSR, as against JSRR. -/
def relativeCallFlag : Word := 0x800

/-- The low bits of NOT, all set. -/
def notLowBits : Word := 0x3F

def flag (set : Bool) : Int :=
  if set then 1 else 0

/-- A numeric operand that has to fit its field. -/
def checkField (field : String) (value : Int) (width : Nat) : Encoding Int :=
  if fits value width then pure value else throw (.fieldOutOfRange field value width)

/-- Distance from `next` to `address`, the short way round memory. -/
def distance (next address : Address) : Int :=
  (address - next).toInt

/-- The number to put into the field of a target. -/
def resolve (rule : OffsetRule) (next : Address) (symbols : SymbolTable) (width : Nat) :
    Target → Encoding Int
  | .offset value => checkField "offset" value.toInt width
  | .label name =>
      match symbols.find? name with
      | none => throw (.unresolvedLabel name)
      | some address => do
          let offset := distance next address
          if !fits offset width then
            match rule with
            | .strict => throw (.offsetOutOfRange name offset width)
            | .wrap => Logged.emit (.offsetTruncated name offset width)
          return offset

def bits (rule : OffsetRule) (next : Address) (symbols : SymbolTable) :
    Instruction → Encoding Word
  | .alu op dest source (.register register) =>
      pack op.opcode.mask
        [(destField, dest.val), (source1Field, source.val), (source2Field, register.val)]
  | .alu op dest source (.immediate value) => do
      let value ← checkField "immediate" value.toInt immediateWidth
      pack (op.opcode.mask ||| immediateFlag)
        [(destField, dest.val), (source1Field, source.val), (immediateField, value)]
  | .branch condition target => do
      let offset ← resolve rule next symbols targetWidth target
      let word ← pack Opcode.br.mask
        [(negativeField, flag condition.n), (zeroField, flag condition.z),
          (positiveField, flag condition.p)]
      return word ||| targetField.place offset
  | .jump base => pack Opcode.jmp.mask [(baseField, base.val)]
  | .call (.register base) => pack Opcode.jsr.mask [(baseField, base.val)]
  | .call (.relative target) => do
      let offset ← resolve rule next symbols callWidth target
      return Opcode.jsr.mask ||| relativeCallFlag ||| callField.place offset
  | .relative op register target => do
      let offset ← resolve rule next symbols targetWidth target
      let word ← pack op.opcode.mask [(highField, register.val)]
      return word ||| targetField.place offset
  | .indexed op register base offset => do
      let offset ← checkField "offset" offset.toInt indexWidth
      pack op.opcode.mask
        [(moveField, register.val), (indexBaseField, base.val), (indexField, offset)]
  | .not dest source =>
      pack (Opcode.not.mask ||| notLowBits) [(destField, dest.val), (sourceField, source.val)]

end Encoding

/-- Encodes an instruction.  `next` is the address of the instruction after it; that address and the
symbols matter only for label operands. -/
def Instruction.encode (instruction : Instruction) (rule : OffsetRule) (next : Address)
    (symbols : SymbolTable) : Encoding Word := do
  let word ← Encoding.bits rule next symbols instruction
  Logged.emit (.encoded instruction word)
  return word

/-!
From words to instructions.  The operation field picks the layout; bit 5 of ADD and AND and bit 11
of JSR pick between two forms.  Bits that a form does not use are ignored.
-/

namespace Word

/-- The register in the three bits from `low` on. -/
def register (word : Word) (low : Nat) : Register :=
  Fin.ofNat 8 (extract word low (low + 2)).toNat

/-- The signed number in the low `width` bits. -/
def signed (word : Word) (width : Nat) : Int16 :=
  Int16.ofInt (truncate (extract word 0 (width - 1)).toNat width)

/-- The flags in bits 9 to 11. -/
def condition (word : Word) : Condition :=
  ⟨testBit word 11, testBit word 10, testBit word 9⟩

def operand (word : Word) : Operand :=
  if testBit word 5 then .immediate (word.signed immediateWidth) else .register (word.register 0)

def callee (word : Word) : Callee :=
  if testBit word 11 then .relative (.offset (word.signed callWidth))
  else .register (word.register 6)

def target (word : Word) : Target :=
  .offset (word.signed targetWidth)

end Word

def decode (word : Word) : Except DecodeError Instruction :=
  let alu op := .ok (.alu op (word.register 9) (word.register 6) word.operand)
  let relative op := .ok (.relative op (word.register 9) word.target)
  let indexed op := .ok (.indexed op (word.register 9) (word.register 6) (word.signed indexWidth))
  let bits := (extract word 12 15).toNat
  match Opcode.ofBits? bits with
  | some .add => alu .add
  | some .and => alu .and
  | some .br => .ok (.branch word.condition word.target)
  | some .jmp => .ok (.jump (word.register 6))
  | some .jsr => .ok (.call word.callee)
  | some .ld => relative .ld
  | some .ldi => relative .ldi
  | some .lea => relative .lea
  | some .st => relative .st
  | some .sti => relative .sti
  | some .ldr => indexed .ldr
  | some .str => indexed .str
  | some .not => .ok (.not (word.register 9) (word.register 6))
  | some .rti | some .trap | none => .error ⟨word, .ofNat bits⟩

end LittleComputer
