import LittleComputer.Text

/-!
The machine's words, addresses, registers and operations, and what can go wrong between words,
instructions, programs and images.  Words and addresses have sixteen bits, and address arithmetic
wraps.
-/
namespace LittleComputer

abbrev Word := BitVec 16

abbrev Address := Word

def memorySize : Nat := 0x10000

/-- The address `count` words further on. -/
def Address.advance (address : Address) (count : Nat) : Address :=
  address + BitVec.ofNat 16 count

/-- A word or an address as diagnostics show it, `0x3000`. -/
def Word.hex (word : Word) : String :=
  Numeral.hex 4 word.toNat

/-- A word or an address as listings show it, `3000`. -/
def Word.listed (word : Word) : String :=
  Numeral.upperHex 4 word.toNat

namespace Address

theorem advance_zero (address : Address) : address.advance 0 = address :=
  BitVec.add_zero address

theorem advance_succ (address : Address) (count : Nat) :
    address.advance (count + 1) = address.advance count + 1 := by
  rw [Address.advance, Address.advance, BitVec.ofNat_add, BitVec.add_assoc]
  rfl

theorem advance_comm (address : Address) (first second : Nat) :
    (address.advance first).advance second = (address.advance second).advance first := by
  simp only [Address.advance, BitVec.add_assoc, BitVec.add_comm (BitVec.ofNat 16 first)]

theorem advance_add_one (address : Address) (count : Nat) :
    address.advance count + 1 = (address + 1).advance count :=
  address.advance_comm count 1

/-- Inside memory, an address further on is a number that does not wrap. -/
theorem toNat_advance {address : Address} {count : Nat}
    (hinside : address.toNat + count < memorySize) :
    (address.advance count).toNat = address.toNat + count := by
  rw [Address.advance, BitVec.toNat_add, BitVec.toNat_ofNat, Nat.add_mod_mod]
  exact Nat.mod_eq_of_lt hinside

/-- An address that is not before another is some steps after it. -/
theorem advance_sub {first address : Address} (hle : first.toNat ≤ address.toNat) :
    first.advance (address.toNat - first.toNat) = address := by
  apply BitVec.eq_of_toNat_eq
  have hlt : address.toNat < memorySize := address.isLt
  rw [toNat_advance (by omega), Nat.add_sub_cancel' hle]

end Address

/-!
Opcodes and mnemonics.  An opcode is the operation field, bits 12 to 15 of a word; the value `0xD`
is reserved.  A mnemonic names an opcode and, for two aliases, one of its forms.
-/

inductive Opcode
  | br | add | ld | st | jsr | and | ldr | str | rti | not | ldi | sti | jmp | lea | trap
deriving DecidableEq, Repr

namespace Opcode

def all : List Opcode :=
  [br, add, ld, st, jsr, and, ldr, str, rti, not, ldi, sti, jmp, lea, trap]

def bits : Opcode → Nat
  | br => 0x0
  | add => 0x1
  | ld => 0x2
  | st => 0x3
  | jsr => 0x4
  | and => 0x5
  | ldr => 0x6
  | str => 0x7
  | rti => 0x8
  | not => 0x9
  | ldi => 0xA
  | sti => 0xB
  | jmp => 0xC
  | lea => 0xE
  | trap => 0xF

/-- The opcode whose operation field is in the low four bits. -/
def ofBits? (bits : Nat) : Option Opcode :=
  match bits % 16 with
  | 0x0 => some br
  | 0x1 => some add
  | 0x2 => some ld
  | 0x3 => some st
  | 0x4 => some jsr
  | 0x5 => some and
  | 0x6 => some ldr
  | 0x7 => some str
  | 0x8 => some rti
  | 0x9 => some not
  | 0xA => some ldi
  | 0xB => some sti
  | 0xC => some jmp
  | 0xE => some lea
  | 0xF => some trap
  | _ => none

/-- The opcode in its place in a word. -/
def mask (opcode : Opcode) : Word :=
  BitVec.ofNat 16 opcode.bits <<< 12

/-- RTI and TRAP are recognised, and neither encoded nor decoded. -/
def isSupported : Opcode → Bool
  | rti | trap => false
  | _ => true

end Opcode

/-- What a mnemonic fixes beyond its opcode. -/
inductive Form
  | any
  /-- JSRR: the subroutine address is in a register. -/
  | registerCall
  /-- RET: a jump through R7. -/
  | ret
deriving DecidableEq, Repr

structure Mnemonic where
  name : String
  opcode : Opcode
  form : Form
deriving DecidableEq, Repr

namespace Mnemonic

/-- Every mnemonic.  The first one of an opcode is its canonical name; the aliases come last. -/
def table : List Mnemonic :=
  [⟨"ADD", .add, .any⟩,
   ⟨"AND", .and, .any⟩,
   ⟨"BR", .br, .any⟩,
   ⟨"JMP", .jmp, .any⟩,
   ⟨"JSR", .jsr, .any⟩,
   ⟨"LD", .ld, .any⟩,
   ⟨"LDI", .ldi, .any⟩,
   ⟨"LDR", .ldr, .any⟩,
   ⟨"LEA", .lea, .any⟩,
   ⟨"NOT", .not, .any⟩,
   ⟨"RTI", .rti, .any⟩,
   ⟨"ST", .st, .any⟩,
   ⟨"STI", .sti, .any⟩,
   ⟨"STR", .str, .any⟩,
   ⟨"TRAP", .trap, .any⟩,
   ⟨"JSRR", .jsr, .registerCall⟩,
   ⟨"RET", .jmp, .ret⟩]

/-- Equality of texts up to the case of ASCII letters. -/
def sameName (a b : String) : Bool :=
  a.toList.map Char.toLower == b.toList.map Char.toLower

/-- The mnemonic spelled `name`, in either case. -/
def find? (name : String) : Option Mnemonic :=
  table.find? fun mnemonic => sameName mnemonic.name name

end Mnemonic

/-- The canonical name of an opcode.  Aliases never come back from here. -/
def Opcode.mnemonic (opcode : Opcode) : String :=
  ((Mnemonic.table.find? fun row => row.opcode == opcode).map Mnemonic.name).getD "???"

/-!
Errors, and how each is reported.
-/

/-- A word that is no instruction, and its operation field. -/
structure DecodeError where
  word : Word
  opcode : UInt8
deriving DecidableEq, Repr

def DecodeError.message (error : DecodeError) : String :=
  let name := ((Opcode.ofBits? error.opcode.toNat).map Opcode.mnemonic).getD "reserved"
  s!"unsupported opcode {Numeral.hex 1 error.opcode.toNat} ({name}) in word {error.word.hex}"

/-- An instruction that has no encoding where it stands. -/
inductive EncodeError
  | unresolvedLabel (label : String)
  /-- The label is too far away for a field of `bits` bits. -/
  | offsetOutOfRange (label : String) (offset : Int) (bits : Nat)
  /-- A numeric operand that its field cannot hold. -/
  | fieldOutOfRange (field : String) (value : Int) (bits : Nat)
deriving DecidableEq, Repr

def EncodeError.message : EncodeError → String
  | .unresolvedLabel label => s!"unresolved label `{label}`"
  | .offsetOutOfRange label offset bits =>
      s!"offset {Numeral.decimal offset} to `{label}` does not fit in " ++
        s!"{Numeral.decimal bits} signed bits"
  | .fieldOutOfRange field value bits =>
      s!"{field} = {Numeral.decimal value} is out of range for a {Numeral.decimal bits}-bit field"

inductive AssemblyError
  /-- `second` is the address of a statement whose label already stands at `first`. -/
  | duplicateLabel (label : String) (first second : Address)
  /-- The block at `second` takes words of the earlier block at `first`. -/
  | overlappingBlocks (first second : Address)
  | blockOverflow (origin : Address) (length : Nat)
  /-- The statement at `address` cannot be encoded. -/
  | encoding (address : Address) (cause : EncodeError)
deriving DecidableEq, Repr

def AssemblyError.message : AssemblyError → String
  | .duplicateLabel label first second =>
      s!"label `{label}` defined at {second.hex} was already defined at {first.hex}"
  | .overlappingBlocks first second => s!"block at {second.hex} overlaps block at {first.hex}"
  | .blockOverflow origin length =>
      s!"block at {origin.hex} with {Numeral.decimal length} words runs past the end of memory"
  | .encoding address cause => s!"at {address.hex}: {cause.message}"

def AssemblyError.report (errors : List AssemblyError) : String :=
  s!"{Numeral.decimal errors.length} assembly error(s)" ++
    String.join (errors.map fun error => s!"\n  {error.message}")

/-- Bytes that are no image at their origin. -/
inductive ImageError
  | oddLength (bytes : Nat)
  | overflow (origin : Address) (words : Nat)
deriving DecidableEq, Repr

def ImageError.message : ImageError → String
  | .oddLength bytes => s!"raw image has an odd number of bytes ({Numeral.decimal bytes})"
  | .overflow origin words =>
      s!"{Numeral.decimal words} words at {origin.hex} run past the end of memory"

/-- A general-purpose register, R0 to R7. -/
abbrev Register := Fin 8

namespace Register

/-- R7, which holds the return address of a subroutine. -/
def link : Register := ⟨7, by decide⟩

def text (register : Register) : String :=
  s!"R{Numeral.decimal register.val}"

def ofIndex (index : Nat) : Except EncodeError Register :=
  if h : index < 8 then .ok ⟨index, h⟩ else .error (.fieldOutOfRange "register" index 3)

end Register

end LittleComputer
