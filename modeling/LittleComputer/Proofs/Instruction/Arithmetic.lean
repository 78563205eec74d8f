import LittleComputer.Proofs.Instruction.Operands
import Mathlib.Data.Int.ModEq

/-!
Encoding as arithmetic.  The word of an instruction is a number: the operation times 4096, and each
operand times the weight of its lowest bit, where a number that may be negative counts as its
residue.  Encoding puts fields over each other bit by bit.  Fields without a common bit add up, so
the two give the same word, and they refuse the same operands.
-/
namespace LittleComputer

open Bits

namespace Arithmetic

/-- Number of words from `next` on to `address`, counted from -32768 to 32767. -/
def distance (next address : Address) : Int :=
  ((address.toNat : Int) - next.toNat + 32768) % 65536 - 32768

/-- A number that has to be in the signed range of `width` bits. -/
def numeral (field : String) (width : Nat) (value : Int16) : Except EncodeError Int :=
  if Representable value.toInt width then .ok value.toInt
  else .error (.fieldOutOfRange field value.toInt width)

/-- A target as a number of words from `next` on. -/
def target (rule : OffsetRule) (next : Address) (symbols : SymbolTable) (width : Nat) :
    Target → Except EncodeError Int
  | .offset value => numeral "offset" width value
  | .label name =>
      match symbols.find? name with
      | none => .error (.unresolvedLabel name)
      | some address =>
          if rule = .strict ∧ ¬ Representable (distance next address) width then
            .error (.offsetOutOfRange name (distance next address) width)
          else .ok (distance next address)

/-- The number in an instruction, zero for the forms that have none. -/
def number (rule : OffsetRule) (next : Address) (symbols : SymbolTable) :
    Instruction → Except EncodeError Int
  | .alu _ _ _ (.immediate value) => numeral "immediate" 5 value
  | .branch _ operand => target rule next symbols 9 operand
  | .call (.relative operand) => target rule next symbols 11 operand
  | .relative _ _ operand => target rule next symbols 9 operand
  | .indexed _ _ _ value => numeral "offset" 6 value
  | .alu _ _ _ (.register _) | .jump _ | .call (.register _) | .not _ _ => .ok 0

/-- The number of an operation in the instruction set. -/
def operation : Instruction → Int
  | .branch _ _ => 0
  | .alu .add _ _ _ => 1
  | .relative .ld _ _ => 2
  | .relative .st _ _ => 3
  | .call _ => 4
  | .alu .and _ _ _ => 5
  | .indexed .ldr _ _ _ => 6
  | .indexed .str _ _ _ => 7
  | .not _ _ => 9
  | .relative .ldi _ _ => 10
  | .relative .sti _ _ => 11
  | .jump _ => 12
  | .relative .lea _ _ => 14

/-- The operands of an instruction added up, each with its weight. -/
def amount (number : Int) : Instruction → Int
  | .alu _ dest source (.register register) =>
      dest.val * 512 + source.val * 64 + register.val
  | .alu _ dest source (.immediate _) =>
      dest.val * 512 + source.val * 64 + 32 + number % 32
  | .branch condition _ =>
      condition.n.toNat * 2048 + condition.z.toNat * 1024 + condition.p.toNat * 512 +
        number % 512
  | .jump base => base.val * 64
  | .call (.register base) => base.val * 64
  | .call (.relative _) => 2048 + number % 2048
  | .relative _ register _ => register.val * 512 + number % 512
  | .indexed _ register base _ => register.val * 512 + base.val * 64 + number % 64
  | .not dest source => dest.val * 512 + source.val * 64 + 63

def encode (rule : OffsetRule) (next : Address) (symbols : SymbolTable)
    (instruction : Instruction) : Except EncodeError Int := do
  let number ← number rule next symbols instruction
  return operation instruction * 4096 + amount number instruction

theorem bits_opcode (instruction : Instruction) :
    (instruction.opcode.bits : Int) = operation instruction := by
  cases instruction with
  | alu op => cases op <;> rfl
  | relative op => cases op <;> rfl
  | indexed op => cases op <;> rfl
  | _ => rfl

/-- The distance is the one number of its range that leads from `next` to `address`, up to turns
round memory. -/
theorem eq_distance_iff (next address : Address) (steps : Int) :
    steps = distance next address ↔
      -32768 ≤ steps ∧ steps ≤ 32767 ∧
        steps ≡ (address.toNat : Int) - next.toNat [ZMOD 65536] := by
  rw [distance, Int.ModEq]
  omega

theorem distance_eq (next address : Address) :
    Encoding.distance next address = distance next address := by
  have hrange :=
    representable_bmod ((address.toNat : Int) - next.toNat) (by decide : 1 ≤ 16)
  rw [← Encoding.distance_eq_bmod, Representable] at hrange
  rw [eq_distance_iff]
  refine ⟨by omega, by omega, ?_⟩
  rw [Encoding.distance_eq_bmod, Int.ModEq]
  exact Int.bmod_emod

theorem checked_eq (field : String) {width : Nat} (hle : width ≤ 32) (value : Int16) :
    Encoding.checked field value.toInt width = numeral field width value := by
  simp only [Encoding.checked, numeral, fits_iff_representable hle]

theorem offset_eq (rule : OffsetRule) (next : Address) (symbols : SymbolTable) {width : Nat}
    (hle : width ≤ 32) (operand : Target) :
    Encoding.offset rule next symbols width operand =
      target rule next symbols width operand := by
  cases operand with
  | offset value => exact checked_eq "offset" hle value
  | label name =>
      simp only [Encoding.offset, target, distance_eq, fits_iff_representable hle]
      cases symbols.find? name with
      | none => rfl
      | some address =>
          by_cases hrange : Representable (distance next address) width
          · simp [hrange]
          · cases rule <;> simp [hrange]

/-- Encoding and arithmetic refuse the same operands and count the same number otherwise. -/
theorem number_eq (rule : OffsetRule) (next : Address) (symbols : SymbolTable)
    (instruction : Instruction) :
    Encoding.number rule next symbols instruction =
      number rule next symbols instruction := by
  cases instruction with
  | alu op dest source operand =>
      cases operand with
      | register register => rfl
      | immediate value => exact checked_eq "immediate" (by decide) value
  | branch condition operand => exact offset_eq rule next symbols (by decide) operand
  | jump base => rfl
  | call callee =>
      cases callee with
      | register base => rfl
      | relative operand => exact offset_eq rule next symbols (by decide) operand
  | relative op register operand => exact offset_eq rule next symbols (by decide) operand
  | indexed op register base value => exact checked_eq "offset" (by decide) value
  | not dest source => rfl

end Arithmetic

namespace Encoding

theorem toNat_word_eq_sum (number : Int) (instruction : Instruction) :
    ((word number instruction).toNat : Int) =
      ((parts number instruction).map fun entry =>
        entry.2 % 2 ^ entry.1.width * 2 ^ entry.1.low).sum := by
  rw [word, toNat_pack 0#16 (isLayout_parts number instruction)]
  · simp
  · intro entry _
    simp [extract]

/-- Operations, registers and flags are less than the size of their fields, so nothing but the
number is reduced in the sum. -/
theorem toNat_word (number : Int) (instruction : Instruction) :
    ((word number instruction).toNat : Int) =
      Arithmetic.operation instruction * 4096 + Arithmetic.amount number instruction := by
  have hbits : ∀ opcode : Opcode, (opcode.bits : Int) % 2 ^ 4 = opcode.bits := by
    intro opcode
    cases opcode <;> rfl
  have hflag : ∀ set : Bool, flag set % 2 ^ 1 = set.toNat := by
    intro set
    cases set <;> rfl
  rw [toNat_word_eq_sum, ← Arithmetic.bits_opcode]
  rcases instruction with ⟨_, _, _, _ | _⟩ | _ | _ | (_ | _) | _ | _ | _ <;>
    simp only [parts, List.map_cons, List.map_nil, List.sum_cons, List.sum_nil,
      BitField.width, operationField, immediateBit, relativeCallBit, notLowField,
      destField, source1Field, source2Field, immediateField, negativeField, zeroField,
      positiveField, sourceField, highField, baseField, moveField, indexBaseField,
      indexField, targetField, callField, Nat.reduceAdd, Nat.reduceSub, hbits, hflag,
      Arithmetic.amount, Instruction.opcode] <;>
    omega

end Encoding

/-- Encoding is arithmetic: an instruction is refused where the sum of its parts is, and otherwise
its word is that sum.  The distance in it is fixed by its range and its residue. -/
theorem encoding_is_a_sum_of_parts (instruction : Instruction) (rule : OffsetRule)
    (next : Address) (symbols : SymbolTable) :
    (instruction.encode rule next symbols).run.value.map
        (fun encoded => (encoded.toNat : Int)) =
      Arithmetic.encode rule next symbols instruction ∧
    ∀ address steps, steps = Arithmetic.distance next address ↔
      -32768 ≤ steps ∧ steps ≤ 32767 ∧
        steps ≡ (address.toNat : Int) - next.toNat [ZMOD 65536] := by
  refine ⟨?_, fun address steps => Arithmetic.eq_distance_iff next address steps⟩
  rw [Encoding.value_encode, Arithmetic.number_eq, Arithmetic.encode]
  cases Arithmetic.number rule next symbols instruction with
  | error cause => rfl
  | ok number => exact congrArg Except.ok (Encoding.toNat_word number instruction)

end LittleComputer
