import LittleComputer.Instruction.Coding
import LittleComputer.Proofs.Bits.Fields

/-!
The outcome of encoding, without what is said on the way.  Encoding an instruction is two things
that do not depend on each other: `number` finds the number for the numeric field of the word and is
where an instruction may be refused, and `word` puts the parts of the instruction into their fields.
The operation and the flag bits are parts like the others, and no two parts share a bit.
-/
namespace LittleComputer

open Bits

namespace Encoding

variable {α β : Type}

@[simp] theorem value_run_pure (a : α) :
    (pure a : Encoding α).run.value = .ok a := rfl

@[simp] theorem value_run_lift (logged : Logged α) :
    (liftM logged : Encoding α).run.value = .ok logged.value := rfl

@[simp] theorem value_run_bind (first : Encoding α) (second : α → Encoding β) :
    (first >>= second).run.value =
      first.run.value >>= fun a => (second a).run.value := by
  change (first.run >>= ExceptT.bindCont second).value = _
  rw [Logged.value_bind]
  cases first.run.value <;> rfl

/-- What comes after a computation that cannot fail any more is a map over its outcome. -/
theorem bind_ok_eq_map (outcome : Except EncodeError α) (f : α → β) :
    (outcome >>= fun a => .ok (f a)) = outcome.map f := by
  cases outcome <;> rfl

/-- A numeric operand, if its field can hold it. -/
def checked (field : String) (value : Int) (width : Nat) :
    Except EncodeError Int :=
  if fits value width then .ok value
  else .error (.fieldOutOfRange field value width)

/-- The number for the field of a target, if there is one. -/
def offset (rule : OffsetRule) (next : Address) (symbols : SymbolTable)
    (width : Nat) : Target → Except EncodeError Int
  | .offset value => checked "offset" value.toInt width
  | .label name =>
      match symbols.find? name with
      | none => .error (.unresolvedLabel name)
      | some address =>
          if fits (distance next address) width = true ∨ rule = .wrap then
            .ok (distance next address)
          else .error (.offsetOutOfRange name (distance next address) width)

/-- The number for the numeric field of an instruction's word, if there is one.  Forms without a
numeric field take zero. -/
def number (rule : OffsetRule) (next : Address) (symbols : SymbolTable) :
    Instruction → Except EncodeError Int
  | .alu _ _ _ (.immediate value) =>
      checked "immediate" value.toInt immediateWidth
  | .indexed _ _ _ value => checked "offset" value.toInt indexWidth
  | instruction =>
      match instruction.target? with
      | some (target, width) => offset rule next symbols width target
      | none => .ok 0

def operationField : BitField := ⟨"operation", 12, 15⟩

/-- The bit that marks an immediate operand. -/
def immediateBit : BitField := ⟨"immediateFlag", 5, 5⟩

/-- The bit that marks a relative call. -/
def relativeCallBit : BitField := ⟨"relativeFlag", 11, 11⟩

def notLowField : BitField := ⟨"ones", 0, 5⟩

/-- The fields of an instruction's word and what they hold, with `number` in the numeric field. -/
def parts (number : Int) : Instruction → List (BitField × Int)
  | .alu op dest source (.register register) =>
      [(operationField, op.opcode.bits), (immediateBit, 0), (destField, dest.val),
        (source1Field, source.val), (source2Field, register.val)]
  | .alu op dest source (.immediate _) =>
      [(operationField, op.opcode.bits), (immediateBit, 1), (destField, dest.val),
        (source1Field, source.val), (immediateField, number)]
  | .branch condition _ =>
      [(operationField, Opcode.br.bits), (negativeField, flag condition.n),
        (zeroField, flag condition.z), (positiveField, flag condition.p),
        (targetField, number)]
  | .jump base => [(operationField, Opcode.jmp.bits), (baseField, base.val)]
  | .call (.register base) =>
      [(operationField, Opcode.jsr.bits), (relativeCallBit, 0), (baseField, base.val)]
  | .call (.relative _) =>
      [(operationField, Opcode.jsr.bits), (relativeCallBit, 1), (callField, number)]
  | .relative op register _ =>
      [(operationField, op.opcode.bits), (highField, register.val),
        (targetField, number)]
  | .indexed op register base _ =>
      [(operationField, op.opcode.bits), (moveField, register.val),
        (indexBaseField, base.val), (indexField, number)]
  | .not dest source =>
      [(operationField, Opcode.not.bits), (notLowField, -1), (destField, dest.val),
        (sourceField, source.val)]

def word (number : Int) (instruction : Instruction) : Word :=
  (pack 0#16 (parts number instruction)).value

theorem isLayout_parts (number : Int) (instruction : Instruction) :
    IsLayout ((parts number instruction).map Prod.fst) := by
  rcases instruction with ⟨_, _, _, _ | _⟩ | _ | _ | (_ | _) | _ | _ | _ <;>
    simp only [parts, List.map_cons, List.map_nil] <;> decide

/-- Every part of an instruction is in its field of the word. -/
theorem holds_word {number : Int} {instruction : Instruction} {field : BitField}
    {value : Int} (hpart : (field, value) ∈ parts number instruction) :
    field.Holds (word number instruction) value := by
  apply holds_pack 0#16 (isLayout_parts number instruction) _ hpart
  intro entry _
  simp [extract]

theorem mask_eq_place (opcode : Opcode) :
    opcode.mask = operationField.place opcode.bits := by
  cases opcode <;> decide

theorem immediateFlag_eq_place : immediateFlag = immediateBit.place 1 := by
  decide

theorem relativeCallFlag_eq_place :
    relativeCallFlag = relativeCallBit.place 1 := by
  decide

theorem notLowBits_eq_place : notLowBits = notLowField.place (-1) := by
  decide

theorem value_checkField (field : String) (value : Int) (width : Nat) :
    (checkField field value width).run.value = checked field value width := by
  simp only [checkField, checked]
  split <;> rfl

theorem value_resolve (rule : OffsetRule) (next : Address)
    (symbols : SymbolTable) (width : Nat) (target : Target) :
    (resolve rule next symbols width target).run.value =
      offset rule next symbols width target := by
  cases target with
  | offset value => exact value_checkField "offset" value.toInt width
  | label name =>
      simp only [resolve, offset]
      cases symbols.find? name with
      | none => rfl
      | some address =>
          by_cases hfits : fits (distance next address) width = true
          · simp [hfits]
          · cases rule with
            | strict =>
                simp only [hfits, reduceCtorEq, or_self, if_false]
                rfl
            | wrap =>
                simp only [hfits, or_true, if_true]
                rfl

theorem value_bits (rule : OffsetRule) (next : Address) (symbols : SymbolTable)
    (instruction : Instruction) :
    (bits rule next symbols instruction).run.value =
      (number rule next symbols instruction).map
        fun number => word number instruction := by
  -- The flags that encoding sets by hand are fields of the table in `parts`.
  have hflags := And.intro immediateFlag_eq_place
    (And.intro relativeCallFlag_eq_place notLowBits_eq_place)
  cases instruction with
  | alu op dest source operand =>
      cases operand with
      | register register =>
          simp only [bits, number, Instruction.target?, value_run_lift, word, parts,
            value_pack_cons, value_pack_nil, mask_eq_place, place_zero,
            BitVec.zero_or, BitVec.or_zero]
          rfl
      | immediate value =>
          simp only [bits, number, value_run_bind, value_checkField,
            value_run_lift, word, parts, value_pack_cons, value_pack_nil,
            mask_eq_place, hflags, BitVec.zero_or]
          exact bind_ok_eq_map _ _
  | branch condition target =>
      simp only [bits, number, Instruction.target?, value_run_bind,
        value_resolve, value_run_lift, value_run_pure, word, parts,
        value_pack_cons, value_pack_nil, mask_eq_place, BitVec.zero_or]
      exact bind_ok_eq_map _ _
  | jump base =>
      simp only [bits, number, Instruction.target?, value_run_lift, word, parts,
        value_pack_cons, value_pack_nil, mask_eq_place, BitVec.zero_or]
      rfl
  | call callee =>
      cases callee with
      | register base =>
          simp only [bits, number, Instruction.target?, value_run_lift, word, parts,
            value_pack_cons, value_pack_nil, mask_eq_place, place_zero,
            BitVec.zero_or, BitVec.or_zero]
          rfl
      | relative target =>
          simp only [bits, number, Instruction.target?, value_run_bind,
            value_resolve, value_run_pure, word, parts, value_pack_cons,
            value_pack_nil, mask_eq_place, hflags, BitVec.zero_or]
          exact bind_ok_eq_map _ _
  | relative op register target =>
      simp only [bits, number, Instruction.target?, value_run_bind,
        value_resolve, value_run_lift, value_run_pure, word, parts,
        value_pack_cons, value_pack_nil, mask_eq_place, BitVec.zero_or]
      exact bind_ok_eq_map _ _
  | indexed op register base value =>
      simp only [bits, number, value_run_bind, value_checkField,
        value_run_lift, word, parts, value_pack_cons, value_pack_nil,
        mask_eq_place, BitVec.zero_or]
      exact bind_ok_eq_map _ _
  | not dest source =>
      simp only [bits, number, Instruction.target?, value_run_lift, word, parts,
        value_pack_cons, value_pack_nil, mask_eq_place, hflags, BitVec.zero_or]
      rfl

/-- Encoding finds the number for the low field and puts it into the word of the form. -/
theorem value_encode (rule : OffsetRule) (next : Address)
    (symbols : SymbolTable) (instruction : Instruction) :
    (instruction.encode rule next symbols).run.value =
      (number rule next symbols instruction).map
        fun number => word number instruction := by
  rw [← value_bits]
  simp only [Instruction.encode, value_run_bind, value_run_lift, value_run_pure]
  cases (bits rule next symbols instruction).run.value <;> rfl

/-- An instruction that is encoded has its number, and its word is the form's with that number. -/
theorem value_encode_eq_ok_iff {rule : OffsetRule} {next : Address}
    {symbols : SymbolTable} {instruction : Instruction} {encoded : Word} :
    (instruction.encode rule next symbols).run.value = .ok encoded ↔
      ∃ value, number rule next symbols instruction = .ok value ∧
        word value instruction = encoded := by
  rw [value_encode]
  cases number rule next symbols instruction with
  | error error => simp [Except.map]
  | ok value => simp [Except.map]

end Encoding

end LittleComputer
