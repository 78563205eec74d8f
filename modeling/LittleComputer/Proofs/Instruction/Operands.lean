import LittleComputer.Proofs.Instruction.RoundTrip

/-!
Operands that decide whether an instruction can be encoded.  An instruction has at most one: a
number, which has to fit its field wherever the instruction stands, or a label, which has to be
defined and, under the strict rule, near enough.
-/
namespace LittleComputer

open Bits

namespace Instruction

/-- The numeric operand of an instruction, with the name and the width of its field. -/
def numeral? : Instruction → Option (String × Int × Nat)
  | alu _ _ _ (.immediate value) => some ("immediate", value.toInt, immediateWidth)
  | indexed _ _ _ value => some ("offset", value.toInt, indexWidth)
  | instruction =>
      match instruction.target? with
      | some (.offset value, width) => some ("offset", value.toInt, width)
      | _ => none

theorem numeral?_of_target {instruction : Instruction} {target : Target} {width : Nat}
    (htarget : instruction.target? = some (target, width)) :
    instruction.numeral? =
      match target with
      | .offset value => some ("offset", value.toInt, width)
      | .label _ => none := by
  rcases instruction with _ | ⟨_, old⟩ | _ | (_ | old) | ⟨_, _, old⟩ | _ | _
  case branch | call.relative | relative =>
    obtain ⟨rfl, rfl⟩ := Prod.mk.inj (Option.some.inj htarget)
    cases old <;> rfl
  all_goals cases htarget

/-- Numbers stand in narrow fields. -/
theorem width_le_of_numeral {instruction : Instruction} {field : String} {value : Int}
    {width : Nat} (hnumeral : instruction.numeral? = some (field, value, width)) :
    width ≤ 16 := by
  have hnarrow : immediateWidth ≤ 16 ∧ indexWidth ≤ 16 ∧ targetWidth ≤ 16 ∧ callWidth ≤ 16 := by
    decide
  rcases instruction with ⟨_, _, _, _ | _⟩ | ⟨_, _ | _⟩ | _ | (_ | _ | _) |
    ⟨_, _, _ | _⟩ | _ | _ <;>
    simp only [numeral?, target?, Option.some.injEq, Prod.mk.injEq, reduceCtorEq] at hnumeral <;>
    omega

end Instruction

namespace Encoding

variable {rule : OffsetRule} {next : Address} {symbols : SymbolTable}
variable {instruction : Instruction}

theorem number_of_numeral {field : String} {value : Int} {width : Nat}
    (hnumeral : instruction.numeral? = some (field, value, width)) :
    number rule next symbols instruction = checked field value width := by
  rcases instruction with ⟨_, _, _, _ | _⟩ | ⟨_, _ | _⟩ | _ | (_ | _ | _) |
    ⟨_, _, _ | _⟩ | _ | _ <;>
    simp_all [number, offset, Instruction.numeral?, Instruction.target?]

/-- Forms without a numeric operand and without a label can always be encoded. -/
theorem number_of_plain (hnumeral : instruction.numeral? = none)
    (hlabel : instruction.label? = none) :
    number rule next symbols instruction = .ok 0 := by
  rcases instruction with ⟨_, _, _, _ | _⟩ | ⟨_, _ | _⟩ | _ | (_ | _ | _) |
    ⟨_, _, _ | _⟩ | _ | _ <;>
    simp_all [number, Instruction.numeral?, Instruction.target?, Instruction.label?]

theorem checked_eq_error_iff {field : String} {value : Int} {width : Nat} (hle : width ≤ 32)
    {cause : EncodeError} :
    checked field value width = .error cause ↔
      ¬ Representable value width ∧ cause = .fieldOutOfRange field value width := by
  rw [checked, ← fits_iff_representable hle]
  by_cases hfits : fits value width = true
  · simp [hfits]
  · simp [hfits, @eq_comm _ cause]

theorem offset_label_eq_error_iff {name : String} {width : Nat} (hle : width ≤ 32)
    {cause : EncodeError} :
    offset rule next symbols width (.label name) = .error cause ↔
      (symbols.find? name = none ∧ cause = .unresolvedLabel name) ∨
        rule = .strict ∧ ∃ address, symbols.find? name = some address ∧
          ¬ Representable (distance next address) width ∧
          cause = .offsetOutOfRange name (distance next address) width := by
  simp only [offset, ← fits_iff_representable hle]
  cases hfind : symbols.find? name with
  | none => simp [@eq_comm _ cause]
  | some address =>
      by_cases hfits : fits (distance next address) width = true
      · simp [hfits]
      · cases rule with
        | strict => simp [hfits, @eq_comm _ cause]
        | wrap => simp

/-- An instruction is refused for its number, which its field cannot hold, or for its label, which
is not defined or, under the strict rule, too far away. -/
theorem number_eq_error_iff {cause : EncodeError} :
    number rule next symbols instruction = .error cause ↔
      (∃ field value width, instruction.numeral? = some (field, value, width) ∧
        ¬ Representable value width ∧ cause = .fieldOutOfRange field value width) ∨
      ∃ name width, instruction.target? = some (.label name, width) ∧
        ((symbols.find? name = none ∧ cause = .unresolvedLabel name) ∨
          rule = .strict ∧ ∃ address, symbols.find? name = some address ∧
            ¬ Representable (distance next address) width ∧
            cause = .offsetOutOfRange name (distance next address) width) := by
  cases hnumeral : instruction.numeral? with
  | some entry =>
      obtain ⟨field, value, width⟩ := entry
      have hle : width ≤ 16 := Instruction.width_le_of_numeral hnumeral
      rw [number_of_numeral hnumeral, checked_eq_error_iff (by omega)]
      constructor
      · rintro ⟨hrange, rfl⟩
        exact .inl ⟨field, value, width, rfl, hrange, rfl⟩
      · rintro (⟨_, _, _, ⟨⟩, hrange, rfl⟩ | ⟨name, labelWidth, htarget, -⟩)
        · exact ⟨hrange, rfl⟩
        · simp [Instruction.numeral?_of_target htarget] at hnumeral
  | none =>
      cases hlabel : instruction.label? with
      | none =>
          rw [number_of_plain hnumeral hlabel]
          constructor
          · intro hok
            cases hok
          · rintro (⟨_, _, _, ⟨⟩, -⟩ | ⟨name, width, htarget, -⟩)
            have hsome := Instruction.label?_eq_some_iff.mpr ⟨width, htarget⟩
            simp [hlabel] at hsome
      | some name =>
          obtain ⟨width, htarget⟩ := Instruction.label?_eq_some_iff.mp hlabel
          have hle : width ≤ 16 := (Instruction.width_bounds htarget).2
          rw [number_of_target htarget, offset_label_eq_error_iff (by omega)]
          constructor
          · intro hcause
            exact .inr ⟨name, width, htarget, hcause⟩
          · rintro (⟨_, _, _, ⟨⟩, -⟩ | ⟨_, _, htarget', hcause⟩)
            rw [htarget] at htarget'
            cases htarget'
            exact hcause

theorem value_encode_eq_error_iff {cause : EncodeError} :
    (instruction.encode rule next symbols).run.value = .error cause ↔
      number rule next symbols instruction = .error cause := by
  rw [value_encode]
  cases number rule next symbols instruction <;> simp [Except.map]

end Encoding

end LittleComputer
