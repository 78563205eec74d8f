import LittleComputer.Proofs.Bits.Truncation
import LittleComputer.Proofs.Instruction.Encoding

/-!
Decoding undoes encoding.  Every range that decoding looks at is one of the fields that encoding
filled, so it gives back the register, the flag or the number that was put there.  A number comes
back cut down to the width of its field, and a label comes back as the number it was resolved to.
-/
namespace LittleComputer

open Bits

namespace Word

theorem register_of_holds {word : Word} {register : Register} (field : BitField)
    (hwidth : field.high = field.low + 2)
    (hfield : field.Holds word register.val) :
    word.register field.low = register := by
  rw [BitField.Holds, BitField.width, hwidth, Nat.add_assoc,
    Nat.add_sub_cancel_left] at hfield
  rw [Word.register, hfield]
  clear hfield
  revert register
  decide

theorem testBit_of_holds {word : Word} {set : Bool} (field : BitField)
    (hwidth : field.high = field.low)
    (hfield : field.Holds word (Encoding.flag set)) :
    testBit word field.low = set := by
  rw [BitField.Holds, BitField.width, hwidth, Nat.add_sub_cancel_left] at hfield
  rw [testBit, hfield]
  clear hfield
  revert set
  decide

/-- The signed number in a field is the truncation of what was put there. -/
theorem signed_of_holds {word : Word} {value : Int} (field : BitField)
    (hlow : field.low = 0) (hlt : field.high < 16)
    (hfield : field.Holds word value) :
    word.signed (field.high + 1) =
      Int16.ofInt (truncate value (field.high + 1)) := by
  rw [BitField.Holds, BitField.width, hlow, Nat.sub_zero] at hfield
  have hnat : ((extract word 0 field.high).toNat : Int) =
      value % ((2 ^ (field.high + 1) : Nat) : Int) := by
    rw [hfield, BitVec.toNat_setWidth_of_le (by omega), BitVec.toNat_ofInt,
      Int.toNat_of_nonneg (Int.emod_nonneg _ (by positivity))]
  rw [Word.signed, Nat.add_sub_cancel, hnat,
    truncate_eq_bmod _ (by omega) (by omega), Int.emod_bmod,
    truncate_eq_bmod _ (by omega) (by omega)]

theorem opcode_of_holds {word : Word} {opcode : Opcode}
    (hfield : Encoding.operationField.Holds word opcode.bits) :
    Opcode.ofBits? (extract word 12 15).toNat = some opcode := by
  have hrange : extract word 12 15 = (BitVec.ofInt 4 opcode.bits).setWidth 16 :=
    hfield
  rw [hrange]
  cases opcode <;> decide

end Word

namespace Instruction

theorem label?_eq_some_iff {instruction : Instruction} {name : String} :
    instruction.label? = some name ↔
      ∃ width, instruction.target? = some (.label name, width) := by
  rw [label?]
  split
  · rename_i found width htarget
    simp [htarget]
  · rename_i hnone
    simp only [reduceCtorEq, false_iff, not_exists]
    exact hnone name

/-- Targets of calls are wider than the others. -/
theorem width_of_target {instruction : Instruction} {target : Target} {width : Nat}
    (htarget : instruction.target? = some (target, width)) :
    width = if instruction.opcode = .jsr then 11 else 9 := by
  rcases instruction with _ | _ | _ | (_ | _) | ⟨op, _, _⟩ | _ | _ <;>
    simp_all [target?, opcode, targetWidth, callWidth]
  cases op <;> simp_all [RelativeOp.opcode]

theorem width_bounds {instruction : Instruction} {target : Target} {width : Nat}
    (htarget : instruction.target? = some (target, width)) :
    1 ≤ width ∧ width ≤ 16 := by
  rw [width_of_target htarget]
  split <;> decide

theorem target?_withTarget {instruction : Instruction} {old new : Target}
    {width : Nat} (htarget : instruction.target? = some (old, width)) :
    (instruction.withTarget new).target? = some (new, width) := by
  rcases instruction with _ | _ | _ | (_ | _) | _ | _ | _ <;>
    simp_all [target?, withTarget]

theorem withTarget_self {instruction : Instruction} {target : Target} {width : Nat}
    (htarget : instruction.target? = some (target, width)) :
    instruction.withTarget target = instruction := by
  rcases instruction with _ | _ | _ | (_ | _) | _ | _ | _ <;>
    simp_all [target?, withTarget]

theorem withTarget_withTarget (instruction : Instruction) (first second : Target) :
    (instruction.withTarget first).withTarget second =
      instruction.withTarget second := by
  rcases instruction with _ | _ | _ | (_ | _) | _ | _ | _ <;> rfl

theorem destination?_withTarget_offset {instruction : Instruction}
    {target : Target} {width : Nat} (distance : Int16) (next : Address)
    (htarget : instruction.target? = some (target, width)) :
    (instruction.withTarget (.offset distance)).destination? next =
      some (next + distance.toBitVec) := by
  rw [destination?, offset?, target?_withTarget htarget]
  rfl

end Instruction

/-- The instruction with another number in its numeric field, cut down to the width of that field.
A label gives way to the number. -/
def Instruction.withNumber (number : Int) : Instruction → Instruction
  | .alu op dest source (.immediate _) =>
      .alu op dest source (.immediate (Int16.ofInt (truncate number immediateWidth)))
  | .indexed op register base _ =>
      .indexed op register base (Int16.ofInt (truncate number indexWidth))
  | instruction =>
      match instruction.target? with
      | some (_, width) =>
          instruction.withTarget (.offset (Int16.ofInt (truncate number width)))
      | none => instruction

theorem Instruction.withNumber_of_target {instruction : Instruction} {target : Target}
    {width : Nat} (number : Int)
    (htarget : instruction.target? = some (target, width)) :
    instruction.withNumber number =
      instruction.withTarget (.offset (Int16.ofInt (truncate number width))) := by
  rcases instruction with ⟨_, _, _, _ | _⟩ | _ | _ | (_ | _) | _ | _ | _ <;>
    simp_all [withNumber, target?]

section Operations

variable {word : Word}

theorem decode_of_alu {op : AluOp}
    (hop : Encoding.operationField.Holds word op.opcode.bits) :
    decode word =
      .ok (.alu op (word.register 9) (word.register 6) word.operand) := by
  have hopcode := Word.opcode_of_holds hop
  cases op <;> simp only [AluOp.opcode] at hopcode <;> simp only [decode, hopcode]

theorem decode_of_relative {op : RelativeOp}
    (hop : Encoding.operationField.Holds word op.opcode.bits) :
    decode word = .ok (.relative op (word.register 9) word.target) := by
  have hopcode := Word.opcode_of_holds hop
  cases op <;> simp only [RelativeOp.opcode] at hopcode <;>
    simp only [decode, hopcode]

theorem decode_of_indexed {op : IndexedOp}
    (hop : Encoding.operationField.Holds word op.opcode.bits) :
    decode word = .ok (.indexed op (word.register 9) (word.register 6)
      (word.signed indexWidth)) := by
  have hopcode := Word.opcode_of_holds hop
  cases op <;> simp only [IndexedOp.opcode] at hopcode <;>
    simp only [decode, hopcode]

end Operations

open Encoding in
/-- A word is decoded to the form it was made of, with the number that was put into it. -/
theorem decode_word (number : Int) (instruction : Instruction) :
    decode (word number instruction) = .ok (instruction.withNumber number) := by
  have hpart : ∀ field value, (field, value) ∈ parts number instruction →
      field.Holds (word number instruction) value :=
    fun _ _ hmem => holds_word hmem
  generalize word number instruction = encoded at hpart ⊢
  cases instruction with
  | alu op dest source operand =>
      have hop := hpart operationField op.opcode.bits (by cases operand <;> simp [parts])
      have hdest : encoded.register 9 = dest :=
        Word.register_of_holds destField rfl
          (hpart _ _ (by cases operand <;> simp [parts]))
      have hsource : encoded.register 6 = source :=
        Word.register_of_holds source1Field rfl
          (hpart _ _ (by cases operand <;> simp [parts]))
      rw [decode_of_alu hop, hdest, hsource, Word.operand]
      cases operand with
      | register register =>
          have hflag : testBit encoded 5 = false :=
            Word.testBit_of_holds immediateBit rfl
              (hpart _ _ (by simp [parts, flag]))
          have hregister : encoded.register 0 = register :=
            Word.register_of_holds source2Field rfl (hpart _ _ (by simp [parts]))
          rw [hflag, hregister]
          rfl
      | immediate value =>
          have hflag : testBit encoded 5 = true :=
            Word.testBit_of_holds immediateBit rfl
              (hpart _ _ (by simp [parts, flag]))
          have hnumber : encoded.signed immediateWidth =
              Int16.ofInt (truncate number immediateWidth) :=
            Word.signed_of_holds immediateField rfl (by decide)
              (hpart _ _ (by simp [parts]))
          rw [hflag, hnumber]
          rfl
  | branch condition target =>
      have hop := Word.opcode_of_holds
        (hpart operationField Opcode.br.bits (by simp [parts]))
      have hn : testBit encoded 11 = condition.n :=
        Word.testBit_of_holds negativeField rfl (hpart _ _ (by simp [parts]))
      have hz : testBit encoded 10 = condition.z :=
        Word.testBit_of_holds zeroField rfl (hpart _ _ (by simp [parts]))
      have hp : testBit encoded 9 = condition.p :=
        Word.testBit_of_holds positiveField rfl (hpart _ _ (by simp [parts]))
      have hnumber : encoded.signed targetWidth =
          Int16.ofInt (truncate number targetWidth) :=
        Word.signed_of_holds targetField rfl (by decide)
          (hpart _ _ (by simp [parts]))
      simp only [decode, hop, Word.condition, hn, hz, hp, Word.target, hnumber]
      rfl
  | jump base =>
      have hop := Word.opcode_of_holds
        (hpart operationField Opcode.jmp.bits (by simp [parts]))
      have hbase : encoded.register 6 = base :=
        Word.register_of_holds baseField rfl (hpart _ _ (by simp [parts]))
      simp only [decode, hop, hbase]
      rfl
  | call callee =>
      have hop := Word.opcode_of_holds (hpart operationField Opcode.jsr.bits
        (by cases callee <;> simp [parts]))
      simp only [decode, hop, Word.callee]
      cases callee with
      | register base =>
          have hflag : testBit encoded 11 = false :=
            Word.testBit_of_holds relativeCallBit rfl
              (hpart _ _ (by simp [parts, flag]))
          have hbase : encoded.register 6 = base :=
            Word.register_of_holds baseField rfl (hpart _ _ (by simp [parts]))
          rw [hflag, hbase]
          rfl
      | relative target =>
          have hflag : testBit encoded 11 = true :=
            Word.testBit_of_holds relativeCallBit rfl
              (hpart _ _ (by simp [parts, flag]))
          have hnumber : encoded.signed callWidth =
              Int16.ofInt (truncate number callWidth) :=
            Word.signed_of_holds callField rfl (by decide)
              (hpart _ _ (by simp [parts]))
          rw [hflag, hnumber]
          rfl
  | relative op register target =>
      have hop := hpart operationField op.opcode.bits (by simp [parts])
      have hregister : encoded.register 9 = register :=
        Word.register_of_holds highField rfl (hpart _ _ (by simp [parts]))
      have hnumber : encoded.signed targetWidth =
          Int16.ofInt (truncate number targetWidth) :=
        Word.signed_of_holds targetField rfl (by decide)
          (hpart _ _ (by simp [parts]))
      rw [decode_of_relative hop, hregister, Word.target, hnumber]
      rfl
  | indexed op register base value =>
      have hop := hpart operationField op.opcode.bits (by simp [parts])
      have hregister : encoded.register 9 = register :=
        Word.register_of_holds moveField rfl (hpart _ _ (by simp [parts]))
      have hbase : encoded.register 6 = base :=
        Word.register_of_holds indexBaseField rfl (hpart _ _ (by simp [parts]))
      have hnumber : encoded.signed indexWidth =
          Int16.ofInt (truncate number indexWidth) :=
        Word.signed_of_holds indexField rfl (by decide)
          (hpart _ _ (by simp [parts]))
      rw [decode_of_indexed hop, hregister, hbase, hnumber]
      rfl
  | not dest source =>
      have hop := Word.opcode_of_holds
        (hpart operationField Opcode.not.bits (by simp [parts]))
      have hdest : encoded.register 9 = dest :=
        Word.register_of_holds destField rfl (hpart _ _ (by simp [parts]))
      have hsource : encoded.register 6 = source :=
        Word.register_of_holds sourceField rfl (hpart _ _ (by simp [parts]))
      simp only [decode, hop, hdest, hsource]
      rfl

namespace Encoding

variable {rule : OffsetRule} {next : Address} {symbols : SymbolTable}
variable {instruction : Instruction}

theorem number_of_target {target : Target} {width : Nat}
    (htarget : instruction.target? = some (target, width)) :
    number rule next symbols instruction =
      offset rule next symbols width target := by
  rcases instruction with ⟨_, _, _, _ | _⟩ | _ | _ | (_ | _) | _ | _ | _ <;>
    simp_all [number, Instruction.target?]

theorem offset_label_eq_ok {width : Nat} {name : String} {value : Int}
    (hoffset : offset rule next symbols width (.label name) = .ok value) :
    ∃ address, symbols.find? name = some address ∧
      value = distance next address ∧
      (rule = .strict → fits (distance next address) width = true) := by
  simp only [offset] at hoffset
  cases hfind : symbols.find? name with
  | none => simp [hfind] at hoffset
  | some address =>
      simp only [hfind] at hoffset
      split at hoffset
      · rename_i hreach
        refine ⟨address, rfl, (Except.ok.inj hoffset).symm, fun hstrict => ?_⟩
        rcases hreach with hfits | hwrap
        · exact hfits
        · simp [hstrict] at hwrap
      · simp at hoffset

theorem checked_eq_ok {field : String} {value result : Int} {width : Nat}
    (hchecked : checked field value width = .ok result) :
    result = value ∧ fits value width = true := by
  simp only [checked] at hchecked
  split at hchecked
  · rename_i hfits
    exact ⟨(Except.ok.inj hchecked).symm, hfits⟩
  · simp at hchecked

/-- A numeric operand that passed its check comes back as it was. -/
theorem ofInt_truncate_of_checked {field : String} {value : Int16} {result : Int}
    {width : Nat} (hpos : 1 ≤ width) (hle : width ≤ 32)
    (hchecked : checked field value.toInt width = .ok result) :
    Int16.ofInt (truncate result width) = value := by
  obtain ⟨rfl, hfits⟩ := checked_eq_ok hchecked
  rw [truncate_eq_self_of_fits hpos hle hfits, Int16.ofInt_toInt]

/-- Without a label, the number of an instruction is the one it has already. -/
theorem withNumber_eq_self {value : Int} (hlabel : instruction.label? = none)
    (hnumber : number rule next symbols instruction = .ok value) :
    instruction.withNumber value = instruction := by
  cases htarget : instruction.target? with
  | some entry =>
      obtain ⟨target, width⟩ := entry
      obtain ⟨hpos, hle⟩ := Instruction.width_bounds htarget
      rw [number_of_target htarget] at hnumber
      cases target with
      | offset distance =>
          rw [Instruction.withNumber_of_target value htarget,
            ofInt_truncate_of_checked hpos (by omega) hnumber,
            Instruction.withTarget_self htarget]
      | label name =>
          have hsome := Instruction.label?_eq_some_iff.mpr ⟨width, htarget⟩
          simp [hlabel] at hsome
  | none =>
      rcases instruction with ⟨op, dest, source, register | immediate⟩ | _ | _ |
        (_ | _) | _ | ⟨op, register, base, distance⟩ | _
      case alu.immediate =>
        have hvalue := ofInt_truncate_of_checked (by decide) (by decide) hnumber
        simp only [Instruction.withNumber, hvalue]
      case indexed =>
        have hvalue := ofInt_truncate_of_checked (by decide) (by decide) hnumber
        simp only [Instruction.withNumber, hvalue]
      all_goals simp_all [Instruction.withNumber, Instruction.target?]

/-- The short way round memory is the balanced residue of the difference. -/
theorem distance_eq_bmod (next address : Address) :
    distance next address = ((address.toNat : Int) - next.toNat).bmod (2 ^ 16) := by
  rw [distance, BitVec.toInt_sub, BitVec.toInt_eq_toNat_bmod, BitVec.toInt_eq_toNat_bmod,
    Int.bmod_sub_bmod, Int.sub_bmod_bmod]

/-- The distance to an address, as a field of any width sees it. -/
theorem truncate_distance (next address : Address) {width : Nat}
    (hpos : 1 ≤ width) (hle : width ≤ 16) :
    truncate (distance next address) width =
      truncate (address.toNat - next.toNat) width := by
  rw [distance_eq_bmod, truncate_bmod _ hpos (by omega) hle]

theorem add_distance (next address : Address) :
    next + (Int16.ofInt (distance next address)).toBitVec = address := by
  rw [Int16.toBitVec_ofInt, distance, BitVec.ofInt_toInt, BitVec.add_comm,
    BitVec.sub_add_cancel]

theorem distance_add (next : Address) (offset : Int16) :
    distance next (next + offset.toBitVec) = offset.toInt := by
  rw [distance, BitVec.add_comm, BitVec.add_sub_cancel]
  rfl

/-- Without a label operand, decoding gives back the instruction. -/
theorem decode_of_encode {encoded : Word}
    (hencode : (instruction.encode rule next symbols).run.value = .ok encoded)
    (hlabel : instruction.label? = none) : decode encoded = .ok instruction := by
  obtain ⟨value, hnumber, rfl⟩ := value_encode_eq_ok_iff.mp hencode
  rw [decode_word, withNumber_eq_self hlabel hnumber]

/-- With a label operand, decoding gives back the instruction with the distance to the label in the
place of the label.  Under the strict rule that distance has not lost bits. -/
theorem decode_of_encode_label {encoded : Word} {name : String} {width : Nat}
    (hencode : (instruction.encode rule next symbols).run.value = .ok encoded)
    (htarget : instruction.target? = some (.label name, width)) :
    ∃ address, symbols.find? name = some address ∧
      decode encoded = .ok (instruction.withTarget (.offset (Int16.ofInt
        (truncate (distance next address) width)))) ∧
      (rule = .strict →
        truncate (distance next address) width = distance next address) := by
  obtain ⟨value, hnumber, rfl⟩ := value_encode_eq_ok_iff.mp hencode
  rw [number_of_target htarget] at hnumber
  obtain ⟨address, hfind, rfl, hstrict⟩ := offset_label_eq_ok hnumber
  obtain ⟨hpos, hle⟩ := Instruction.width_bounds htarget
  refine ⟨address, hfind, ?_, fun hrule => ?_⟩
  · rw [decode_word, Instruction.withNumber_of_target _ htarget]
  · exact truncate_eq_self_of_fits hpos (by omega) (hstrict hrule)

/-- Under the strict rule a label operand is decoded to a distance that reaches the label. -/
theorem destination?_of_encode_strict {encoded : Word} {name : String} {width : Nat}
    (hencode : (instruction.encode .strict next symbols).run.value = .ok encoded)
    (htarget : instruction.target? = some (.label name, width)) :
    ∃ address decoded, symbols.find? name = some address ∧
      decode encoded = .ok decoded ∧ decoded.destination? next = some address ∧
      decoded.withTarget (.label name) = instruction := by
  obtain ⟨address, hfind, hdecode, hexact⟩ :=
    decode_of_encode_label hencode htarget
  refine ⟨address, _, hfind, hdecode, ?_, ?_⟩
  · rw [Instruction.destination?_withTarget_offset _ _ htarget, hexact rfl,
      add_distance]
  · rw [Instruction.withTarget_withTarget, Instruction.withTarget_self htarget]

end Encoding

/-- Decoding undoes encoding up to the resolution of labels. -/
theorem decode_encode_up_to_resolution (instruction : Instruction)
    (rule : OffsetRule) (next : Address) (symbols : SymbolTable) (encoded : Word)
    (hencode : (instruction.encode rule next symbols).run.value = .ok encoded) :
    ∃ decoded, decode encoded = .ok decoded ∧
      (instruction.label? = none → decoded = instruction) ∧
      ∀ name, instruction.label? = some name →
        ∃ address, symbols.find? name = some address ∧
          decoded = instruction.withTarget (.offset (Int16.ofInt
            (truncate (address.toNat - next.toNat)
              (if instruction.opcode = .jsr then 11 else 9)))) ∧
          (rule = .strict → decoded.destination? next = some address) := by
  cases hlabel : instruction.label? with
  | none =>
      refine ⟨instruction, Encoding.decode_of_encode hencode hlabel, ?_, ?_⟩
      · intro _
        rfl
      · intro name hname
        simp at hname
  | some label =>
      obtain ⟨width, htarget⟩ := Instruction.label?_eq_some_iff.mp hlabel
      obtain ⟨hpos, hle⟩ := Instruction.width_bounds htarget
      obtain ⟨address, hfind, hdecode, hexact⟩ :=
        Encoding.decode_of_encode_label hencode htarget
      refine ⟨_, hdecode, by simp, ?_⟩
      rintro name ⟨⟩
      refine ⟨address, hfind, ?_, fun hstrict => ?_⟩
      · rw [Encoding.truncate_distance _ _ hpos hle,
          Instruction.width_of_target htarget]
      · rw [Instruction.destination?_withTarget_offset _ _ htarget,
          hexact hstrict, Encoding.add_distance]

/-- A branch near the start of memory back to a label at its end. -/
theorem decode_encode_branch_over_memory_end :
    ((Instruction.branch ⟨true, false, false⟩ (.label "LOOP")).encode .strict 0x0001
        (Dictionary.ofList [("LOOP", 0xFFFE)])).run.value = .ok 0x09FD ∧
      decode 0x09FD = .ok (.branch ⟨true, false, false⟩ (.offset (-3))) ∧
      (Instruction.branch ⟨true, false, false⟩ (.offset (-3))).destination? 0x0001 =
        some 0xFFFE := by
  have hencode : ((Instruction.branch ⟨true, false, false⟩ (.label "LOOP")).encode
      .strict 0x0001 (Dictionary.ofList [("LOOP", 0xFFFE)])).run.value =
        .ok 0x09FD := by decide
  obtain ⟨decoded, hdecode, -, hlabel⟩ :=
    decode_encode_up_to_resolution _ _ _ _ _ hencode
  obtain ⟨address, hfind, rfl, hreach⟩ := hlabel "LOOP" rfl
  have haddress : address = 0xFFFE :=
    Option.some.inj (hfind.symm.trans (by decide))
  subst haddress
  exact ⟨hencode, hdecode, hreach rfl⟩

end LittleComputer
