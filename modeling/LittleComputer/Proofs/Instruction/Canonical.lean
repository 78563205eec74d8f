import LittleComputer.Proofs.Instruction.Operands

/-!
Words that decode, encoded again.  A word that decodes holds the parts of its instruction, all but
the ones of NOT.  So encoding the instruction keeps the bits of its fields, and the bits that its
form leaves unused take one value for every word of that instruction.
-/
namespace LittleComputer

open Bits

theorem Opcode.bits_of_ofBits? {bits : Nat} {opcode : Opcode}
    (hopcode : Opcode.ofBits? bits = some opcode) : opcode.bits = bits % 16 := by
  rw [Opcode.ofBits?] at hopcode
  split at hopcode <;> cases hopcode
  all_goals
    rename_i hresidue
    exact hresidue.symm

namespace Word

theorem holds_register (word : Word) (field : BitField)
    (hwidth : field.high = field.low + 2) (hlt : field.high < 16) :
    field.Holds word (word.register field.low).val := by
  apply holds_of_toNat_extract hlt
  have hfield : field.width = 3 := by
    rw [BitField.width]
    omega
  rw [hfield, Word.register, ← hwidth, toNat_extract, hwidth]
  simp

theorem holds_flag (word : Word) (field : BitField) (hwidth : field.high = field.low)
    (hlt : field.high < 16) :
    field.Holds word (Encoding.flag (testBit word field.low)) := by
  apply holds_of_toNat_extract hlt
  have hfield : field.width = 1 := by
    rw [BitField.width]
    omega
  have hsmall : (extract word field.low field.low).toNat < 2 := by
    rw [toNat_extract, Nat.sub_self]
    exact Nat.mod_lt _ (by decide)
  rw [hfield, hwidth, testBit, Encoding.flag]
  by_cases hset : extract word field.low field.low = 1#16
  · simp [hset]
  · have hzero : (extract word field.low field.low).toNat = 0 := by
      have hne : (extract word field.low field.low).toNat ≠ 1 := fun hone =>
        hset (BitVec.eq_of_toNat_eq hone)
      omega
    simp [hset, hzero]

/-- The signed number in the low bits of a word is their balanced residue, and so it fits. -/
theorem toInt_signed (word : Word) {width : Nat} (hpos : 1 ≤ width) (hle : width ≤ 16) :
    (word.signed width).toInt =
        ((extract word 0 (width - 1)).toNat : Int).bmod (2 ^ width) ∧
      Representable (word.signed width).toInt width := by
  have hfits := representable_bmod ((extract word 0 (width - 1)).toNat : Int) hpos
  have hvalue : (word.signed width).toInt =
      ((extract word 0 (width - 1)).toNat : Int).bmod (2 ^ width) := by
    rw [Word.signed, truncate_eq_bmod _ hpos (by omega)]
    exact toInt_ofInt_of_representable hle hfits
  exact ⟨hvalue, hvalue ▸ hfits⟩

theorem holds_signed (word : Word) (field : BitField) (hlow : field.low = 0)
    (hlt : field.high < 16) :
    field.Holds word (word.signed (field.high + 1)).toInt := by
  apply holds_of_toNat_extract hlt
  have hfield : field.width = field.high + 1 := by
    rw [BitField.width]
    omega
  have hsmall : (extract word 0 field.high).toNat < 2 ^ (field.high + 1) := by
    rw [toNat_extract]
    exact Nat.mod_lt _ (Nat.two_pow_pos _)
  rw [(toInt_signed word (by omega) (by omega)).1, hfield, Nat.add_sub_cancel, hlow,
    Int.bmod_emod, ← Int.natCast_mod, Nat.mod_eq_of_lt hsmall]

/-- The form of ADD and AND that a word shows, and the flag that shows it. -/
theorem operand_cases (word : Word) :
    (Encoding.immediateBit.Holds word 0 ∧ word.operand = .register (word.register 0)) ∨
      Encoding.immediateBit.Holds word 1 ∧
        word.operand = .immediate (word.signed immediateWidth) := by
  have hflag : Encoding.immediateBit.Holds word (Encoding.flag (testBit word 5)) :=
    word.holds_flag Encoding.immediateBit rfl (by decide)
  rw [Word.operand]
  cases hset : testBit word 5 with
  | false =>
      rw [hset] at hflag
      exact .inl ⟨hflag, rfl⟩
  | true =>
      rw [hset] at hflag
      exact .inr ⟨hflag, rfl⟩

/-- The form of a call that a word shows, and the flag that shows it. -/
theorem callee_cases (word : Word) :
    (Encoding.relativeCallBit.Holds word 0 ∧
        word.callee = .register (word.register 6)) ∨
      Encoding.relativeCallBit.Holds word 1 ∧
        word.callee = .relative (.offset (word.signed callWidth)) := by
  have hflag : Encoding.relativeCallBit.Holds word (Encoding.flag (testBit word 11)) :=
    word.holds_flag Encoding.relativeCallBit rfl (by decide)
  rw [Word.callee]
  cases hset : testBit word 11 with
  | false =>
      rw [hset] at hflag
      exact .inl ⟨hflag, rfl⟩
  | true =>
      rw [hset] at hflag
      exact .inr ⟨hflag, rfl⟩

theorem holds_operation {word : Word} {opcode : Opcode}
    (hopcode : Opcode.ofBits? (extract word 12 15).toNat = some opcode) :
    Encoding.operationField.Holds word opcode.bits := by
  apply holds_of_toNat_extract (by decide)
  have hsmall : (extract word 12 15).toNat < 16 := by
    rw [toNat_extract]
    exact Nat.mod_lt _ (by decide)
  have hbits := Opcode.bits_of_ofBits? hopcode
  rw [Nat.mod_eq_of_lt hsmall] at hbits
  change ((extract word 12 15).toNat : Int) = opcode.bits % 16
  omega

end Word

/-- The ones of NOT hide the bits under them. -/
theorem Encoding.holds_or_notLow (word : Word) :
    notLowField.Holds (word ||| notLowField.place (-1)) (-1) := by
  apply BitVec.eq_of_getLsbD_eq
  intro index hindex
  rw [extract_or, BitVec.getLsbD_or, getLsbD_extract]
  have hones : extract (notLowField.place (-1)) notLowField.low notLowField.high =
      (BitVec.ofInt notLowField.width (-1)).setWidth 16 :=
    holds_place (-1) (by decide) (by decide)
  rw [hones]
  by_cases hinside : index ≤ notLowField.high - notLowField.low
  · have hbit : ((BitVec.ofInt notLowField.width (-1)).setWidth 16).getLsbD index = true := by
      revert index
      decide
    rw [hbit, Bool.or_true]
  · simp [hinside]

namespace Instruction

/-- The number in the numeric field of an instruction without a label, zero if there is none. -/
def numeral (instruction : Instruction) : Int :=
  match instruction.numeral? with
  | some (_, value, _) => value
  | none => 0

/-- The bits that the form of an instruction does not use. -/
def spareBits : Instruction → List Nat
  | alu _ _ _ (.register _) => [3, 4]
  | jump _ => [0, 1, 2, 3, 4, 5, 9, 10, 11]
  | call (.register _) => [0, 1, 2, 3, 4, 5, 9, 10]
  | not _ _ => [0, 1, 2, 3, 4, 5]
  | _ => []

/-- What encoding puts into the unused bits: ones for NOT, else zeros. -/
def spareValue : Instruction → Bool
  | not _ _ => true
  | _ => false

/-- The ones that encoding puts over the unused bits. -/
def spareOnes : Instruction → Word
  | not _ _ => Encoding.notLowBits
  | _ => 0#16

theorem spareBits_withNumber (instruction : Instruction) (number : Int) :
    (instruction.withNumber number).spareBits = instruction.spareBits := by
  rcases instruction with ⟨_, _, _, _ | _⟩ | _ | _ | (_ | _) | _ | _ | _ <;>
    simp only [withNumber, target?, withTarget, spareBits]

theorem spareValue_withNumber (instruction : Instruction) (number : Int) :
    (instruction.withNumber number).spareValue = instruction.spareValue := by
  rcases instruction with ⟨_, _, _, _ | _⟩ | _ | _ | (_ | _) | _ | _ | _ <;>
    simp only [withNumber, target?, withTarget, spareValue]

end Instruction

/-- The operands of an instruction are those that a word has in the places of its form. -/
def Word.Shows (word : Word) : Instruction → Prop
  | .alu _ dest source operand =>
      word.register 9 = dest ∧ word.register 6 = source ∧ word.operand = operand
  | .branch condition target => word.condition = condition ∧ word.target = target
  | .jump base => word.register 6 = base
  | .call callee => word.callee = callee
  | .relative _ register target => word.register 9 = register ∧ word.target = target
  | .indexed _ register base offset =>
      word.register 9 = register ∧ word.register 6 = base ∧ word.signed indexWidth = offset
  | .not dest source => word.register 9 = dest ∧ word.register 6 = source

section Decoded

open Encoding

variable {word : Word} {instruction : Instruction}

theorem operation_of_decode (hdecode : decode word = .ok instruction) :
    operationField.Holds word instruction.opcode.bits := by
  simp only [decode] at hdecode
  split at hdecode <;> cases hdecode
  all_goals
    apply Word.holds_operation
    assumption

theorem shows_of_decode (hdecode : decode word = .ok instruction) :
    word.Shows instruction := by
  simp only [decode] at hdecode
  split at hdecode <;> cases hdecode
  all_goals simp only [Word.Shows, and_self]

/-- A word that decodes holds the parts of its instruction, once NOT's ones are put over it. -/
theorem holds_of_decode (hdecode : decode word = .ok instruction) :
    ∀ entry ∈ parts instruction.numeral instruction,
      entry.1.Holds (word ||| instruction.spareOnes) entry.2 := by
  have hop := operation_of_decode hdecode
  have hoperands := shows_of_decode hdecode
  cases instruction with
  | alu op dest source operand =>
      obtain ⟨rfl, rfl, rfl⟩ := hoperands
      have hdest := word.holds_register destField rfl (by decide)
      have hsource := word.holds_register source1Field rfl (by decide)
      rcases word.operand_cases with ⟨hflag, hoperand⟩ | ⟨hflag, hoperand⟩
      · have hregister := word.holds_register source2Field rfl (by decide)
        simp only [hoperand, Instruction.spareOnes, BitVec.or_zero, parts,
          List.forall_mem_cons]
        exact ⟨hop, hflag, hdest, hsource, hregister, by simp⟩
      · have hnumber := word.holds_signed immediateField rfl (by decide)
        simp only [hoperand, Instruction.spareOnes, BitVec.or_zero, parts,
          List.forall_mem_cons]
        exact ⟨hop, hflag, hdest, hsource, hnumber, by simp⟩
  | branch condition target =>
      obtain ⟨rfl, rfl⟩ := hoperands
      have hn := word.holds_flag negativeField rfl (by decide)
      have hz := word.holds_flag zeroField rfl (by decide)
      have hp := word.holds_flag positiveField rfl (by decide)
      have hnumber := word.holds_signed targetField rfl (by decide)
      simp only [Instruction.spareOnes, BitVec.or_zero, parts, List.forall_mem_cons]
      exact ⟨hop, hn, hz, hp, hnumber, by simp⟩
  | jump base =>
      obtain rfl := hoperands
      have hbase := word.holds_register baseField rfl (by decide)
      simp only [Instruction.spareOnes, BitVec.or_zero, parts, List.forall_mem_cons]
      exact ⟨hop, hbase, by simp⟩
  | call callee =>
      obtain rfl := hoperands
      rcases word.callee_cases with ⟨hflag, hcallee⟩ | ⟨hflag, hcallee⟩
      · have hbase := word.holds_register baseField rfl (by decide)
        simp only [hcallee, Instruction.spareOnes, BitVec.or_zero, parts,
          List.forall_mem_cons]
        exact ⟨hop, hflag, hbase, by simp⟩
      · have hnumber := word.holds_signed callField rfl (by decide)
        simp only [hcallee, Instruction.spareOnes, BitVec.or_zero, parts,
          List.forall_mem_cons]
        exact ⟨hop, hflag, hnumber, by simp⟩
  | relative op register target =>
      obtain ⟨rfl, rfl⟩ := hoperands
      have hregister := word.holds_register highField rfl (by decide)
      have hnumber := word.holds_signed targetField rfl (by decide)
      simp only [Instruction.spareOnes, BitVec.or_zero, parts, List.forall_mem_cons]
      exact ⟨hop, hregister, hnumber, by simp⟩
  | indexed op register base offset =>
      obtain ⟨rfl, rfl, rfl⟩ := hoperands
      have hregister := word.holds_register moveField rfl (by decide)
      have hbase := word.holds_register indexBaseField rfl (by decide)
      have hnumber := word.holds_signed indexField rfl (by decide)
      simp only [Instruction.spareOnes, BitVec.or_zero, parts, List.forall_mem_cons]
      exact ⟨hop, hregister, hbase, hnumber, by simp⟩
  | not dest source =>
      obtain ⟨rfl, rfl⟩ := hoperands
      have hdest := word.holds_register destField rfl (by decide)
      have hsource := word.holds_register sourceField rfl (by decide)
      simp only [Instruction.spareOnes, notLowBits_eq_place, parts, List.forall_mem_cons]
      exact ⟨hop.or_place _ (by decide) (by decide), holds_or_notLow word,
        hdest.or_place _ (by decide) (by decide),
        hsource.or_place _ (by decide) (by decide), by simp⟩

theorem label?_of_decode (hdecode : decode word = .ok instruction) :
    instruction.label? = none := by
  have hoperands := shows_of_decode hdecode
  cases instruction with
  | branch condition target =>
      obtain ⟨-, rfl⟩ := hoperands
      rfl
  | call callee =>
      obtain rfl := hoperands
      rcases word.callee_cases with ⟨-, hcallee⟩ | ⟨-, hcallee⟩ <;> rw [hcallee] <;> rfl
  | relative op register target =>
      obtain ⟨-, rfl⟩ := hoperands
      rfl
  | alu | jump | indexed | not => rfl

theorem representable_of_decode (hdecode : decode word = .ok instruction) {field : String}
    {value : Int} {width : Nat}
    (hnumeral : instruction.numeral? = some (field, value, width)) :
    Representable value width := by
  have hsigned : ∀ width, 1 ≤ width → width ≤ 16 →
      Representable (word.signed width).toInt width :=
    fun width hpos hle => (word.toInt_signed hpos hle).2
  have hshows := shows_of_decode hdecode
  cases instruction with
  | alu op dest source operand =>
      obtain ⟨-, -, rfl⟩ := hshows
      rcases word.operand_cases with ⟨-, hoperand⟩ | ⟨-, hoperand⟩
      · simp [hoperand, Instruction.numeral?, Instruction.target?] at hnumeral
      · simp only [hoperand, Instruction.numeral?, Option.some.injEq,
          Prod.mk.injEq] at hnumeral
        obtain ⟨-, rfl, rfl⟩ := hnumeral
        exact hsigned immediateWidth (by decide) (by decide)
  | branch condition target =>
      obtain ⟨-, rfl⟩ := hshows
      simp only [Instruction.numeral?, Instruction.target?, Word.target, Option.some.injEq,
        Prod.mk.injEq] at hnumeral
      obtain ⟨-, rfl, rfl⟩ := hnumeral
      exact hsigned targetWidth (by decide) (by decide)
  | call callee =>
      obtain rfl := hshows
      rcases word.callee_cases with ⟨-, hcallee⟩ | ⟨-, hcallee⟩
      · simp [hcallee, Instruction.numeral?, Instruction.target?] at hnumeral
      · simp only [hcallee, Instruction.numeral?, Instruction.target?, Option.some.injEq,
          Prod.mk.injEq] at hnumeral
        obtain ⟨-, rfl, rfl⟩ := hnumeral
        exact hsigned callWidth (by decide) (by decide)
  | relative op register target =>
      obtain ⟨-, rfl⟩ := hshows
      simp only [Instruction.numeral?, Instruction.target?, Word.target, Option.some.injEq,
        Prod.mk.injEq] at hnumeral
      obtain ⟨-, rfl, rfl⟩ := hnumeral
      exact hsigned targetWidth (by decide) (by decide)
  | indexed op register base offset =>
      obtain ⟨-, -, rfl⟩ := hshows
      simp only [Instruction.numeral?, Option.some.injEq, Prod.mk.injEq] at hnumeral
      obtain ⟨-, rfl, rfl⟩ := hnumeral
      exact hsigned indexWidth (by decide) (by decide)
  | jump base => cases hnumeral
  | not dest source => cases hnumeral

/-- Wherever it stands, a decoded instruction is encoded with the number it has. -/
theorem number_of_decode (hdecode : decode word = .ok instruction) (rule : OffsetRule)
    (next : Address) (symbols : SymbolTable) :
    number rule next symbols instruction = .ok instruction.numeral := by
  rw [Instruction.numeral]
  cases hnumeral : instruction.numeral? with
  | none => exact number_of_plain hnumeral (label?_of_decode hdecode)
  | some entry =>
      obtain ⟨field, value, width⟩ := entry
      have hle : width ≤ 16 := Instruction.width_le_of_numeral hnumeral
      have hfits := (fits_iff_representable (by omega)).mpr
        (representable_of_decode hdecode hnumeral)
      rw [number_of_numeral hnumeral, checked, if_pos hfits]

theorem encode_of_decode (hdecode : decode word = .ok instruction) (rule : OffsetRule)
    (next : Address) (symbols : SymbolTable) :
    (instruction.encode rule next symbols).run.value =
      .ok (Encoding.word instruction.numeral instruction) :=
  value_encode_eq_ok_iff.mpr
    ⟨_, number_of_decode hdecode rule next symbols, rfl⟩

end Decoded

namespace Encoding

/-- Every bit of a word has a part of the instruction or is unused, and only NOT puts a part over
unused bits. -/
theorem any_spans_parts (number : Int) (instruction : Instruction) {index : Nat}
    (hindex : index < 16) :
    ((parts number instruction).any fun entry => entry.1.spans index) =
      (instruction.spareValue || !instruction.spareBits.contains index) := by
  revert index
  rcases instruction with ⟨_, _, _, _ | _⟩ | _ | _ | (_ | _) | _ | _ | _ <;>
    simp only [parts, Instruction.spareValue, Instruction.spareBits, List.any_cons,
      List.any_nil] <;>
    decide

theorem getLsbD_spareOnes (instruction : Instruction) {index : Nat} (hindex : index < 16) :
    instruction.spareOnes.getLsbD index =
      (instruction.spareValue && instruction.spareBits.contains index) := by
  revert index
  rcases instruction with ⟨_, _, _, _ | _⟩ | _ | _ | (_ | _) | _ | _ | _ <;>
    simp only [Instruction.spareOnes, Instruction.spareValue, Instruction.spareBits] <;>
    decide

theorem high_parts (number : Int) (instruction : Instruction) :
    ∀ entry ∈ parts number instruction, entry.1.high < 16 :=
  fun entry hentry => ((isLayout_parts number instruction).1 entry.1
    (List.mem_map_of_mem hentry)).2

/-- Encoding a decoded instruction keeps the bits that its form uses. -/
theorem getLsbD_word_of_decode {encoded : Word} {instruction : Instruction}
    (hdecode : decode encoded = .ok instruction) {index : Nat} (hindex : index < 16) :
    (word instruction.numeral instruction).getLsbD index =
      if index ∈ instruction.spareBits then instruction.spareValue
      else encoded.getLsbD index := by
  rw [word, getLsbD_pack_of_holds (high_parts _ _) (holds_of_decode hdecode),
    any_spans_parts _ _ hindex, BitVec.getLsbD_or, getLsbD_spareOnes _ hindex]
  by_cases hspare : index ∈ instruction.spareBits
  · cases instruction.spareValue <;> simp [hspare]
  · simp [hspare]

/-- The bits that its form leaves unused are the same in every word of an instruction. -/
theorem getLsbD_word_of_spare (number : Int) (instruction : Instruction) {index : Nat}
    (hspare : index ∈ instruction.spareBits) (hindex : index < 16) :
    (word number instruction).getLsbD index = instruction.spareValue := by
  cases hvalue : instruction.spareValue with
  | false =>
      -- The word holds its own parts, and none of them reaches the bit.
      have hpacked := getLsbD_pack_of_holds (high_parts number instruction)
        (fun entry hentry => holds_word hentry) index
      rw [any_spans_parts _ _ hindex, hvalue] at hpacked
      simpa [word, hspare] using hpacked
  | true =>
      cases instruction with
      | not dest source =>
          have hones := getLsbD_spareOnes (.not dest source) hindex
          simp only [Instruction.spareOnes, notLowBits_eq_place] at hones
          rw [word, getLsbD_pack]
          simp [parts, hones, hspare, hvalue]
      | _ => cases hvalue

/-- A word that encoding gave is the one that its decoding is encoded to. -/
theorem word_of_decode_encoded {rule : OffsetRule} {next : Address} {symbols : SymbolTable}
    {source decoded : Instruction} {encoded : Word}
    (hencode : (source.encode rule next symbols).run.value = .ok encoded)
    (hdecode : decode encoded = .ok decoded) :
    word decoded.numeral decoded = encoded := by
  obtain ⟨value, -, rfl⟩ := value_encode_eq_ok_iff.mp hencode
  have hsource : source.withNumber value = decoded :=
    Except.ok.inj ((decode_word value source).symm.trans hdecode)
  have hbits : decoded.spareBits = source.spareBits := by
    rw [← hsource]
    exact source.spareBits_withNumber value
  have hvalue : decoded.spareValue = source.spareValue := by
    rw [← hsource]
    exact source.spareValue_withNumber value
  apply BitVec.eq_of_getLsbD_eq
  intro index hindex
  rw [getLsbD_word_of_decode hdecode hindex, hbits, hvalue]
  split
  · rename_i hspare
    rw [getLsbD_word_of_spare value source hspare hindex]
  · rfl

end Encoding

/-- Encoding what a word decodes to gives one word, wherever the instruction stands: the word it was
decoded from with its unused bits set to what encoding puts there.  Exactly the words that encoding
gives stay as they are. -/
theorem encode_decoded_word_is_canonical (encoded : Word) (instruction : Instruction)
    (hdecode : decode encoded = .ok instruction) :
    ∃ canonical : Word,
      (∀ rule next symbols,
        (instruction.encode rule next symbols).run.value = .ok canonical) ∧
      decode canonical = .ok instruction ∧
      (∀ index < 16, canonical.getLsbD index =
        if index ∈ instruction.spareBits then instruction.spareValue
        else encoded.getLsbD index) ∧
      (instruction.spareBits = [] → canonical = encoded) ∧
      (canonical = encoded ↔ ∃ source rule next symbols,
        (Instruction.encode source rule next symbols).run.value = .ok encoded) ∧
      ∀ again, decode canonical = .ok again → ∀ rule next symbols,
        (again.encode rule next symbols).run.value = .ok canonical := by
  have hencode := encode_of_decode hdecode
  have hbits : ∀ index < 16, (Encoding.word instruction.numeral instruction).getLsbD index =
      if index ∈ instruction.spareBits then instruction.spareValue
      else encoded.getLsbD index :=
    fun index hindex => Encoding.getLsbD_word_of_decode hdecode hindex
  have hagain : decode (Encoding.word instruction.numeral instruction) = .ok instruction :=
    Encoding.decode_of_encode (hencode .strict 0 .empty) (label?_of_decode hdecode)
  refine ⟨_, hencode, hagain, hbits, fun hnone => ?_, ⟨fun heq => ?_, ?_⟩, ?_⟩
  · apply BitVec.eq_of_getLsbD_eq
    intro index hindex
    simpa [hnone] using hbits index hindex
  · exact ⟨instruction, .strict, 0, .empty, heq ▸ hencode .strict 0 .empty⟩
  · rintro ⟨source, rule, next, symbols, hsource⟩
    exact Encoding.word_of_decode_encoded hsource hdecode
  · intro again hdecoded
    obtain rfl := Except.ok.inj (hagain.symm.trans hdecoded)
    exact hencode

/-- A return with every unused bit set is read as one, and no instruction is encoded like that. -/
theorem return_with_spare_bits_is_recoded :
    decode 0xCFFF = .ok (.jump Register.link) ∧
      (∀ rule next symbols,
        (Instruction.encode (.jump Register.link) rule next symbols).run.value =
          .ok 0xC1C0) ∧
      ¬ ∃ source rule next symbols,
        (Instruction.encode source rule next symbols).run.value = .ok 0xCFFF := by
  have hdecode : decode 0xCFFF = .ok (.jump Register.link) := by decide
  obtain ⟨canonical, hencode, -, -, -, hfixed, -⟩ :=
    encode_decoded_word_is_canonical _ _ hdecode
  have hcanonical : canonical = 0xC1C0 := by
    have hplain : (Instruction.encode (.jump Register.link) .strict 0 .empty).run.value =
        .ok 0xC1C0 := by decide
    exact Except.ok.inj ((hencode .strict 0 .empty).symm.trans hplain)
  subst hcanonical
  exact ⟨hdecode, hencode, fun hsource => absurd (hfixed.mpr hsource) (by decide)⟩

end LittleComputer
