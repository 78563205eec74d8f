import LittleComputer.Interchange
import LittleComputer.Proofs.Instruction.Grammar
import LittleComputer.Proofs.Json.Codec

/-!
The JSON forms of the program are lawful.  A record of an instruction has the operands of its form
and no others, so it is read by the rule of its own mnemonic; from there the law goes up through
statements, blocks and programs, and through images and configurations beside them.
-/
namespace LittleComputer

open Codec Shape

def Record.Field.name : Record.Field → String
  | .conditionCode => "conditionCode"
  | .destReg => "destReg"
  | .srcReg1 => "srcReg1"
  | .srcReg2 => "srcReg2"
  | .immediate => "immediate"
  | .srcReg => "srcReg"
  | .register => "register"
  | .moveReg => "moveReg"
  | .baseReg => "baseReg"
  | .offset => "offset"
  | .argLabel => "argLabel"

def Target.field : Target → Record.Field
  | .offset _ => .offset
  | .label _ => .argLabel

/-- The operands of an instruction's form. -/
def Instruction.fields : Instruction → List Record.Field
  | .alu _ _ _ (.register _) => [.destReg, .srcReg1, .srcReg2]
  | .alu _ _ _ (.immediate _) => [.destReg, .srcReg1, .immediate]
  | .branch _ target => [.conditionCode, target.field]
  | .jump _ => [.register]
  | .call (.register _) => [.register]
  | .call (.relative target) => [target.field]
  | .relative _ _ target => [.register, target.field]
  | .indexed _ _ _ _ => [.moveReg, .baseReg, .offset]
  | .not _ _ => [.destReg, .srcReg]

namespace Record

variable {record : Record}

@[simp] theorem operation_withTarget (target : Target) :
    (record.withTarget target).operation = record.operation := by
  cases target <;> rfl

@[simp] theorem conditionCode_withTarget (target : Target) :
    (record.withTarget target).conditionCode = record.conditionCode := by
  cases target <;> rfl

@[simp] theorem register_withTarget (target : Target) :
    (record.withTarget target).register = record.register := by
  cases target <;> rfl

/-- A target that was entered into a record without one is its target. -/
theorem targets_withTarget (target : Target) (hoffset : record.offset = none)
    (hlabel : record.argLabel = none) : (record.withTarget target).Targets target := by
  cases target with
  | offset distance => exact ⟨rfl, hlabel⟩
  | label name => exact ⟨hoffset, rfl⟩

theorem operation_ofInstruction (instruction : Instruction) :
    (ofInstruction instruction).operation = instruction.opcode.mnemonic := by
  cases instruction with
  | alu op dest source operand => cases operand <;> rfl
  | call callee => cases callee <;> simp [ofInstruction]
  | branch condition target => simp [ofInstruction]
  | relative op register target => simp [ofInstruction]
  | _ => rfl

/-- The record of an instruction describes it, under the mnemonic of its opcode. -/
theorem describes_ofInstruction (instruction : Instruction) :
    (ofInstruction instruction).Describes (.ofOpcode instruction.opcode) instruction := by
  cases instruction with
  | alu op dest source operand => cases operand <;> exact .alu rfl rfl ⟨rfl, rfl⟩
  | branch condition target =>
      exact .branch (conditionCode_withTarget target) (targets_withTarget target rfl rfl)
  | jump base => exact .jump rfl
  | call callee =>
      cases callee with
      | register base => exact .call ⟨rfl, rfl, rfl⟩
      | relative target =>
          exact .call ⟨register_withTarget target, targets_withTarget target rfl rfl⟩
  | relative op register target =>
      exact .relative (register_withTarget target) (targets_withTarget target rfl rfl)
  | indexed op register base offset => exact .indexed rfl rfl rfl
  | not dest source => exact .not rfl rfl

theorem toInstruction_ofInstruction (instruction : Instruction) :
    (ofInstruction instruction).toInstruction = .ok instruction := by
  have hmem : Mnemonic.ofOpcode instruction.opcode ∈ Mnemonic.table :=
    Mnemonic.mem_table_iff.mpr (.inl ⟨instruction.opcode, rfl⟩)
  refine toInstruction_eq_ok_iff.mpr ⟨_, hmem, ?_, describes_ofInstruction instruction⟩
  rw [Mnemonic.Spells, operation_ofInstruction, Opcode.mnemonic_eq_spelling]
  rfl

/-- The operands that a record gives, in the order of its fields. -/
def given (record : Record) : List Field :=
  [.conditionCode, .destReg, .srcReg1, .srcReg2, .immediate, .srcReg, .register, .moveReg,
    .baseReg, .offset, .argLabel].filter record.has

/-- A record of an instruction has the operands of its form and no others. -/
theorem given_ofInstruction (instruction : Instruction) :
    (ofInstruction instruction).given = instruction.fields := by
  cases instruction with
  | alu op dest source operand => cases operand <;> rfl
  | branch condition target => cases target <;> rfl
  | call callee =>
      cases callee with
      | register base => rfl
      | relative target => cases target <;> rfl
  | relative op register target => cases target <;> rfl
  | _ => rfl

theorem map_fst_optionalMember {β : Type} [Codec β] (name : String) (value : Option β) :
    (optionalMember name value).map Prod.fst = if value.isSome then [name] else [] := by
  cases value <;> rfl

/-- Operands that are not given are left out of the JSON form. -/
theorem exists_write_eq_obj (record : Record) :
    ∃ members, write record = .obj members ∧
      members.map Prod.fst = "operation" :: record.given.map Field.name := by
  have hnames : ∀ fields : List Field, (fields.filter record.has).map Field.name =
      fields.flatMap fun field => if record.has field then [field.name] else [] := by
    intro fields
    induction fields with
    | nil => rfl
    | cons field rest ih =>
        rw [List.filter_cons, List.flatMap_cons, ← ih]
        split <;> rfl
  refine ⟨_, rfl, ?_⟩
  rw [given, hnames]
  simp only [List.map_append, List.map_cons, List.map_nil, map_fst_optionalMember,
    List.flatMap_cons, List.flatMap_nil, List.append_nil, List.append_assoc]
  rfl

end Record

instance : LawfulCodec Register where
  read_write register := by
    have hindex : readByte (.int register.val) = .ok register.val := by
      rw [readByte, readInt_of_mem _ (by omega) (by omega), Except.map, Int.toNat_natCast]
    change (readByte (.int register.val) >>= fun index =>
      (Register.ofIndex index).mapError _) = _
    rw [hindex]
    change (Register.ofIndex register.val).mapError _ = _
    rw [Register.ofIndex, dif_pos register.isLt]
    rfl
  write_ne_null _ := by simp [write]
  plain_write register := .int ⟨by omega, by omega⟩

instance : LawfulCodec OffsetRule where
  read_write rule := by cases rule <;> rfl
  write_ne_null rule := by cases rule <;> simp [write]
  plain_write rule := by cases rule <;> exact .str _

instance : LawfulCodec Condition where
  read_write condition := by
    obtain ⟨n, z, p⟩ := condition
    change Condition.shape.readMembers [("n", write n), ("z", write z), ("p", write p)] = _
    apply readMembers_eq_ok
    · refine foldlM_member n ⟨n, false, false⟩ rfl (by simp) rfl ?_
      refine foldlM_member z ⟨n, z, false⟩ rfl (by simp) rfl ?_
      refine foldlM_member p ⟨n, z, p⟩ rfl (by simp) rfl ?_
      rfl
    · simp [Condition.shape, Slot.of]
  write_ne_null _ := by simp [write]
  plain_write condition := .obj (by simp [Json.Plain.bool])

instance : LawfulCodec Record where
  read_write record := by
    obtain ⟨operation, conditionCode, destReg, srcReg1, srcReg2, immediate, srcReg, register,
      moveReg, baseReg, offset, argLabel⟩ := record
    apply readMembers_eq_ok
    -- Each member leaves a draft with one field more; fields that are left out stay blank.
    · rw [← List.append_nil (optionalMember "argLabel" _)]
      simp only [List.append_assoc]
      refine foldlM_member operation { operation } rfl (by simp) rfl ?_
      refine foldlM_optionalMember conditionCode
        { operation, conditionCode } rfl (by simp) rfl rfl ?_
      refine foldlM_optionalMember destReg
        { operation, conditionCode, destReg } rfl (by simp [mem_noting_iff]) rfl rfl ?_
      refine foldlM_optionalMember srcReg1
        { operation, conditionCode, destReg, srcReg1 } rfl (by simp [mem_noting_iff]) rfl rfl ?_
      refine foldlM_optionalMember srcReg2
        { operation, conditionCode, destReg, srcReg1, srcReg2 }
        rfl (by simp [mem_noting_iff]) rfl rfl ?_
      refine foldlM_optionalMember immediate
        { operation, conditionCode, destReg, srcReg1, srcReg2, immediate }
        rfl (by simp [mem_noting_iff]) rfl rfl ?_
      refine foldlM_optionalMember srcReg
        { operation, conditionCode, destReg, srcReg1, srcReg2, immediate, srcReg }
        rfl (by simp [mem_noting_iff]) rfl rfl ?_
      refine foldlM_optionalMember register
        { operation, conditionCode, destReg, srcReg1, srcReg2, immediate, srcReg, register }
        rfl (by simp [mem_noting_iff]) rfl rfl ?_
      refine foldlM_optionalMember moveReg
        { operation, conditionCode, destReg, srcReg1, srcReg2, immediate, srcReg,
          register, moveReg } rfl (by simp [mem_noting_iff]) rfl rfl ?_
      refine foldlM_optionalMember baseReg
        { operation, conditionCode, destReg, srcReg1, srcReg2, immediate, srcReg,
          register, moveReg, baseReg } rfl (by simp [mem_noting_iff]) rfl rfl ?_
      refine foldlM_optionalMember offset
        { operation, conditionCode, destReg, srcReg1, srcReg2, immediate, srcReg,
          register, moveReg, baseReg, offset } rfl (by simp [mem_noting_iff]) rfl rfl ?_
      refine foldlM_optionalMember argLabel
        { operation, conditionCode, destReg, srcReg1, srcReg2, immediate, srcReg,
          register, moveReg, baseReg, offset, argLabel } rfl (by simp [mem_noting_iff]) rfl rfl ?_
      rfl
    · simp [Record.shape, Slot.of, mem_noting_iff]
  write_ne_null _ := by simp [write]
  plain_write record := by
    apply Json.Plain.obj
    simp only [List.forall_mem_append, List.forall_mem_singleton]
    and_intros
    · exact .str _
    all_goals exact plain_optionalMember

instance : LawfulCodec Instruction where
  read_write instruction := by
    change (Codec.read (write (Record.ofInstruction instruction)) >>= fun record : Record =>
      record.toInstruction.mapError _) = _
    rw [read_write]
    change (Record.ofInstruction instruction).toInstruction.mapError _ = _
    rw [Record.toInstruction_ofInstruction]
    rfl
  write_ne_null _ := by simp [write]
  plain_write instruction := plain_write (Record.ofInstruction instruction)

instance : LawfulCodec Statement where
  read_write statement := by
    obtain ⟨label, instruction⟩ := statement
    apply readMembers_eq_ok
    · refine foldlM_optionalMember label ⟨label, .branch .never (.offset 0)⟩ rfl (by simp) rfl
        rfl ?_
      refine foldlM_member instruction ⟨label, instruction⟩ rfl (by simp [mem_noting_iff]) rfl ?_
      rfl
    · simp [Statement.shape, Slot.of]
  write_ne_null _ := by simp [write]
  plain_write statement := by
    apply Json.Plain.obj
    simp only [List.forall_mem_append, List.forall_mem_singleton]
    exact ⟨plain_optionalMember, plain_write _⟩

instance : LawfulCodec Block where
  read_write block := by
    obtain ⟨start, statements⟩ := block
    apply readMembers_eq_ok
    · refine foldlM_member start ⟨start, []⟩ rfl (by simp) rfl ?_
      refine foldlM_member statements ⟨start, statements⟩ rfl (by simp) rfl ?_
      rfl
    · simp [Block.shape, Slot.of]
  write_ne_null _ := by simp [write]
  plain_write _ := .obj (by simp [plain_write])

instance : LawfulCodec Program where
  read_write program := by
    obtain ⟨blocks⟩ := program
    apply readMembers_eq_ok
    · refine foldlM_member blocks ⟨blocks⟩ rfl (by simp) rfl ?_
      rfl
    · simp [Program.shape, Slot.of]
  write_ne_null _ := by simp [write]
  plain_write _ := .obj (by simp [plain_write])

instance : LawfulCodec Config where
  read_write config := by
    obtain ⟨offsets, allowOverlap⟩ := config
    apply readMembers_eq_ok
    · refine foldlM_member offsets ⟨offsets, false⟩ rfl (by simp) rfl ?_
      refine foldlM_member allowOverlap ⟨offsets, allowOverlap⟩ rfl (by simp) rfl ?_
      rfl
    · simp [Config.shape, Slot.of]
  write_ne_null _ := by simp [write]
  plain_write _ := .obj (by simp [plain_write])

instance : LawfulCodec Segment where
  read_write segment := by
    obtain ⟨origin, words⟩ := segment
    apply readMembers_eq_ok
    · refine foldlM_member origin ⟨origin, []⟩ rfl (by simp) rfl ?_
      refine foldlM_member words ⟨origin, words⟩ rfl (by simp) rfl ?_
      rfl
    · simp [Segment.shape, Slot.of]
  write_ne_null _ := by simp [write]
  plain_write _ := .obj (by simp [plain_write])

instance : LawfulCodec Image where
  read_write image := by
    obtain ⟨segments⟩ := image
    apply readMembers_eq_ok
    · refine foldlM_member segments ⟨segments⟩ rfl (by simp) rfl ?_
      rfl
    · simp [Image.shape, Slot.of]
  write_ne_null _ := by simp [write]
  plain_write _ := .obj (by simp [plain_write])

instance : LawfulCodec Assembled where
  read_write assembled := by
    obtain ⟨image, symbols⟩ := assembled
    apply readMembers_eq_ok
    · refine foldlM_member image ⟨image, .empty⟩ rfl (by simp) rfl ?_
      refine foldlM_member symbols ⟨image, symbols⟩ rfl (by simp) rfl ?_
      rfl
    · simp [Assembled.shape, Slot.of]
  write_ne_null _ := by simp [write]
  plain_write _ := .obj (by simp [plain_write])

/-- Reading undoes writing.  The record of an instruction has its canonical mnemonic and the
operands of its form, and no value of any kind is changed on its way through JSON. -/
theorem reading_undoes_writing :
    (∀ instruction : Instruction,
      (Record.ofInstruction instruction).toInstruction = .ok instruction ∧
      (Record.ofInstruction instruction).operation = instruction.opcode.mnemonic ∧
      (Record.ofInstruction instruction).given = instruction.fields ∧
      (∃ members, write instruction = .obj members ∧
        members.map Prod.fst = "operation" :: instruction.fields.map Record.Field.name) ∧
      Codec.read (write instruction) = .ok instruction) ∧
    (∀ program : Program, Codec.read (write program) = .ok program) ∧
    (∀ block : Block, Codec.read (write block) = .ok block) ∧
    (∀ statement : Statement, Codec.read (write statement) = .ok statement) ∧
    (∀ symbols : SymbolTable, Codec.read (write symbols) = .ok symbols) ∧
    (∀ image : Image, Codec.read (write image) = .ok image) ∧
    (∀ segment : Segment, Codec.read (write segment) = .ok segment) ∧
    (∀ config : Config, Codec.read (write config) = .ok config) ∧
    ∀ assembled : Assembled, Codec.read (write assembled) = .ok assembled := by
  refine ⟨fun instruction => ?_, read_write, read_write, read_write, read_write, read_write,
    read_write, read_write, read_write⟩
  have hmembers := Record.exists_write_eq_obj (Record.ofInstruction instruction)
  rw [Record.given_ofInstruction] at hmembers
  exact ⟨Record.toInstruction_ofInstruction instruction,
    Record.operation_ofInstruction instruction, Record.given_ofInstruction instruction,
    hmembers, read_write instruction⟩

end LittleComputer
