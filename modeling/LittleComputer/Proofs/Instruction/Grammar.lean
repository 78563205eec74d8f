import LittleComputer.Instruction.Record

/-!
The grammar of records.  Which operands an operation needs, and of which it takes exactly one, is a
rule that its name picks.  A record is an instruction exactly if its operation has a rule and the
rule admits the record, and nothing outside the rule is looked at.
-/
namespace LittleComputer

theorem bind_eq_ok_iff {ε α β : Type} {first : Except ε α} {second : α → Except ε β} {b : β} :
    first >>= second = .ok b ↔ ∃ a, first = .ok a ∧ second a = .ok b := by
  cases first with
  | error error => simp [bind, Except.bind]
  | ok a => simp [bind, Except.bind]

theorem map_eq_ok_iff {ε α β : Type} {outcome : Except ε α} {f : α → β} {b : β} :
    outcome.map f = .ok b ↔ ∃ a, outcome = .ok a ∧ f a = b := by
  cases outcome <;> simp [Except.map]

/-- The name of an operation in the instruction set. -/
def Opcode.spelling : Opcode → String
  | br => "BR"
  | add => "ADD"
  | ld => "LD"
  | st => "ST"
  | jsr => "JSR"
  | and => "AND"
  | ldr => "LDR"
  | str => "STR"
  | rti => "RTI"
  | not => "NOT"
  | ldi => "LDI"
  | sti => "STI"
  | jmp => "JMP"
  | lea => "LEA"
  | trap => "TRAP"

/-- The search for an opcode stops before the aliases. -/
theorem Opcode.mnemonic_eq_spelling (opcode : Opcode) : opcode.mnemonic = opcode.spelling := by
  cases opcode <;> rfl

namespace Mnemonic

/-- The mnemonic that fixes an opcode and nothing else. -/
def ofOpcode (opcode : Opcode) : Mnemonic :=
  ⟨opcode.spelling, opcode, .any⟩

/-- A text that is the mnemonic's name up to the case of ASCII letters. -/
def Spells (mnemonic : Mnemonic) (text : String) : Prop :=
  mnemonic.name.toList.map Char.toLower = text.toList.map Char.toLower

theorem sameName_iff (mnemonic : Mnemonic) (text : String) :
    sameName mnemonic.name text = true ↔ mnemonic.Spells text := by
  rw [sameName, beq_iff_eq, Spells]

/-- No two mnemonics of the table have one spelling. -/
theorem eq_of_spells {first second : Mnemonic} {text : String} (hfirst : first ∈ table)
    (hsecond : second ∈ table) (hspells : first.Spells text) (hspells' : second.Spells text) :
    first = second := by
  have hsame : sameName first.name second.name = true :=
    (sameName_iff first _).mpr (hspells.trans hspells'.symm)
  have hapart : ∀ first ∈ table, ∀ second ∈ table,
      sameName first.name second.name = true → first = second := by decide
  exact hapart first hfirst second hsecond hsame

/-- The table is searched for the mnemonic that a text spells. -/
theorem find?_eq_some_iff {text : String} {mnemonic : Mnemonic} :
    find? text = some mnemonic ↔ mnemonic ∈ table ∧ mnemonic.Spells text := by
  constructor
  · intro hfind
    have hspells := List.find?_some hfind
    exact ⟨List.mem_of_find?_eq_some hfind, (sameName_iff mnemonic text).mp hspells⟩
  · rintro ⟨hmem, hspells⟩
    have hfound : (find? text).isSome = true := by
      rw [find?, List.find?_isSome]
      exact ⟨mnemonic, hmem, (sameName_iff mnemonic text).mpr hspells⟩
    obtain ⟨found, hfind⟩ := Option.isSome_iff_exists.mp hfound
    have hsame := List.find?_some hfind
    have hspells' := (sameName_iff found text).mp hsame
    rw [hfind, eq_of_spells (List.mem_of_find?_eq_some hfind) hmem hspells' hspells]

/-- The rows of the table: a name for each opcode, and the aliases. -/
theorem mem_table_iff {mnemonic : Mnemonic} :
    mnemonic ∈ table ↔ (∃ opcode, mnemonic = ofOpcode opcode) ∨
      mnemonic = ⟨"JSRR", .jsr, .registerCall⟩ ∨ mnemonic = ⟨"RET", .jmp, .ret⟩ := by
  constructor
  · intro hmem
    have hall : ∀ mnemonic ∈ table, mnemonic = ofOpcode mnemonic.opcode ∨
        mnemonic = ⟨"JSRR", .jsr, .registerCall⟩ ∨ mnemonic = ⟨"RET", .jmp, .ret⟩ := by
      decide
    exact (hall mnemonic hmem).imp_left fun hrow => ⟨mnemonic.opcode, hrow⟩
  · rintro (⟨opcode, rfl⟩ | rfl | rfl)
    · cases opcode <;> decide
    · decide
    · decide

end Mnemonic

namespace Record

/-- The operands that a record has room for. -/
inductive Field
  | conditionCode | destReg | srcReg1 | srcReg2 | immediate | srcReg | register | moveReg
  | baseReg | offset | argLabel
deriving DecidableEq, Repr

def has (record : Record) : Field → Bool
  | .conditionCode => record.conditionCode.isSome
  | .destReg => record.destReg.isSome
  | .srcReg1 => record.srcReg1.isSome
  | .srcReg2 => record.srcReg2.isSome
  | .immediate => record.immediate.isSome
  | .srcReg => record.srcReg.isSome
  | .register => record.register.isSome
  | .moveReg => record.moveReg.isSome
  | .baseReg => record.baseReg.isSome
  | .offset => record.offset.isSome
  | .argLabel => record.argLabel.isSome

/-- Records that have the same operand in a field, or none of them any. -/
def AgreeOn (first second : Record) : Field → Prop
  | .conditionCode => first.conditionCode = second.conditionCode
  | .destReg => first.destReg = second.destReg
  | .srcReg1 => first.srcReg1 = second.srcReg1
  | .srcReg2 => first.srcReg2 = second.srcReg2
  | .immediate => first.immediate = second.immediate
  | .srcReg => first.srcReg = second.srcReg
  | .register => first.register = second.register
  | .moveReg => first.moveReg = second.moveReg
  | .baseReg => first.baseReg = second.baseReg
  | .offset => first.offset = second.offset
  | .argLabel => first.argLabel = second.argLabel

/-- What an operation asks of a record. -/
structure Rule where
  /-- Operands that have to be given. -/
  needed : List Field
  /-- Operands of which exactly one has to be given, if there are any. -/
  choice : List Field
deriving DecidableEq, Repr

namespace Rule

def alu : Rule := ⟨[.destReg, .srcReg1], [.srcReg2, .immediate]⟩

def branch : Rule := ⟨[.conditionCode], [.offset, .argLabel]⟩

def relative : Rule := ⟨[.register], [.offset, .argLabel]⟩

def call : Rule := ⟨[], [.register, .offset, .argLabel]⟩

/-- Jumps and calls through a register. -/
def throughRegister : Rule := ⟨[.register], []⟩

def indexed : Rule := ⟨[.moveReg, .baseReg, .offset], []⟩

def not : Rule := ⟨[.destReg, .srcReg], []⟩

def nothing : Rule := ⟨[], []⟩

/-- The rule that a mnemonic stands for. -/
def ofName : String → Rule
  | "ADD" | "AND" => alu
  | "BR" => branch
  | "LD" | "LDI" | "LEA" | "ST" | "STI" => relative
  | "JSR" => call
  | "JMP" | "JSRR" => throughRegister
  | "LDR" | "STR" => indexed
  | "NOT" => not
  | _ => nothing

def fields (rule : Rule) : List Field :=
  rule.needed ++ rule.choice

/-- The record has every operand that is needed, and one of those to choose from. -/
def Admits (rule : Rule) (record : Record) : Prop :=
  (∀ field ∈ rule.needed, record.has field = true) ∧
    (rule.choice ≠ [] → rule.choice.countP record.has = 1)

end Rule

/-- The target is given as it is, and no other. -/
def Targets (record : Record) : Target → Prop
  | .offset distance => record.offset = some distance ∧ record.argLabel = none
  | .label name => record.offset = none ∧ record.argLabel = some name

/-- The second operand is given as it is, and no other. -/
def Operates (record : Record) : Operand → Prop
  | .register register => record.srcReg2 = some register ∧ record.immediate = none
  | .immediate value => record.srcReg2 = none ∧ record.immediate = some value

/-- The callee is given as it is, and no other. -/
def Calls (record : Record) : Callee → Prop
  | .register base =>
      record.register = some base ∧ record.offset = none ∧ record.argLabel = none
  | .relative target => record.register = none ∧ record.Targets target

/-- What a record describes under a mnemonic: an instruction with the operands of the record. -/
inductive Describes (record : Record) : Mnemonic → Instruction → Prop
  | alu {op : AluOp} {dest source : Register} {operand : Operand}
      (hdest : record.destReg = some dest) (hsource : record.srcReg1 = some source)
      (hoperand : record.Operates operand) :
      Describes record (.ofOpcode op.opcode) (.alu op dest source operand)
  | branch {condition : Condition} {target : Target}
      (hcondition : record.conditionCode = some condition) (htarget : record.Targets target) :
      Describes record (.ofOpcode .br) (.branch condition target)
  | jump {base : Register} (hbase : record.register = some base) :
      Describes record (.ofOpcode .jmp) (.jump base)
  | ret : Describes record ⟨"RET", .jmp, .ret⟩ (.jump .link)
  | call {callee : Callee} (hcallee : record.Calls callee) :
      Describes record (.ofOpcode .jsr) (.call callee)
  | callRegister {base : Register} (hbase : record.register = some base) :
      Describes record ⟨"JSRR", .jsr, .registerCall⟩ (.call (.register base))
  | relative {op : RelativeOp} {register : Register} {target : Target}
      (hregister : record.register = some register) (htarget : record.Targets target) :
      Describes record (.ofOpcode op.opcode) (.relative op register target)
  | indexed {op : IndexedOp} {register base : Register} {offset : Int16}
      (hregister : record.moveReg = some register) (hbase : record.baseReg = some base)
      (hoffset : record.offset = some offset) :
      Describes record (.ofOpcode op.opcode) (.indexed op register base offset)
  | not {dest source : Register} (hdest : record.destReg = some dest)
      (hsource : record.srcReg = some source) :
      Describes record (.ofOpcode .not) (.not dest source)

section Parts

variable {record : Record} {name : String}

theorem required_eq_ok_iff {α : Type} {field : String} {value : Option α} {a : α} :
    required name field value = .ok a ↔ value = some a := by
  cases value <;> simp [required]

theorem target_eq_ok_iff {target : Target} :
    record.target name = .ok target ↔ record.Targets target := by
  rw [Record.target]
  cases hoffset : record.offset <;> cases hlabel : record.argLabel <;> cases target <;>
    simp [Targets, hoffset, hlabel]

theorem operand_eq_ok_iff {operand : Operand} :
    record.operand name = .ok operand ↔ record.Operates operand := by
  rw [Record.operand]
  cases hregister : record.srcReg2 <;> cases himmediate : record.immediate <;>
    cases operand <;> simp [Operates, hregister, himmediate]

theorem callee_eq_ok_iff {callee : Callee} :
    record.callee name = .ok callee ↔ record.Calls callee := by
  rw [Record.callee]
  cases hregister : record.register with
  | none => cases callee <;> simp [Calls, hregister, map_eq_ok_iff, target_eq_ok_iff]
  | some base =>
      cases hoffset : record.offset <;> cases hlabel : record.argLabel <;> cases callee <;>
        simp [Calls, hregister, hoffset, hlabel]

theorem alu_eq_ok_iff {op : AluOp} {instruction : Instruction} :
    record.alu name op = .ok instruction ↔
      ∃ dest source operand, record.destReg = some dest ∧ record.srcReg1 = some source ∧
        record.Operates operand ∧ instruction = .alu op dest source operand := by
  simp only [Record.alu, bind_eq_ok_iff, required_eq_ok_iff, operand_eq_ok_iff]
  constructor
  · rintro ⟨dest, hdest, source, hsource, operand, hoperand, hresult⟩
    exact ⟨dest, source, operand, hdest, hsource, hoperand, (Except.ok.inj hresult).symm⟩
  · rintro ⟨dest, source, operand, hdest, hsource, hoperand, rfl⟩
    exact ⟨dest, hdest, source, hsource, operand, hoperand, rfl⟩

theorem relative_eq_ok_iff {op : RelativeOp} {instruction : Instruction} :
    record.relative name op = .ok instruction ↔
      ∃ register target, record.register = some register ∧ record.Targets target ∧
        instruction = .relative op register target := by
  simp only [Record.relative, bind_eq_ok_iff, required_eq_ok_iff, target_eq_ok_iff]
  constructor
  · rintro ⟨register, hregister, target, htarget, hresult⟩
    exact ⟨register, target, hregister, htarget, (Except.ok.inj hresult).symm⟩
  · rintro ⟨register, target, hregister, htarget, rfl⟩
    exact ⟨register, hregister, target, htarget, rfl⟩

theorem indexed_eq_ok_iff {op : IndexedOp} {instruction : Instruction} :
    record.indexed name op = .ok instruction ↔
      ∃ register base offset, record.moveReg = some register ∧ record.baseReg = some base ∧
        record.offset = some offset ∧ instruction = .indexed op register base offset := by
  simp only [Record.indexed, bind_eq_ok_iff, required_eq_ok_iff]
  constructor
  · rintro ⟨register, hregister, base, hbase, offset, hoffset, hresult⟩
    exact ⟨register, base, offset, hregister, hbase, hoffset, (Except.ok.inj hresult).symm⟩
  · rintro ⟨register, base, offset, hregister, hbase, hoffset, rfl⟩
    exact ⟨register, hregister, base, hbase, offset, hoffset, rfl⟩

theorem read_of_describes {mnemonic : Mnemonic} {instruction : Instruction}
    (hdescribes : record.Describes mnemonic instruction) :
    record.read mnemonic = .ok instruction := by
  cases hdescribes with
  | @alu op _ _ _ hdest hsource hoperand =>
      cases op <;> exact alu_eq_ok_iff.mpr ⟨_, _, _, hdest, hsource, hoperand, rfl⟩
  | branch hcondition htarget =>
      exact bind_eq_ok_iff.mpr ⟨_, required_eq_ok_iff.mpr hcondition,
        bind_eq_ok_iff.mpr ⟨_, target_eq_ok_iff.mpr htarget, rfl⟩⟩
  | jump hbase => exact map_eq_ok_iff.mpr ⟨_, required_eq_ok_iff.mpr hbase, rfl⟩
  | ret => rfl
  | call hcallee => exact map_eq_ok_iff.mpr ⟨_, callee_eq_ok_iff.mpr hcallee, rfl⟩
  | callRegister hbase => exact map_eq_ok_iff.mpr ⟨_, required_eq_ok_iff.mpr hbase, rfl⟩
  | @relative op _ _ hregister htarget =>
      cases op <;> exact relative_eq_ok_iff.mpr ⟨_, _, hregister, htarget, rfl⟩
  | @indexed op _ _ _ hregister hbase hoffset =>
      cases op <;> exact indexed_eq_ok_iff.mpr ⟨_, _, _, hregister, hbase, hoffset, rfl⟩
  | not hdest hsource =>
      exact bind_eq_ok_iff.mpr ⟨_, required_eq_ok_iff.mpr hdest,
        bind_eq_ok_iff.mpr ⟨_, required_eq_ok_iff.mpr hsource, rfl⟩⟩

theorem describes_of_alu {op : AluOp} {instruction : Instruction}
    (hread : record.alu name op = .ok instruction) :
    record.Describes (.ofOpcode op.opcode) instruction := by
  obtain ⟨dest, source, operand, hdest, hsource, hoperand, rfl⟩ := alu_eq_ok_iff.mp hread
  exact .alu hdest hsource hoperand

theorem describes_of_relative {op : RelativeOp} {instruction : Instruction}
    (hread : record.relative name op = .ok instruction) :
    record.Describes (.ofOpcode op.opcode) instruction := by
  obtain ⟨register, target, hregister, htarget, rfl⟩ := relative_eq_ok_iff.mp hread
  exact .relative hregister htarget

theorem describes_of_indexed {op : IndexedOp} {instruction : Instruction}
    (hread : record.indexed name op = .ok instruction) :
    record.Describes (.ofOpcode op.opcode) instruction := by
  obtain ⟨register, base, offset, hregister, hbase, hoffset, rfl⟩ :=
    indexed_eq_ok_iff.mp hread
  exact .indexed hregister hbase hoffset

theorem describes_of_read {mnemonic : Mnemonic} {instruction : Instruction}
    (hmem : mnemonic ∈ Mnemonic.table) (hread : record.read mnemonic = .ok instruction) :
    record.Describes mnemonic instruction := by
  rcases Mnemonic.mem_table_iff.mp hmem with ⟨opcode, rfl⟩ | rfl | rfl
  · cases opcode with
    | add => exact @describes_of_alu record _ .add _ hread
    | and => exact @describes_of_alu record _ .and _ hread
    | br =>
        obtain ⟨condition, hcondition, hrest⟩ := bind_eq_ok_iff.mp hread
        obtain ⟨target, htarget, hresult⟩ := bind_eq_ok_iff.mp hrest
        obtain rfl := Except.ok.inj hresult
        exact .branch (required_eq_ok_iff.mp hcondition) (target_eq_ok_iff.mp htarget)
    | jmp =>
        obtain ⟨base, hbase, rfl⟩ := map_eq_ok_iff.mp hread
        exact .jump (required_eq_ok_iff.mp hbase)
    | jsr =>
        obtain ⟨callee, hcallee, rfl⟩ := map_eq_ok_iff.mp hread
        exact .call (callee_eq_ok_iff.mp hcallee)
    | ld => exact @describes_of_relative record _ .ld _ hread
    | ldi => exact @describes_of_relative record _ .ldi _ hread
    | lea => exact @describes_of_relative record _ .lea _ hread
    | st => exact @describes_of_relative record _ .st _ hread
    | sti => exact @describes_of_relative record _ .sti _ hread
    | ldr => exact @describes_of_indexed record _ .ldr _ hread
    | str => exact @describes_of_indexed record _ .str _ hread
    | not =>
        obtain ⟨dest, hdest, hrest⟩ := bind_eq_ok_iff.mp hread
        obtain ⟨source, hsource, hresult⟩ := bind_eq_ok_iff.mp hrest
        obtain rfl := Except.ok.inj hresult
        exact .not (required_eq_ok_iff.mp hdest) (required_eq_ok_iff.mp hsource)
    | rti => cases hread
    | trap => cases hread
  · obtain ⟨base, hbase, rfl⟩ := map_eq_ok_iff.mp hread
    exact .callRegister (required_eq_ok_iff.mp hbase)
  · obtain rfl := Except.ok.inj hread
    exact .ret

/-- A record is the instruction that it describes under the mnemonic of its operation. -/
theorem toInstruction_eq_ok_iff {instruction : Instruction} :
    record.toInstruction = .ok instruction ↔
      ∃ mnemonic ∈ Mnemonic.table, mnemonic.Spells record.operation ∧
        record.Describes mnemonic instruction := by
  rw [toInstruction]
  constructor
  · intro hread
    cases hfind : Mnemonic.find? record.operation with
    | none => simp [hfind] at hread
    | some mnemonic =>
        rw [hfind] at hread
        obtain ⟨hmem, hspells⟩ := Mnemonic.find?_eq_some_iff.mp hfind
        exact ⟨mnemonic, hmem, hspells, describes_of_read hmem hread⟩
  · rintro ⟨mnemonic, hmem, hspells, hdescribes⟩
    -- The search may not stop earlier, because spellings are unique.
    rw [Mnemonic.find?_eq_some_iff.mpr ⟨hmem, hspells⟩]
    exact read_of_describes hdescribes

end Parts

section Admission

variable {record : Record}

theorem exists_targets_iff :
    (∃ target, record.Targets target) ↔ [Field.offset, .argLabel].countP record.has = 1 := by
  constructor
  · rintro ⟨target, htarget⟩
    cases target with
    | offset distance => simp [has, htarget.1, htarget.2]
    | label name => simp [has, htarget.1, htarget.2]
  · intro hcount
    cases hoffset : record.offset <;> cases hlabel : record.argLabel <;>
      simp [has, hoffset, hlabel] at hcount
    · exact ⟨.label _, hoffset, hlabel⟩
    · exact ⟨.offset _, hoffset, hlabel⟩

theorem exists_operates_iff :
    (∃ operand, record.Operates operand) ↔
      [Field.srcReg2, .immediate].countP record.has = 1 := by
  constructor
  · rintro ⟨operand, hoperand⟩
    cases operand with
    | register register => simp [has, hoperand.1, hoperand.2]
    | immediate value => simp [has, hoperand.1, hoperand.2]
  · intro hcount
    cases hregister : record.srcReg2 <;> cases himmediate : record.immediate <;>
      simp [has, hregister, himmediate] at hcount
    · exact ⟨.immediate _, hregister, himmediate⟩
    · exact ⟨.register _, hregister, himmediate⟩

theorem exists_calls_iff :
    (∃ callee, record.Calls callee) ↔
      [Field.register, .offset, .argLabel].countP record.has = 1 := by
  rw [List.countP_cons]
  -- Without a register this is the choice of a target; with one, nothing else may be given.
  cases hregister : record.register with
  | none =>
      have hhas : record.has .register = false := by simp [has, hregister]
      simp only [hhas, Bool.false_eq_true, if_false, Nat.add_zero, ← exists_targets_iff]
      constructor
      · rintro ⟨callee, hcallee⟩
        cases callee with
        | register base => simp [Calls, hregister] at hcallee
        | relative target => exact ⟨target, hcallee.2⟩
      · rintro ⟨target, htarget⟩
        exact ⟨.relative target, hregister, htarget⟩
  | some base =>
      have hhas : record.has .register = true := by simp [has, hregister]
      simp only [hhas, if_true, Nat.add_eq_right]
      constructor
      · rintro ⟨callee, hcallee⟩
        cases callee with
        | register base => simp [has, hcallee.2.1, hcallee.2.2]
        | relative target => simp [Calls, hregister] at hcallee
      · intro hnone
        simp only [List.countP_eq_zero] at hnone
        have hoffset := hnone .offset (by simp)
        have hlabel := hnone .argLabel (by simp)
        simp only [has, Option.not_isSome_iff_eq_none] at hoffset hlabel
        exact ⟨.register base, hregister, hoffset, hlabel⟩

namespace Rule

theorem admits_alu_iff :
    alu.Admits record ↔ (∃ dest, record.destReg = some dest) ∧
      (∃ source, record.srcReg1 = some source) ∧ ∃ operand, record.Operates operand := by
  rw [exists_operates_iff]
  simp [Admits, alu, has, Option.isSome_iff_exists, and_assoc]

theorem admits_branch_iff :
    branch.Admits record ↔ (∃ condition, record.conditionCode = some condition) ∧
      ∃ target, record.Targets target := by
  rw [exists_targets_iff]
  simp [Admits, branch, has, Option.isSome_iff_exists]

theorem admits_relative_iff :
    relative.Admits record ↔ (∃ register, record.register = some register) ∧
      ∃ target, record.Targets target := by
  rw [exists_targets_iff]
  simp [Admits, relative, has, Option.isSome_iff_exists]

theorem admits_call_iff : call.Admits record ↔ ∃ callee, record.Calls callee := by
  rw [exists_calls_iff]
  simp [Admits, call]

theorem admits_throughRegister_iff :
    throughRegister.Admits record ↔ ∃ register, record.register = some register := by
  simp [Admits, throughRegister, has, Option.isSome_iff_exists]

theorem admits_indexed_iff :
    indexed.Admits record ↔ (∃ register, record.moveReg = some register) ∧
      (∃ base, record.baseReg = some base) ∧ ∃ offset, record.offset = some offset := by
  simp [Admits, indexed, has, Option.isSome_iff_exists]

theorem admits_not_iff :
    Rule.not.Admits record ↔ (∃ dest, record.destReg = some dest) ∧
      ∃ source, record.srcReg = some source := by
  simp [Admits, Rule.not, has, Option.isSome_iff_exists]

theorem admits_nothing : nothing.Admits record := by
  simp [Admits, nothing]

end Rule

/-- Whatever is described is admitted by the rule of its operation. -/
theorem admits_of_describes {mnemonic : Mnemonic} {instruction : Instruction}
    (hdescribes : record.Describes mnemonic instruction) :
    (Rule.ofName mnemonic.name).Admits record := by
  cases hdescribes with
  | @alu op dest source operand hdest hsource hoperand =>
      have hadmits := Rule.admits_alu_iff.mpr
        ⟨⟨dest, hdest⟩, ⟨source, hsource⟩, operand, hoperand⟩
      cases op <;> exact hadmits
  | branch hcondition htarget =>
      exact Rule.admits_branch_iff.mpr ⟨⟨_, hcondition⟩, _, htarget⟩
  | jump hbase => exact Rule.admits_throughRegister_iff.mpr ⟨_, hbase⟩
  | ret => exact Rule.admits_nothing
  | call hcallee => exact Rule.admits_call_iff.mpr ⟨_, hcallee⟩
  | callRegister hbase => exact Rule.admits_throughRegister_iff.mpr ⟨_, hbase⟩
  | @relative op register target hregister htarget =>
      have hadmits := Rule.admits_relative_iff.mpr ⟨⟨register, hregister⟩, target, htarget⟩
      cases op <;> exact hadmits
  | @indexed op register base offset hregister hbase hoffset =>
      have hadmits := Rule.admits_indexed_iff.mpr
        ⟨⟨register, hregister⟩, ⟨base, hbase⟩, offset, hoffset⟩
      cases op <;> exact hadmits
  | not hdest hsource => exact Rule.admits_not_iff.mpr ⟨⟨_, hdest⟩, _, hsource⟩

/-- Nothing is described under a mnemonic that has no instructions. -/
theorem supported_of_describes {mnemonic : Mnemonic} {instruction : Instruction}
    (hdescribes : record.Describes mnemonic instruction) :
    mnemonic.name ≠ "RTI" ∧ mnemonic.name ≠ "TRAP" := by
  cases hdescribes with
  | @alu op => cases op <;> decide
  | @relative op => cases op <;> decide
  | @indexed op => cases op <;> decide
  | _ => decide

theorem exists_describes_of_alu (op : AluOp) (hadmits : Rule.alu.Admits record) :
    ∃ instruction, record.Describes (.ofOpcode op.opcode) instruction := by
  obtain ⟨⟨dest, hdest⟩, ⟨source, hsource⟩, operand, hoperand⟩ :=
    Rule.admits_alu_iff.mp hadmits
  exact ⟨_, .alu hdest hsource hoperand⟩

theorem exists_describes_of_relative (op : RelativeOp) (hadmits : Rule.relative.Admits record) :
    ∃ instruction, record.Describes (.ofOpcode op.opcode) instruction := by
  obtain ⟨⟨register, hregister⟩, target, htarget⟩ := Rule.admits_relative_iff.mp hadmits
  exact ⟨_, .relative hregister htarget⟩

theorem exists_describes_of_indexed (op : IndexedOp) (hadmits : Rule.indexed.Admits record) :
    ∃ instruction, record.Describes (.ofOpcode op.opcode) instruction := by
  obtain ⟨⟨register, hregister⟩, ⟨base, hbase⟩, offset, hoffset⟩ :=
    Rule.admits_indexed_iff.mp hadmits
  exact ⟨_, .indexed hregister hbase hoffset⟩

/-- A record that the rule of a mnemonic admits describes an instruction, unless the mnemonic has
no instructions. -/
theorem exists_describes_of_admits {mnemonic : Mnemonic} (hmem : mnemonic ∈ Mnemonic.table)
    (hrti : mnemonic.name ≠ "RTI") (htrap : mnemonic.name ≠ "TRAP")
    (hadmits : (Rule.ofName mnemonic.name).Admits record) :
    ∃ instruction, record.Describes mnemonic instruction := by
  rcases Mnemonic.mem_table_iff.mp hmem with ⟨opcode, rfl⟩ | rfl | rfl
  · cases opcode with
    | add => exact exists_describes_of_alu .add hadmits
    | and => exact exists_describes_of_alu .and hadmits
    | br =>
        obtain ⟨⟨condition, hcondition⟩, target, htarget⟩ :=
          Rule.admits_branch_iff.mp hadmits
        exact ⟨_, .branch hcondition htarget⟩
    | jmp =>
        obtain ⟨base, hbase⟩ := Rule.admits_throughRegister_iff.mp hadmits
        exact ⟨_, .jump hbase⟩
    | jsr =>
        obtain ⟨callee, hcallee⟩ := Rule.admits_call_iff.mp hadmits
        exact ⟨_, .call hcallee⟩
    | ld => exact exists_describes_of_relative .ld hadmits
    | ldi => exact exists_describes_of_relative .ldi hadmits
    | lea => exact exists_describes_of_relative .lea hadmits
    | st => exact exists_describes_of_relative .st hadmits
    | sti => exact exists_describes_of_relative .sti hadmits
    | ldr => exact exists_describes_of_indexed .ldr hadmits
    | str => exact exists_describes_of_indexed .str hadmits
    | not =>
        obtain ⟨⟨dest, hdest⟩, source, hsource⟩ := Rule.admits_not_iff.mp hadmits
        exact ⟨_, .not hdest hsource⟩
    | rti => exact absurd rfl hrti
    | trap => exact absurd rfl htrap
  · obtain ⟨base, hbase⟩ := Rule.admits_throughRegister_iff.mp hadmits
    exact ⟨_, .callRegister hbase⟩
  · exact ⟨_, .ret⟩

end Admission

section Frame

variable {first second : Record} {name : String}

theorem target_congr (hoffset : first.offset = second.offset)
    (hlabel : first.argLabel = second.argLabel) : first.target name = second.target name := by
  rw [Record.target, Record.target, hoffset, hlabel]

theorem callee_congr (hregister : first.register = second.register)
    (hoffset : first.offset = second.offset) (hlabel : first.argLabel = second.argLabel) :
    first.callee name = second.callee name := by
  rw [Record.callee, Record.callee, hregister, hoffset, hlabel, target_congr hoffset hlabel]

theorem alu_congr {op : AluOp} (hagree : ∀ field ∈ Rule.alu.fields, first.AgreeOn second field) :
    first.alu name op = second.alu name op := by
  have hdest : first.destReg = second.destReg := hagree .destReg (by decide)
  have hsource : first.srcReg1 = second.srcReg1 := hagree .srcReg1 (by decide)
  have hregister : first.srcReg2 = second.srcReg2 := hagree .srcReg2 (by decide)
  have himmediate : first.immediate = second.immediate := hagree .immediate (by decide)
  rw [Record.alu, Record.alu, Record.operand, Record.operand, hdest, hsource, hregister,
    himmediate]

theorem relative_congr {op : RelativeOp}
    (hagree : ∀ field ∈ Rule.relative.fields, first.AgreeOn second field) :
    first.relative name op = second.relative name op := by
  have hregister : first.register = second.register := hagree .register (by decide)
  have htarget : first.target name = second.target name :=
    target_congr (hagree .offset (by decide)) (hagree .argLabel (by decide))
  rw [Record.relative, Record.relative, hregister, htarget]

theorem indexed_congr {op : IndexedOp}
    (hagree : ∀ field ∈ Rule.indexed.fields, first.AgreeOn second field) :
    first.indexed name op = second.indexed name op := by
  have hregister : first.moveReg = second.moveReg := hagree .moveReg (by decide)
  have hbase : first.baseReg = second.baseReg := hagree .baseReg (by decide)
  have hoffset : first.offset = second.offset := hagree .offset (by decide)
  rw [Record.indexed, Record.indexed, hregister, hbase, hoffset]

/-- Reading looks at no field outside the rule of the mnemonic. -/
theorem read_congr {mnemonic : Mnemonic} (hmem : mnemonic ∈ Mnemonic.table)
    (hagree : ∀ field ∈ (Rule.ofName mnemonic.name).fields, first.AgreeOn second field) :
    first.read mnemonic = second.read mnemonic := by
  rcases Mnemonic.mem_table_iff.mp hmem with ⟨opcode, rfl⟩ | rfl | rfl
  · cases opcode with
    | add => exact alu_congr hagree
    | and => exact alu_congr hagree
    | br =>
        have hcondition : first.conditionCode = second.conditionCode :=
          hagree .conditionCode (by decide)
        have htarget : first.target "BR" = second.target "BR" :=
          target_congr (hagree .offset (by decide)) (hagree .argLabel (by decide))
        change (required "BR" _ _ >>= fun _ => first.target "BR" >>= _) = _
        rw [hcondition, htarget]
        rfl
    | jmp =>
        have hregister : first.register = second.register := hagree .register (by decide)
        change (required _ _ first.register).map _ = _
        rw [hregister]
        rfl
    | jsr =>
        have hcallee : first.callee "JSR" = second.callee "JSR" :=
          callee_congr (hagree .register (by decide)) (hagree .offset (by decide))
            (hagree .argLabel (by decide))
        change (first.callee "JSR").map _ = _
        rw [hcallee]
        rfl
    | ld => exact relative_congr hagree
    | ldi => exact relative_congr hagree
    | lea => exact relative_congr hagree
    | st => exact relative_congr hagree
    | sti => exact relative_congr hagree
    | ldr => exact indexed_congr hagree
    | str => exact indexed_congr hagree
    | not =>
        have hdest : first.destReg = second.destReg := hagree .destReg (by decide)
        have hsource : first.srcReg = second.srcReg := hagree .srcReg (by decide)
        change (required "NOT" _ first.destReg >>= fun _ =>
          required "NOT" _ first.srcReg >>= _) = _
        rw [hdest, hsource]
        rfl
    | rti => rfl
    | trap => rfl
  · have hregister : first.register = second.register := hagree .register (by decide)
    change (required _ _ first.register).map _ = _
    rw [hregister]
    rfl
  · rfl

end Frame

/-- Records are read by the grammar and by nothing else.  A record is an instruction exactly if its
operation is a mnemonic whose rule admits it; the instruction has the operands that the rule speaks
of; and fields outside the rule change neither instruction nor error. -/
theorem records_are_read_by_the_grammar (record : Record) :
    ((∃ instruction, record.toInstruction = .ok instruction) ↔
      ∃ mnemonic ∈ Mnemonic.table, mnemonic.Spells record.operation ∧
        mnemonic.name ≠ "RTI" ∧ mnemonic.name ≠ "TRAP" ∧
        (Rule.ofName mnemonic.name).Admits record) ∧
    (∀ instruction, record.toInstruction = .ok instruction ↔
      ∃ mnemonic ∈ Mnemonic.table, mnemonic.Spells record.operation ∧
        record.Describes mnemonic instruction) ∧
    ∀ other : Record, other.operation = record.operation →
      (∀ mnemonic ∈ Mnemonic.table, mnemonic.Spells record.operation →
        ∀ field ∈ (Rule.ofName mnemonic.name).fields, record.AgreeOn other field) →
      other.toInstruction = record.toInstruction := by
  refine ⟨⟨?_, ?_⟩, fun instruction => toInstruction_eq_ok_iff, ?_⟩
  · rintro ⟨instruction, hread⟩
    obtain ⟨mnemonic, hmem, hspells, hdescribes⟩ := toInstruction_eq_ok_iff.mp hread
    obtain ⟨hrti, htrap⟩ := supported_of_describes hdescribes
    exact ⟨mnemonic, hmem, hspells, hrti, htrap, admits_of_describes hdescribes⟩
  · rintro ⟨mnemonic, hmem, hspells, hrti, htrap, hadmits⟩
    obtain ⟨instruction, hdescribes⟩ :=
      exists_describes_of_admits hmem hrti htrap hadmits
    exact ⟨instruction, toInstruction_eq_ok_iff.mpr ⟨mnemonic, hmem, hspells, hdescribes⟩⟩
  · intro other hoperation hagree
    rw [toInstruction, toInstruction, hoperation]
    cases hfind : Mnemonic.find? record.operation with
    | none => rfl
    | some mnemonic =>
        obtain ⟨hmem, hspells⟩ := Mnemonic.find?_eq_some_iff.mp hfind
        exact (read_congr hmem (hagree mnemonic hmem hspells)).symm

/-- The aliases are read in either case and pass over operands that are not theirs.  The operation
that one of them stands for does not. -/
theorem aliases_pass_over_other_operands :
    let ret : Record := { operation := "Ret", register := some (3#3).toFin }
    let call : Record :=
      { operation := "jsrr", register := some (5#3).toFin, argLabel := some "SUB" }
    ret.toInstruction = .ok (.jump .link) ∧
      call.toInstruction = .ok (.call (.register (5#3).toFin)) ∧
      ¬ ∃ instruction, { call with operation := "JSR" }.toInstruction = .ok instruction := by
  intro ret call
  obtain ⟨-, hret, -⟩ := records_are_read_by_the_grammar ret
  obtain ⟨-, hcall, -⟩ := records_are_read_by_the_grammar call
  obtain ⟨hjsr, -⟩ := records_are_read_by_the_grammar { call with operation := "JSR" }
  refine ⟨?_, ?_, ?_⟩
  · rw [hret]
    exact ⟨⟨"RET", .jmp, .ret⟩, by decide, (Mnemonic.sameName_iff _ _).mp (by decide), .ret⟩
  · rw [hcall]
    exact ⟨⟨"JSRR", .jsr, .registerCall⟩, by decide, (Mnemonic.sameName_iff _ _).mp (by decide),
      .callRegister rfl⟩
  · rw [hjsr]
    rintro ⟨mnemonic, hmem, hspells, -, -, hadmits⟩
    have hjsr : mnemonic = ⟨"JSR", .jsr, .any⟩ :=
      Mnemonic.eq_of_spells hmem (by decide) hspells rfl
    subst hjsr
    exact absurd (hadmits.2 (by decide)) (by decide)

end Record

end LittleComputer
