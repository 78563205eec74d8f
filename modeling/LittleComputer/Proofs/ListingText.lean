import LittleComputer.Proofs.Instruction.Canonical
import LittleComputer.Proofs.Listing
import LittleComputer.Proofs.Text.Numeral

/-!
Texts of listings.  A text is a name and operands, and neither the name nor an operand has a blank
or a comma in it, so the text can be taken apart again.  The name tells the form of the instruction
and the operands its registers and its number.  Only the target of a branch that is never taken is
not shown.
-/
namespace LittleComputer

/-- The names that listings have for instructions, one for each form and operation. -/
inductive Spelling
  | alu (op : AluOp)
  | nop
  | branch (condition : Condition)
  | ret
  | jump
  | callRegister
  | call
  | relative (op : RelativeOp)
  | indexed (op : IndexedOp)
  | not
deriving DecidableEq

namespace Spelling

def text : Spelling → String
  | alu op => op.opcode.mnemonic
  | nop => "NOP"
  | branch condition => "BR" ++ condition.letters
  | ret => "RET"
  | jump => "JMP"
  | callRegister => "JSRR"
  | call => "JSR"
  | relative op => op.opcode.mnemonic
  | indexed op => op.opcode.mnemonic
  | not => "NOT"

def conditions : List Condition :=
  [true, false].flatMap fun n => [true, false].flatMap fun z => [true, false].map fun p => ⟨n, z, p⟩

def all : List Spelling :=
  [alu .add, alu .and, nop, ret, jump, callRegister, call, relative .ld, relative .ldi,
    relative .lea, relative .st, relative .sti, indexed .ldr, indexed .str, not] ++
    conditions.map branch

theorem mem_all (spelling : Spelling) : spelling ∈ all := by
  cases spelling with
  | alu op => cases op <;> decide
  | branch condition =>
      obtain ⟨n, z, p⟩ := condition
      revert n z p
      decide
  | relative op => cases op <;> decide
  | indexed op => cases op <;> decide
  | _ => decide

/-- No two forms have the same name, though some names begin with others. -/
theorem text_injective : Function.Injective text := by
  have hnodup : (all.map text).Nodup := by decide
  intro first second htext
  exact List.inj_on_of_nodup_map hnodup (mem_all first) (mem_all second) htext

end Spelling

/-- A text without blanks and commas. -/
def Solid (text : String) : Prop :=
  ∀ c ∈ text.toList, c ≠ ' ' ∧ c ≠ ','

theorem Spelling.solid_text (spelling : Spelling) : Solid spelling.text := by
  have hall : (all.all fun spelling =>
      spelling.text.toList.all fun c => c != ' ' && c != ',') = true := by decide
  simp only [List.all_eq_true, Bool.and_eq_true, bne_iff_ne] at hall
  exact hall spelling (mem_all spelling)

namespace Operand

theorem toList_text_register (register : Register) :
    (Operand.register register).text.toList =
      'R' :: (Numeral.decimal register.val).toList := by
  simp [Operand.text, Register.text, toString]

theorem toList_text_immediate (value : Int16) :
    (Operand.immediate value).text.toList = '#' :: (Numeral.decimal value.toInt).toList := by
  simp [Operand.text, numberText, toString]

theorem solid_text (operand : Operand) : Solid operand.text := by
  have hdecimal : ∀ {number : Int} {c : Char}, c ∈ (Numeral.decimal number).toList →
      c ≠ ' ' ∧ c ≠ ',' := by
    intro number c hmem
    rcases Numeral.mem_decimal hmem with rfl | hdigit
    · decide
    · constructor <;> rintro rfl <;> exact absurd hdigit (by decide)
  intro c hmem
  cases operand with
  | register register =>
      rw [toList_text_register, List.mem_cons] at hmem
      rcases hmem with rfl | hmem
      · decide
      · exact hdecimal hmem
  | immediate value =>
      rw [toList_text_immediate, List.mem_cons] at hmem
      rcases hmem with rfl | hmem
      · decide
      · exact hdecimal hmem

theorem text_injective : Function.Injective text := by
  intro first second htext
  have hchars := congrArg String.toList htext
  cases first with
  | register register =>
      cases second with
      | register other =>
          rw [toList_text_register, toList_text_register] at hchars
          have hdecimal := String.toList_injective (List.tail_eq_of_cons_eq hchars)
          have hvalue := Numeral.decimal_injective hdecimal
          rw [Fin.ext (Int.ofNat.inj hvalue)]
      | immediate value =>
          rw [toList_text_register, toList_text_immediate] at hchars
          exact absurd (List.head_eq_of_cons_eq hchars) (by decide)
  | immediate value =>
      cases second with
      | register register =>
          rw [toList_text_register, toList_text_immediate] at hchars
          exact absurd (List.head_eq_of_cons_eq hchars) (by decide)
      | immediate other =>
          rw [toList_text_immediate, toList_text_immediate] at hchars
          have hdecimal := String.toList_injective (List.tail_eq_of_cons_eq hchars)
          rw [Int16.toInt_inj.mp (Numeral.decimal_injective hdecimal)]

end Operand

theorem Solid.filter {text : String} (hsolid : Solid text) :
    text.toList.filter (· != ',') = text.toList := by
  rw [List.filter_eq_self]
  intro c hmem
  simpa using (hsolid c hmem).2

/-- Operands as listings write them, the first one after `mark`. -/
def operandsText (mark : List Char) : List String → List Char
  | [] => []
  | operand :: rest => mark ++ operand.toList ++ operandsText [',', ' '] rest

/-- A name with operands as listings write it. -/
def lineText (name : String) (operands : List String) : List Char :=
  name.toList ++ operandsText [' '] operands

/-- Without its commas a line is its parts with blanks between them. -/
theorem filter_operandsText {name : String} {operands : List String} {mark : List Char}
    (hname : Solid name) (hoperands : ∀ operand ∈ operands, Solid operand)
    (hmark : mark.filter (· != ',') = [' ']) :
    (name.toList ++ operandsText mark operands).filter (· != ',') =
      [' '].intercalate (name.toList :: operands.map String.toList) := by
  induction operands generalizing name mark with
  | nil => simp [operandsText, hname.filter]
  | cons operand rest ih =>
      obtain ⟨hoperand, hrest⟩ := List.forall_mem_cons.mp hoperands
      rw [operandsText, List.append_assoc, List.filter_append, List.filter_append, hmark,
        hname.filter, ih hoperand hrest rfl, List.map_cons, List.intercalate_cons_cons,
        List.append_assoc]

/-- The parts of a line can be found again. -/
theorem splitOn_lineText {name : String} {operands : List String}
    (hname : Solid name) (hoperands : ∀ operand ∈ operands, Solid operand) :
    ((lineText name operands).filter (· != ',')).splitOn ' ' =
      name.toList :: operands.map String.toList := by
  rw [lineText, filter_operandsText hname hoperands rfl]
  apply List.splitOn_intercalate ' ' _ (by simp)
  intro part hpart hblank
  rcases List.mem_cons.mp hpart with rfl | hpart
  · exact (hname ' ' hblank).1 rfl
  · obtain ⟨operand, hoperand, rfl⟩ := List.mem_map.mp hpart
    exact (hoperands operand hoperand ' ' hblank).1 rfl

/-- Names and operands that make the same line are the same. -/
theorem lineText_inj {first second : Spelling} {operands others : List Operand}
    (hline : lineText first.text (operands.map Operand.text) =
      lineText second.text (others.map Operand.text)) :
    first = second ∧ operands = others := by
  have hparts : ∀ (spelling : Spelling) (operands : List Operand),
      ((lineText spelling.text (operands.map Operand.text)).filter (· != ',')).splitOn ' ' =
        spelling.text.toList :: (operands.map Operand.text).map String.toList := by
    intro spelling operands
    apply splitOn_lineText spelling.solid_text
    intro text htext
    obtain ⟨operand, -, rfl⟩ := List.mem_map.mp htext
    exact operand.solid_text
  have hsame := hparts first operands
  rw [hline, hparts second others, List.cons.injEq] at hsame
  obtain ⟨hname, hoperands⟩ := hsame
  refine ⟨(Spelling.text_injective (String.toList_injective hname)).symm, ?_⟩
  have htexts : others.map Operand.text = operands.map Operand.text :=
    List.map_injective_iff.mpr (fun _ _ => String.toList_injective) hoperands
  exact (List.map_injective_iff.mpr Operand.text_injective htexts).symm

/-- An instruction is listed by a name and operands. -/
inductive Instruction.Listed : Instruction → Spelling → List Operand → Prop
  | alu (op : AluOp) (dest source : Register) (operand : Operand) :
      Listed (.alu op dest source operand) (.alu op)
        [.register dest, .register source, operand]
  /-- Whatever the target is. -/
  | nop (target : Target) : Listed (.branch .never target) .nop []
  | branch {condition : Condition} (hsome : condition ≠ .never) (distance : Int16) :
      Listed (.branch condition (.offset distance)) (.branch condition) [.immediate distance]
  | ret : Listed (.jump .link) .ret []
  | jump {base : Register} (hother : base ≠ .link) :
      Listed (.jump base) .jump [.register base]
  | callRegister (base : Register) :
      Listed (.call (.register base)) .callRegister [.register base]
  | call (distance : Int16) :
      Listed (.call (.relative (.offset distance))) .call [.immediate distance]
  | relative (op : RelativeOp) (register : Register) (distance : Int16) :
      Listed (.relative op register (.offset distance)) (.relative op)
        [.register register, .immediate distance]
  | indexed (op : IndexedOp) (register base : Register) (offset : Int16) :
      Listed (.indexed op register base offset) (.indexed op)
        [.register register, .register base, .immediate offset]
  | not (dest source : Register) :
      Listed (.not dest source) .not [.register dest, .register source]

namespace Instruction

theorem exists_listed {instruction : Instruction} (hlabel : instruction.label? = none) :
    ∃ spelling operands, instruction.Listed spelling operands := by
  cases instruction with
  | alu op dest source operand => exact ⟨_, _, .alu op dest source operand⟩
  | branch condition target =>
      by_cases hnever : condition = .never
      · subst hnever
        exact ⟨_, _, .nop target⟩
      · cases target with
        | offset distance => exact ⟨_, _, .branch hnever distance⟩
        | label name => cases hlabel
  | jump base =>
      by_cases hlink : base = .link
      · subst hlink
        exact ⟨_, _, .ret⟩
      · exact ⟨_, _, .jump hlink⟩
  | call callee =>
      rcases callee with base | ⟨distance | name⟩
      · exact ⟨_, _, .callRegister base⟩
      · exact ⟨_, _, .call distance⟩
      · cases hlabel
  | relative op register target =>
      cases target with
      | offset distance => exact ⟨_, _, .relative op register distance⟩
      | label name => cases hlabel
  | indexed op register base offset => exact ⟨_, _, .indexed op register base offset⟩
  | not dest source => exact ⟨_, _, .not dest source⟩

namespace Listed

variable {first second : Instruction} {spelling : Spelling} {operands : List Operand}

theorem toList_text (hlisted : first.Listed spelling operands) :
    first.text.toList = lineText spelling.text (operands.map Operand.text) := by
  cases hlisted <;>
    simp_all [Instruction.text, lineText, operandsText, Spelling.text, Operand.text,
      Target.text, toString]

/-- Instructions that are listed alike are equal, unless they are branches that are never taken. -/
theorem unique (hfirst : first.Listed spelling operands)
    (hsecond : second.Listed spelling operands) :
    first = second ∨
      (∃ target, first = .branch .never target) ∧ ∃ target, second = .branch .never target := by
  cases hfirst <;> cases hsecond
  case nop.nop target other => exact .inr ⟨⟨target, rfl⟩, other, rfl⟩
  all_goals exact .inl rfl

end Listed

/-- The text of an instruction without a label tells it from all others, but for the targets of
branches that are never taken. -/
theorem text_eq_text_iff {first second : Instruction} (hfirst : first.label? = none)
    (hsecond : second.label? = none) :
    first.text = second.text ↔ first = second ∨
      (∃ target, first = .branch .never target) ∧ ∃ target, second = .branch .never target := by
  constructor
  · intro htext
    obtain ⟨spelling, operands, hlisted⟩ := exists_listed hfirst
    obtain ⟨spelling', operands', hlisted'⟩ := exists_listed hsecond
    have hline := congrArg String.toList htext
    rw [hlisted.toList_text, hlisted'.toList_text] at hline
    obtain ⟨rfl, rfl⟩ := lineText_inj hline
    exact hlisted.unique hlisted'
  · rintro (rfl | ⟨⟨target, rfl⟩, other, rfl⟩)
    · rfl
    · rfl

/-- No name of an instruction begins like that of data. -/
theorem text_ne_data {instruction : Instruction} (hlabel : instruction.label? = none)
    (word : Word) : instruction.text ≠ s!".FILL x{word.listed}" := by
  have hall : ∀ spelling ∈ Spelling.all, spelling.text.toList.head?.any (· != '.') = true := by
    decide
  intro htext
  obtain ⟨spelling, operands, hlisted⟩ := exists_listed hlabel
  have hhead := hall spelling spelling.mem_all
  have hline := congrArg String.toList htext
  rw [hlisted.toList_text, lineText] at hline
  cases hname : spelling.text.toList with
  | nil => simp [hname] at hhead
  | cons c rest =>
      have hdot : c = '.' := by
        simpa [hname, toString] using congrArg List.head? hline
      simp [hname, hdot] at hhead

end Instruction

theorem data_inj {first second : Word} :
    s!".FILL x{first.listed}" = s!".FILL x{second.listed}" ↔ first = second := by
  constructor
  · intro htext
    apply Word.listed_injective
    apply String.toList_injective
    simpa [toString] using congrArg String.toList htext
  · rintro rfl
    rfl

/-- Words that are shown alike without symbols. -/
def Word.ShownAlike (first second : Word) : Prop :=
  (∃ instruction, decode first = .ok instruction ∧ decode second = .ok instruction) ∨
  ((∃ target, decode first = .ok (.branch .never target)) ∧
    ∃ target, decode second = .ok (.branch .never target)) ∨
  (∃ error, decode first = .error error) ∧ (∃ error, decode second = .error error) ∧
    first = second

theorem getElem?_disassemble {words : List Word} {index : Nat} {word : Word}
    (hword : words[index]? = some word) (origin : Address) :
    (disassemble none origin words).value[index]? =
      some (Line.ofDecoded none (origin.advance index) word (decode word)).value := by
  simp [value_disassemble, hword]

namespace Line

theorem text_ofDecoded_ok {word : Word} {instruction : Instruction}
    (hdecode : decode word = .ok instruction) (address : Address) :
    (ofDecoded none address word (decode word)).value.text = instruction.text := by
  rw [hdecode]
  rfl

theorem text_ofDecoded_error {word : Word} {error : DecodeError}
    (hdecode : decode word = .error error) (address : Address) :
    (ofDecoded none address word (decode word)).value.text = s!".FILL x{word.listed}" := by
  rw [hdecode]
  rfl

theorem text_eq_text_iff (address address' : Address) (word word' : Word) :
    (ofDecoded none address word (decode word)).value.text =
        (ofDecoded none address' word' (decode word')).value.text ↔
      word.ShownAlike word' := by
  cases hdecode : decode word with
  | ok instruction =>
      have hlabel := label?_of_decode hdecode
      rw [← hdecode, text_ofDecoded_ok hdecode]
      cases hdecode' : decode word' with
      | ok other =>
          rw [← hdecode', text_ofDecoded_ok hdecode',
            Instruction.text_eq_text_iff hlabel (label?_of_decode hdecode')]
          simp [Word.ShownAlike, hdecode, hdecode', eq_comm]
      | error error =>
          rw [← hdecode', text_ofDecoded_error hdecode']
          simp [Word.ShownAlike, hdecode, hdecode', Instruction.text_ne_data hlabel]
  | error error =>
      rw [← hdecode, text_ofDecoded_error hdecode]
      cases hdecode' : decode word' with
      | ok other =>
          have hne := Instruction.text_ne_data (label?_of_decode hdecode') word
          rw [← hdecode', text_ofDecoded_ok hdecode']
          simp [Word.ShownAlike, hdecode, hdecode', hne.symm]
      | error error' =>
          rw [← hdecode', text_ofDecoded_error hdecode', data_inj]
          simp [Word.ShownAlike, hdecode, hdecode']

end Line

/-- The text of a line identifies the instruction.  Instructions without labels have the same text
only if they are equal or both branches on no flag.  So words that are shown without symbols have
the same text only if they decode to such instructions, or are equal and no instructions. -/
theorem text_identifies_the_instruction :
    (∀ first second : Instruction, first.label? = none → second.label? = none →
      (first.text = second.text ↔ first = second ∨
        (∃ target, first = .branch .never target) ∧
          ∃ target, second = .branch .never target)) ∧
    ∀ (origin origin' : Address) (words words' : List Word) (index index' : Nat)
      (word word' : Word), words[index]? = some word → words'[index']? = some word' →
      ∃ line line' : Line, (disassemble none origin words).value[index]? = some line ∧
        (disassemble none origin' words').value[index']? = some line' ∧
        (line.text = line'.text ↔ word.ShownAlike word') := by
  refine ⟨fun first second => Instruction.text_eq_text_iff, ?_⟩
  intro origin origin' words words' index index' word word' hword hword'
  exact ⟨_, _, getElem?_disassemble hword origin, getElem?_disassemble hword' origin',
    Line.text_eq_text_iff _ _ word word'⟩

/-- `LD` and `LDI` are told apart, words with another spare bit are not, and neither are branches on
no flag. -/
theorem texts_of_similar_words :
    (Instruction.relative .ld .link (.offset (-1))).text ≠
        (Instruction.relative .ldi .link (.offset (-1))).text ∧
      (∃ line line' : Line, (disassemble none 0x3000 [0xF025, 0xC1C0]).value[1]? = some line ∧
        (disassemble none 0xFFFF [0xC1FF]).value[0]? = some line' ∧ line.text = line'.text) ∧
      ∃ line line' : Line, (disassemble none 0x3000 [0x0000]).value[0]? = some line ∧
        (disassemble none 0x3000 [0x0000, 0x01FF]).value[1]? = some line' ∧
        line.text = line'.text := by
  obtain ⟨hinstructions, hlines⟩ := text_identifies_the_instruction
  refine ⟨fun htext => ?_, ?_, ?_⟩
  · rcases (hinstructions _ _ rfl rfl).mp htext with hsame | ⟨⟨target, hnever⟩, -⟩
    · cases hsame
    · cases hnever
  · have hreturn : decode 0xC1C0 = .ok (.jump .link) ∧ decode 0xC1FF = .ok (.jump .link) := by
      decide
    obtain ⟨line, line', hline, hline', htext⟩ :=
      hlines 0x3000 0xFFFF [0xF025, 0xC1C0] [0xC1FF] 1 0 _ _ rfl rfl
    exact ⟨line, line', hline, hline', htext.mpr (.inl ⟨_, hreturn⟩)⟩
  · have hnever : decode 0x0000 = .ok (.branch .never (.offset 0)) ∧
        decode 0x01FF = .ok (.branch .never (.offset (-1))) := by decide
    obtain ⟨line, line', hline, hline', htext⟩ :=
      hlines 0x3000 0x3000 [0x0000] [0x0000, 0x01FF] 0 1 _ _ rfl rfl
    exact ⟨line, line', hline, hline', htext.mpr (.inr (.inl ⟨⟨_, hnever.1⟩, _, hnever.2⟩))⟩

end LittleComputer
