import LittleComputer.Proofs.Instruction.Operands

/-!
What is said while an instruction is encoded.  Every value that is packed is known to fit its field,
so packing says nothing.  The one thing that can lose bits is the distance to a label if offsets
wrap; that is said, and a distance that lost bits leads somewhere else.
-/
namespace LittleComputer

open Bits

theorem Bits.BitField.holds_of_fits {field : BitField} {value : Int}
    (hfits : fits value field.width = true) : field.holds value = true := by
  rw [BitField.holds, hfits, Bool.true_or]

theorem Bits.BitField.holds_register {field : BitField} (hwidth : field.width = 3)
    (register : Register) : field.holds register.val = true := by
  rw [BitField.holds, hwidth]
  revert register
  decide

theorem Bits.BitField.holds_flag {field : BitField} (hwidth : field.width = 1) (set : Bool) :
    field.holds (Encoding.flag set) = true := by
  rw [BitField.holds, hwidth]
  revert set
  decide

/-- Packing values that fit says nothing. -/
theorem Bits.events_pack_of_holds {word : Word} {entries : List (BitField × Int)}
    (hholds : ∀ entry ∈ entries, entry.1.holds entry.2 = true) :
    (pack word entries).events = [] := by
  rw [events_pack, List.map_eq_nil_iff, List.filter_eq_nil_iff]
  intro entry hentry
  simp [hholds entry hentry]

/-- What is said about a target whose number goes into a field of `width` bits. -/
def Target.warnings (number : Int) (width : Nat) : Target → List Event
  | .offset _ => []
  | .label name =>
      if Representable number width then [] else [.offsetTruncated name number width]

/-- What is said about an instruction with `number` in its numeric field. -/
def Instruction.warnings (number : Int) (instruction : Instruction) : List Event :=
  match instruction.target? with
  | some (target, width) => target.warnings number width
  | none => []

namespace Instruction

theorem warnings_of_target {instruction : Instruction} {target : Target} {width : Nat}
    (number : Int) (htarget : instruction.target? = some (target, width)) :
    instruction.warnings number = target.warnings number width := by
  rw [warnings, htarget]

/-- There is at most one warning, and it is about a label. -/
theorem warnings_cases (number : Int) (instruction : Instruction) :
    instruction.warnings number = [] ∨ ∃ name width,
      instruction.label? = some name ∧
        instruction.warnings number = [.offsetTruncated name number width] := by
  cases htarget : instruction.target? with
  | none =>
      rw [warnings, htarget]
      exact .inl rfl
  | some entry =>
      obtain ⟨target, width⟩ := entry
      rw [warnings_of_target number htarget]
      cases target with
      | offset distance => exact .inl rfl
      | label name =>
          rw [Target.warnings]
          split
          · exact .inl rfl
          · exact .inr ⟨name, width, label?_eq_some_iff.mpr ⟨width, htarget⟩, rfl⟩

end Instruction

namespace Encoding

variable {α β : Type}

@[simp] theorem events_run_lift (logged : Logged α) :
    (liftM logged : Encoding α).run.events = logged.events :=
  List.append_nil logged.events

theorem events_run_bind_of_ok {first : Encoding α} {a : α}
    (hfirst : first.run.value = .ok a) (second : α → Encoding β) :
    (first >>= second).run.events = first.run.events ++ (second a).run.events := by
  change (first.run >>= ExceptT.bindCont second).events = _
  rw [Logged.events_bind, hfirst]
  rfl

theorem events_run_bind_of_error {first : Encoding α} {cause : EncodeError}
    (hfirst : first.run.value = .error cause) (second : α → Encoding β) :
    (first >>= second).run.events = first.run.events := by
  change (first.run >>= ExceptT.bindCont second).events = _
  rw [Logged.events_bind, hfirst]
  exact List.append_nil first.run.events

theorem events_checkField (field : String) (value : Int) (width : Nat) :
    (checkField field value width).run.events = [] := by
  rw [checkField]
  split <;> rfl

section Resolve

variable {rule : OffsetRule} {next : Address} {symbols : SymbolTable} {width : Nat}

theorem events_resolve_of_ok (hle : width ≤ 32) {target : Target} {value : Int}
    (hoffset : offset rule next symbols width target = .ok value) :
    (resolve rule next symbols width target).run.events = target.warnings value width := by
  cases target with
  | offset distance => exact events_checkField "offset" distance.toInt width
  | label name =>
      obtain ⟨address, hfind, rfl, hstrict⟩ := offset_label_eq_ok hoffset
      simp only [resolve, hfind, Target.warnings, ← fits_iff_representable hle]
      cases hfits : fits (distance next address) width with
      | true => rfl
      | false =>
          cases rule with
          | strict => simp [hfits] at hstrict
          | wrap => rfl

theorem events_resolve_of_error (hle : width ≤ 32) {target : Target} {cause : EncodeError}
    (hoffset : offset rule next symbols width target = .error cause) :
    (resolve rule next symbols width target).run.events = [] := by
  cases target with
  | offset distance => exact events_checkField "offset" distance.toInt width
  | label name =>
      rcases (offset_label_eq_error_iff hle).mp hoffset with
        ⟨hnone, -⟩ | ⟨rfl, address, hfind, hrange, -⟩
      · simp only [resolve, hnone]
        rfl
      · rw [← fits_iff_representable hle] at hrange
        simp only [resolve, hfind, hrange]
        rfl

end Resolve

section Bits

variable {rule : OffsetRule} {next : Address} {symbols : SymbolTable}
variable {instruction : Instruction}

/-- An instruction that has its number is encoded with the warnings about that number. -/
theorem events_bits_of_ok {value : Int}
    (hnumber : number rule next symbols instruction = .ok value) :
    (bits rule next symbols instruction).run.events = instruction.warnings value := by
  cases instruction with
  | alu op dest source operand =>
      have hdest := BitField.holds_register (rfl : destField.width = 3) dest
      have hsource := BitField.holds_register (rfl : source1Field.width = 3) source
      cases operand with
      | register register =>
          have hsecond := BitField.holds_register (rfl : source2Field.width = 3) register
          rw [bits, events_run_lift]
          exact events_pack_of_holds (by simp [hdest, hsource, hsecond])
      | immediate immediate =>
          obtain ⟨rfl, hfits⟩ := checked_eq_ok hnumber
          have hvalue : immediateField.holds immediate.toInt = true :=
            BitField.holds_of_fits hfits
          rw [bits, events_run_bind_of_ok ((value_checkField _ _ _).trans hnumber),
            events_checkField, events_run_lift]
          exact events_pack_of_holds (by simp [hdest, hsource, hvalue])
  | branch condition target =>
      have hn := BitField.holds_flag (rfl : negativeField.width = 1) condition.n
      have hz := BitField.holds_flag (rfl : zeroField.width = 1) condition.z
      have hp := BitField.holds_flag (rfl : positiveField.width = 1) condition.p
      rw [bits, events_run_bind_of_ok ((value_resolve _ _ _ _ _).trans hnumber),
        events_resolve_of_ok (by decide) hnumber, events_run_bind_of_ok (value_run_lift _),
        events_run_lift, events_pack_of_holds (by simp [hn, hz, hp])]
      exact List.append_nil _
  | jump base =>
      have hbase := BitField.holds_register (rfl : baseField.width = 3) base
      rw [bits, events_run_lift]
      exact events_pack_of_holds (by simp [hbase])
  | call callee =>
      cases callee with
      | register base =>
          have hbase := BitField.holds_register (rfl : baseField.width = 3) base
          rw [bits, events_run_lift]
          exact events_pack_of_holds (by simp [hbase])
      | relative target =>
          rw [bits, events_run_bind_of_ok ((value_resolve _ _ _ _ _).trans hnumber),
            events_resolve_of_ok (by decide) hnumber]
          exact List.append_nil _
  | relative op register target =>
      have hregister := BitField.holds_register (rfl : highField.width = 3) register
      rw [bits, events_run_bind_of_ok ((value_resolve _ _ _ _ _).trans hnumber),
        events_resolve_of_ok (by decide) hnumber, events_run_bind_of_ok (value_run_lift _),
        events_run_lift, events_pack_of_holds (by simp [hregister])]
      exact List.append_nil _
  | indexed op register base offset =>
      obtain ⟨rfl, hfits⟩ := checked_eq_ok hnumber
      have hregister := BitField.holds_register (rfl : moveField.width = 3) register
      have hbase := BitField.holds_register (rfl : indexBaseField.width = 3) base
      have hvalue : indexField.holds offset.toInt = true :=
        BitField.holds_of_fits hfits
      rw [bits, events_run_bind_of_ok ((value_checkField _ _ _).trans hnumber),
        events_checkField, events_run_lift]
      exact events_pack_of_holds (by simp [hregister, hbase, hvalue])
  | not dest source =>
      have hdest := BitField.holds_register (rfl : destField.width = 3) dest
      have hsource := BitField.holds_register (rfl : sourceField.width = 3) source
      rw [bits, events_run_lift]
      exact events_pack_of_holds (by simp [hdest, hsource])

theorem events_bits_of_error {cause : EncodeError}
    (hnumber : number rule next symbols instruction = .error cause) :
    (bits rule next symbols instruction).run.events = [] := by
  rcases instruction with ⟨_, _, _, _ | _⟩ | _ | _ | (_ | _) | _ | _ | _
  case alu.immediate | indexed =>
    rw [bits, events_run_bind_of_error ((value_checkField _ _ _).trans hnumber),
      events_checkField]
  case branch | call.relative | relative =>
    rw [bits, events_run_bind_of_error ((value_resolve _ _ _ _ _).trans hnumber),
      events_resolve_of_error (by decide) hnumber]
  all_goals cases hnumber

theorem events_encode_of_ok {value : Int}
    (hnumber : number rule next symbols instruction = .ok value) :
    (instruction.encode rule next symbols).run.events =
      instruction.warnings value ++ [.encoded instruction (word value instruction)] := by
  have hbits : (bits rule next symbols instruction).run.value =
      .ok (word value instruction) := by
    rw [value_bits, hnumber]
    rfl
  rw [Instruction.encode, events_run_bind_of_ok hbits, events_bits_of_ok hnumber]
  rfl

theorem events_encode_of_error {cause : EncodeError}
    (hnumber : number rule next symbols instruction = .error cause) :
    (instruction.encode rule next symbols).run.events = [] := by
  have hbits : (bits rule next symbols instruction).run.value = .error cause := by
    rw [value_bits, hnumber]
    rfl
  rw [Instruction.encode, events_run_bind_of_error hbits, events_bits_of_error hnumber]

end Bits

/-- A distance cut down to its field leads to its address exactly if it has not lost bits. -/
theorem add_truncate_distance_eq_iff (next address : Address) {width : Nat}
    (hpos : 1 ≤ width) (hle : width ≤ 16) :
    next + (Int16.ofInt (truncate (distance next address) width)).toBitVec = address ↔
      Representable (distance next address) width := by
  have hrange := representable_truncate (distance next address) hpos (by omega)
  constructor
  · intro hreach
    -- What was kept is a distance to the address as well, and there is only one.
    have hkept := distance_add next (Int16.ofInt (truncate (distance next address) width))
    rw [hreach, toInt_ofInt_of_representable hle hrange] at hkept
    rwa [← hkept] at hrange
  · intro hfits
    have hkept := (fits_iff_representable (by omega)).mpr hfits
    rw [truncate_eq_self_of_fits hpos (by omega) hkept, add_distance]

end Encoding

/-- A word is read back as leading to its label exactly if there was nothing to warn of. -/
theorem Encoding.warnings_eq_nil_iff {rule : OffsetRule} {next : Address}
    {symbols : SymbolTable} {instruction : Instruction} {name : String} {value : Int}
    (hlabel : instruction.label? = some name)
    (hnumber : number rule next symbols instruction = .ok value) :
    ∃ address, symbols.find? name = some address ∧
      (instruction.warnings value = [] ↔
        ∃ decoded, decode (word value instruction) = .ok decoded ∧
          decoded.destination? next = some address) := by
  obtain ⟨width, htarget⟩ := Instruction.label?_eq_some_iff.mp hlabel
  obtain ⟨hpos, hle⟩ := Instruction.width_bounds htarget
  rw [number_of_target htarget] at hnumber
  obtain ⟨address, hfind, rfl, -⟩ := offset_label_eq_ok hnumber
  have hreach := add_truncate_distance_eq_iff next address hpos hle
  refine ⟨address, hfind, ?_⟩
  rw [Instruction.warnings_of_target _ htarget, Target.warnings, decode_word,
    Instruction.withNumber_of_target _ htarget]
  simp only [Except.ok.injEq, exists_eq_left',
    Instruction.destination?_withTarget_offset _ _ htarget, Option.some.injEq, hreach]
  split <;> simp [*]

/-- No word is wrong without a word about it.  A refused instruction says nothing; an encoded one
says so, after at most one warning, about its label.  There is no warning exactly if the word, read
back, leads to the label, and packing never warns. -/
theorem truncation_is_never_silent (instruction : Instruction) (rule : OffsetRule)
    (next : Address) (symbols : SymbolTable) :
    (∀ cause, (instruction.encode rule next symbols).run.value = .error cause →
      (instruction.encode rule next symbols).run.events = []) ∧
    (∀ encoded, (instruction.encode rule next symbols).run.value = .ok encoded →
      ∃ warnings : List Event,
        (instruction.encode rule next symbols).run.events =
          warnings ++ [.encoded instruction encoded] ∧
        (warnings = [] ∨
          ∃ label offset width, warnings = [.offsetTruncated label offset width]) ∧
        (instruction.label? = none → warnings = []) ∧
        ∀ name, instruction.label? = some name →
          ∃ address, symbols.find? name = some address ∧
            (warnings = [] ↔ ∃ decoded, decode encoded = .ok decoded ∧
              decoded.destination? next = some address)) ∧
    ∀ field value width, Event.valueTruncated field value width ∉
      (instruction.encode rule next symbols).run.events := by
  cases hnumber : Encoding.number rule next symbols instruction with
  | error cause =>
      have hevents := Encoding.events_encode_of_error hnumber
      refine ⟨fun _ _ => hevents, fun encoded hencode => ?_, by simp [hevents]⟩
      obtain ⟨value, hok, -⟩ := Encoding.value_encode_eq_ok_iff.mp hencode
      simp [hnumber] at hok
  | ok value =>
      have hevents := Encoding.events_encode_of_ok hnumber
      have hcases := instruction.warnings_cases value
      refine ⟨fun cause hencode => ?_, fun encoded hencode => ?_, ?_⟩
      · rw [Encoding.value_encode_eq_error_iff, hnumber] at hencode
        cases hencode
      · obtain ⟨_, hok, rfl⟩ := Encoding.value_encode_eq_ok_iff.mp hencode
        obtain rfl := Except.ok.inj (hnumber.symm.trans hok)
        refine ⟨instruction.warnings value, hevents, ?_, fun hnone => ?_, fun name hname => ?_⟩
        · rcases hcases with hsilent | ⟨label, width, -, hwarning⟩
          · exact .inl hsilent
          · exact .inr ⟨label, value, width, hwarning⟩
        · rcases hcases with hsilent | ⟨label, width, hsome, -⟩
          · exact hsilent
          · simp [hnone] at hsome
        · exact Encoding.warnings_eq_nil_iff hname hnumber
      · intro field lost width
        rw [hevents]
        rcases hcases with hsilent | ⟨label, width, -, hwarning⟩
        · simp [hsilent]
        · simp [hwarning]

/-- A branch to a label too far away: the distance 511 is kept as -1, which leads elsewhere. -/
theorem far_branch_is_warned_of :
    ((Instruction.branch ⟨true, true, true⟩ (.label "FAR")).encode .wrap 0x3001
        (Dictionary.ofList [("FAR", 0x3200)])).run.value = .ok 0x0FFF ∧
      ((Instruction.branch ⟨true, true, true⟩ (.label "FAR")).encode .wrap 0x3001
        (Dictionary.ofList [("FAR", 0x3200)])).run.events =
          [.offsetTruncated "FAR" 511 9,
            .encoded (.branch ⟨true, true, true⟩ (.label "FAR")) 0x0FFF] ∧
      ¬ ∃ decoded, decode 0x0FFF = .ok decoded ∧
        decoded.destination? 0x3001 = some 0x3200 := by
  have hencode : ((Instruction.branch ⟨true, true, true⟩ (.label "FAR")).encode .wrap 0x3001
      (Dictionary.ofList [("FAR", 0x3200)])).run.value = .ok 0x0FFF := by decide
  have hsaid : ((Instruction.branch ⟨true, true, true⟩ (.label "FAR")).encode .wrap 0x3001
      (Dictionary.ofList [("FAR", 0x3200)])).run.events =
        [.offsetTruncated "FAR" 511 9,
          .encoded (.branch ⟨true, true, true⟩ (.label "FAR")) 0x0FFF] := by decide
  obtain ⟨-, hencoded, -⟩ := truncation_is_never_silent
    (.branch ⟨true, true, true⟩ (.label "FAR")) .wrap 0x3001
    (Dictionary.ofList [("FAR", 0x3200)])
  obtain ⟨warnings, hevents, -, -, hlabel⟩ := hencoded _ hencode
  obtain ⟨address, hfind, hsilent⟩ := hlabel "FAR" rfl
  obtain rfl : address = 0x3200 := Option.some.inj (hfind.symm.trans (by decide))
  refine ⟨hencode, hsaid, fun hreach => ?_⟩
  rw [hsaid, hsilent.mpr hreach] at hevents
  simp at hevents

end LittleComputer
