import LittleComputer.Listing
import LittleComputer.Proofs.Instruction.Operands
import LittleComputer.Proofs.Symbols

/-!
Targets shown by label.  A numeric target gives way to the first label at the address it reaches;
nothing else of an instruction changes.  The way from that label back to a distance ends at the
number it started from, so the label is encoded to the same word, and a label that was encoded is
shown again, by the first of the names of its address.
-/
namespace LittleComputer

open Bits

namespace Instruction

theorem offset?_eq_some_iff {instruction : Instruction} {distance : Int16} :
    instruction.offset? = some distance ↔
      ∃ width, instruction.target? = some (.offset distance, width) := by
  rw [offset?]
  split
  · rename_i found width htarget
    simp [htarget]
  · rename_i hnone
    simp only [reduceCtorEq, false_iff, not_exists]
    exact hnone distance

theorem destination?_eq_some_iff {instruction : Instruction} {next address : Address} :
    instruction.destination? next = some address ↔
      ∃ distance width, instruction.target? = some (.offset distance, width) ∧
        next + distance.toBitVec = address := by
  simp only [destination?, Option.map_eq_some_iff, offset?_eq_some_iff]
  constructor
  · rintro ⟨distance, ⟨width, htarget⟩, haddress⟩
    exact ⟨distance, width, htarget, haddress⟩
  · rintro ⟨distance, width, htarget, haddress⟩
    exact ⟨distance, ⟨width, htarget⟩, haddress⟩

theorem withTarget_label_eq_self_iff {instruction : Instruction} {name other : String}
    {width : Nat} (htarget : instruction.target? = some (.label name, width)) :
    instruction.withTarget (.label other) = instruction ↔ other = name := by
  constructor
  · intro hsame
    have hother : (instruction.withTarget (.label other)).target? =
        some (.label other, width) := target?_withTarget htarget
    rw [hsame, htarget] at hother
    cases hother
    rfl
  · rintro rfl
    exact withTarget_self htarget

variable {instruction : Instruction} {next : Address} {symbols : SymbolTable}

/-- A target that reaches labels is shown by the first of them. -/
theorem symbolic_of_firstAt {address : Address} {name : String}
    (hdestination : instruction.destination? next = some address)
    (hfirst : symbols.FirstAt address name) :
    instruction.symbolic next symbols = instruction.withTarget (.label name) := by
  rw [symbolic, hdestination, Option.bind_some, SymbolTable.labelAt?_eq_some_iff.mpr hfirst]

/-- An instruction that reaches no label is shown as it is. -/
theorem symbolic_of_unlabelled
    (hnone : ∀ address name, instruction.destination? next = some address →
      symbols.find? name ≠ some address) :
    instruction.symbolic next symbols = instruction := by
  cases hshown : (instruction.destination? next).bind symbols.labelAt? with
  | none => rw [symbolic, hshown]
  | some name =>
      obtain ⟨address, hdestination, hlabel⟩ := Option.bind_eq_some_iff.mp hshown
      exact absurd (SymbolTable.find?_of_labelAt? hlabel) (hnone address name hdestination)

/-- A label operand is shown as it is. -/
theorem symbolic_of_label {name : String} (hlabel : instruction.label? = some name)
    (next : Address) (symbols : SymbolTable) :
    instruction.symbolic next symbols = instruction := by
  obtain ⟨width, htarget⟩ := label?_eq_some_iff.mp hlabel
  simp [symbolic, destination?, offset?, htarget]

/-- What an instruction is shown as: itself, or with the first label at the address it reaches. -/
theorem symbolic_cases (instruction : Instruction) (next : Address) (symbols : SymbolTable) :
    instruction.symbolic next symbols = instruction ∨
      ∃ distance width name, instruction.target? = some (.offset distance, width) ∧
        symbols.FirstAt (next + distance.toBitVec) name ∧
        instruction.symbolic next symbols = instruction.withTarget (.label name) := by
  cases hshown : (instruction.destination? next).bind symbols.labelAt? with
  | none => exact .inl (by rw [symbolic, hshown])
  | some name =>
      obtain ⟨address, hdestination, hlabel⟩ := Option.bind_eq_some_iff.mp hshown
      obtain ⟨distance, width, htarget, rfl⟩ := destination?_eq_some_iff.mp hdestination
      have hfirst := SymbolTable.labelAt?_eq_some_iff.mp hlabel
      exact .inr ⟨distance, width, name, htarget, hfirst,
        symbolic_of_firstAt hdestination hfirst⟩

/-- Showing an instruction twice is showing it once. -/
theorem symbolic_symbolic (instruction : Instruction) (next : Address)
    (symbols : SymbolTable) :
    (instruction.symbolic next symbols).symbolic next symbols =
      instruction.symbolic next symbols := by
  rcases symbolic_cases instruction next symbols with
    hsame | ⟨distance, width, name, htarget, -, hshown⟩
  · rw [hsame, hsame]
  · have hlabel : (instruction.withTarget (.label name)).label? = some name :=
      label?_eq_some_iff.mpr ⟨width, target?_withTarget htarget⟩
    rw [hshown, symbolic_of_label hlabel]

end Instruction

namespace Encoding

/-- An instruction with another target has the same word for the same number. -/
theorem word_withTarget (number : Int) (instruction : Instruction) (target : Target) :
    word number (instruction.withTarget target) = word number instruction := by
  rcases instruction with _ | _ | _ | (_ | _) | _ | _ | _ <;> rfl

variable {rule : OffsetRule} {next : Address} {symbols : SymbolTable}
variable {instruction : Instruction}

/-- A label at the address that a distance reaches counts as that distance. -/
theorem number_withTarget_label {offset : Int16} {width : Nat} {name : String}
    (htarget : instruction.target? = some (.offset offset, width))
    (hfind : symbols.find? name = some (next + offset.toBitVec)) :
    number rule next symbols (instruction.withTarget (.label name)) =
      if fits offset.toInt width = true ∨ rule = .wrap then .ok offset.toInt
      else .error (.offsetOutOfRange name offset.toInt width) := by
  rw [number_of_target (Instruction.target?_withTarget htarget), Encoding.offset, hfind]
  simp only [distance_add]

theorem number_symbolic_of_ok {value : Int}
    (hnumber : number rule next symbols instruction = .ok value) :
    number rule next symbols (instruction.symbolic next symbols) = .ok value := by
  rcases instruction.symbolic_cases next symbols with
    hsame | ⟨distance, width, name, htarget, hfirst, hshown⟩
  · rwa [hsame]
  · rw [number_of_target htarget] at hnumber
    obtain ⟨rfl, hfits⟩ := checked_eq_ok hnumber
    rw [hshown, number_withTarget_label htarget hfirst.stands, if_pos (.inl hfits)]

/-- Under the strict rule a label is refused where the distance in its place is. -/
theorem number_of_symbolic {value : Int}
    (hnumber : number .strict next symbols (instruction.symbolic next symbols) = .ok value) :
    number .strict next symbols instruction = .ok value := by
  rcases instruction.symbolic_cases next symbols with
    hsame | ⟨distance, width, name, htarget, hfirst, hshown⟩
  · rwa [hsame] at hnumber
  · rw [hshown, number_withTarget_label htarget hfirst.stands] at hnumber
    split at hnumber
    · rename_i hreach
      have hfits : fits distance.toInt width = true := by simpa using hreach
      rw [number_of_target htarget, Encoding.offset, checked, if_pos hfits]
      exact hnumber
    · cases hnumber

theorem word_symbolic (number : Int) (instruction : Instruction) (next : Address)
    (symbols : SymbolTable) :
    word number (instruction.symbolic next symbols) = word number instruction := by
  rw [Instruction.symbolic]
  split
  · exact word_withTarget number instruction _
  · rfl

/-- An instruction that has a word has it in symbols, too. -/
theorem encode_symbolic_of_ok {encoded : Word}
    (hencode : (instruction.encode rule next symbols).run.value = .ok encoded) :
    ((instruction.symbolic next symbols).encode rule next symbols).run.value =
      .ok encoded := by
  obtain ⟨value, hnumber, hword⟩ := value_encode_eq_ok_iff.mp hencode
  refine value_encode_eq_ok_iff.mpr ⟨value, number_symbolic_of_ok hnumber, ?_⟩
  rw [word_symbolic, hword]

theorem encode_of_symbolic {encoded : Word}
    (hencode : ((instruction.symbolic next symbols).encode .strict next symbols).run.value =
      .ok encoded) :
    (instruction.encode .strict next symbols).run.value = .ok encoded := by
  obtain ⟨value, hnumber, hword⟩ := value_encode_eq_ok_iff.mp hencode
  rw [word_symbolic] at hword
  exact value_encode_eq_ok_iff.mpr ⟨value, number_of_symbolic hnumber, hword⟩

end Encoding

/-- Showing targets by label does not change what an instruction means.  Under the strict rule it
has a word exactly if it had one, and the same; where offsets wrap it keeps the word it had.  A
numeric target that reaches labels becomes the first of them, the number put back restores the
instruction, nothing else is changed, and the second time nothing at all. -/
theorem symbols_keep_the_meaning (instruction : Instruction) (next : Address)
    (symbols : SymbolTable) :
    (∀ encoded,
      ((instruction.symbolic next symbols).encode .strict next symbols).run.value =
          .ok encoded ↔
        (instruction.encode .strict next symbols).run.value = .ok encoded) ∧
    (∀ encoded, (instruction.encode .wrap next symbols).run.value = .ok encoded →
      ((instruction.symbolic next symbols).encode .wrap next symbols).run.value =
        .ok encoded) ∧
    (∀ distance width, instruction.target? = some (.offset distance, width) →
      ∀ name, symbols.find? name = some (next + distance.toBitVec) →
        ∃ first, symbols.FirstAt (next + distance.toBitVec) first ∧
          instruction.symbolic next symbols = instruction.withTarget (.label first) ∧
          (instruction.symbolic next symbols).target? = some (.label first, width) ∧
          (instruction.symbolic next symbols).withTarget (.offset distance) = instruction) ∧
    ((∀ distance width, instruction.target? = some (.offset distance, width) →
        ∀ name, symbols.find? name ≠ some (next + distance.toBitVec)) →
      instruction.symbolic next symbols = instruction) ∧
    (instruction.symbolic next symbols).symbolic next symbols =
      instruction.symbolic next symbols := by
  refine ⟨?_, ?_, ?_, ?_, instruction.symbolic_symbolic next symbols⟩
  · intro encoded
    exact ⟨Encoding.encode_of_symbolic, Encoding.encode_symbolic_of_ok⟩
  · intro encoded hencode
    exact Encoding.encode_symbolic_of_ok hencode
  · intro distance width htarget name hfind
    obtain ⟨first, hfirst⟩ := SymbolTable.exists_firstAt hfind
    have hshown := Instruction.symbolic_of_firstAt
      (Instruction.destination?_eq_some_iff.mpr ⟨distance, width, htarget, rfl⟩) hfirst
    refine ⟨first, hfirst, hshown, ?_, ?_⟩
    · rw [hshown, Instruction.target?_withTarget htarget]
    · rw [hshown, Instruction.withTarget_withTarget, Instruction.withTarget_self htarget]
  · intro hnone
    apply Instruction.symbolic_of_unlabelled
    intro address name hdestination
    obtain ⟨distance, width, htarget, rfl⟩ :=
      Instruction.destination?_eq_some_iff.mp hdestination
    exact hnone distance width htarget name

/-- An offset that its field cannot hold has no word under either rule.  The label at the address it
reaches has one, cut down, where offsets wrap. -/
theorem wide_offset_is_shown_by_its_label :
    (Instruction.branch ⟨true, true, true⟩ (.offset 511)).symbolic 0x3001
        (Dictionary.ofList [("FAR", 0x3200)]) =
      .branch ⟨true, true, true⟩ (.label "FAR") ∧
    (∀ encoded, ((Instruction.branch ⟨true, true, true⟩ (.label "FAR")).encode .strict 0x3001
      (Dictionary.ofList [("FAR", 0x3200)])).run.value ≠ .ok encoded) ∧
    ((Instruction.branch ⟨true, true, true⟩ (.offset 511)).encode .wrap 0x3001
      (Dictionary.ofList [("FAR", 0x3200)])).run.value =
        .error (.fieldOutOfRange "offset" 511 9) ∧
    ((Instruction.branch ⟨true, true, true⟩ (.label "FAR")).encode .wrap 0x3001
      (Dictionary.ofList [("FAR", 0x3200)])).run.value = .ok 0x0FFF := by
  obtain ⟨hstrict, -, hlabelled, -, -⟩ := symbols_keep_the_meaning
    (.branch ⟨true, true, true⟩ (.offset 511)) 0x3001 (Dictionary.ofList [("FAR", 0x3200)])
  obtain ⟨first, hfirst, hshown, -⟩ := hlabelled 511 9 rfl "FAR" (by decide)
  have hfar : SymbolTable.FirstAt (Dictionary.ofList [("FAR", 0x3200)]) 0x3200 "FAR" :=
    SymbolTable.firstAt_of_labelAt? (by decide)
  obtain rfl := hfirst.unique hfar
  refine ⟨hshown, fun encoded hencode => ?_, by decide, by decide⟩
  rw [hshown] at hstrict
  have hnumeric := (hstrict encoded).mp hencode
  have hrefused : ((Instruction.branch ⟨true, true, true⟩ (.offset 511)).encode .strict 0x3001
      (Dictionary.ofList [("FAR", 0x3200)])).run.value =
        .error (.fieldOutOfRange "offset" 511 9) := by decide
  rw [hrefused] at hnumeric
  cases hnumeric

/-- Showing targets by label undoes the resolution of labels.  What a label operand was encoded to
is shown with the first name of the label's address, and so with the label itself unless a smaller
name stands there. -/
theorem symbols_undo_resolution (instruction : Instruction) (name : String) (next : Address)
    (symbols : SymbolTable) (encoded : Word) (hlabel : instruction.label? = some name)
    (hencode : (instruction.encode .strict next symbols).run.value = .ok encoded) :
    ∃ address decoded first, symbols.find? name = some address ∧
      decode encoded = .ok decoded ∧ symbols.FirstAt address first ∧
      decoded.symbolic next symbols = instruction.withTarget (.label first) ∧
      (decoded.symbolic next symbols = instruction ↔
        ∀ other, Text.Before other name → symbols.find? other ≠ some address) := by
  obtain ⟨width, htarget⟩ := Instruction.label?_eq_some_iff.mp hlabel
  obtain ⟨address, decoded, hfind, hdecode, hdestination, hsource⟩ :=
    Encoding.destination?_of_encode_strict hencode htarget
  obtain ⟨first, hfirst⟩ := SymbolTable.exists_firstAt hfind
  have hshown : decoded.symbolic next symbols = instruction.withTarget (.label first) := by
    rw [Instruction.symbolic_of_firstAt hdestination hfirst, ← hsource,
      Instruction.withTarget_withTarget]
  refine ⟨address, decoded, first, hfind, hdecode, hfirst, hshown, ?_⟩
  rw [hshown, Instruction.withTarget_label_eq_self_iff htarget, hfirst.eq_iff hfind]

/-- Of two names at one address the smaller is shown, though the other was written. -/
theorem smaller_name_is_shown :
    (Instruction.branch ⟨true, false, false⟩ (.label "LOOP")).label? = some "LOOP" ∧
      ((Instruction.branch ⟨true, false, false⟩ (.label "LOOP")).encode .strict 0x0001
        (Dictionary.ofList [("LOOP", 0xFFFE), ("LAST", 0xFFFE)])).run.value = .ok 0x09FD ∧
      ∃ decoded, decode 0x09FD = .ok decoded ∧
        decoded.symbolic 0x0001 (Dictionary.ofList [("LOOP", 0xFFFE), ("LAST", 0xFFFE)]) =
          .branch ⟨true, false, false⟩ (.label "LAST") := by
  have hencode : ((Instruction.branch ⟨true, false, false⟩ (.label "LOOP")).encode .strict
      0x0001 (Dictionary.ofList [("LOOP", 0xFFFE), ("LAST", 0xFFFE)])).run.value =
        .ok 0x09FD := by decide
  obtain ⟨address, decoded, first, hfind, hdecode, hfirst, hshown, -⟩ :=
    symbols_undo_resolution _ "LOOP" _ _ _ rfl hencode
  obtain rfl : address = 0xFFFE := Option.some.inj (hfind.symm.trans (by decide))
  have hlast : SymbolTable.FirstAt (Dictionary.ofList [("LOOP", 0xFFFE), ("LAST", 0xFFFE)])
      0xFFFE "LAST" := SymbolTable.firstAt_of_labelAt? (by decide)
  obtain rfl := hfirst.unique hlast
  exact ⟨rfl, hencode, decoded, hdecode, hshown⟩

end LittleComputer
