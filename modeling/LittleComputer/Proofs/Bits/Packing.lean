import LittleComputer.Proofs.Bits.Fields
import LittleComputer.Proofs.Bits.Truncation
import Mathlib.Data.Int.Bitwise

/-!
What packing does to a word, bit by bit, whatever the fields are.  It sets the bits of each value,
in two's complement, inside its field and no others.  So the order of the fields does not matter,
and the high bits of a value that does not fit are lost and get into no other field.
-/
namespace LittleComputer.Bits

theorem getLsbD_ofInt (width : Nat) (value : Int) (index : Nat) :
    (BitVec.ofInt width value).getLsbD index =
      (decide (index < width) && value.testBit index) := by
  cases value with
  | ofNat number =>
      rw [Int.ofNat_eq_natCast, BitVec.ofInt_natCast, BitVec.getLsbD_ofNat]
      rfl
  | negSucc number =>
      rw [BitVec.ofInt_negSucc_eq_not_ofNat, BitVec.getLsbD_not, BitVec.getLsbD_ofNat]
      by_cases hindex : index < width <;> simp [hindex, Int.testBit]

/-- The bits of a placed value are those of the value, moved up into the field. -/
theorem getLsbD_place_eq_spans {field : BitField} (value : Int) (hlt : field.high < 16)
    (index : Nat) :
    (field.place value).getLsbD index =
      (field.spans index && value.testBit (index - field.low)) := by
  rw [getLsbD_place, getLsbD_ofInt, BitField.spans, BitField.width]
  by_cases hlow : field.low ≤ index
  · by_cases hhigh : index ≤ field.high
    · have hindex : index < 16 := by omega
      have hmoved : index - field.low < field.high + 1 - field.low := by omega
      simp [hlow, hhigh, hindex, hmoved]
    · have houtside : ¬ index - field.low < field.high + 1 - field.low := by omega
      simp [hhigh, houtside]
  · simp [hlow]

theorem BitField.spans_iff {field : BitField} {index : Nat} :
    field.spans index = true ↔ field.low ≤ index ∧ index ≤ field.high := by
  rw [BitField.spans, Bool.and_eq_true, decide_eq_true_iff, decide_eq_true_iff]

/-- A bit is set after packing if it was set before, or if a value sets it inside its field. -/
theorem getLsbD_pack_iff {entries : List (BitField × Int)} (word : Word)
    (hinside : ∀ entry ∈ entries, entry.1.high < 16) (index : Nat) :
    (pack word entries).value.getLsbD index = true ↔
      word.getLsbD index = true ∨ ∃ field value, (field, value) ∈ entries ∧
        field.low ≤ index ∧ index ≤ field.high ∧ value.testBit (index - field.low) = true := by
  rw [getLsbD_pack, Bool.or_eq_true, List.any_eq_true, Prod.exists]
  refine or_congr_right (exists_congr fun field => exists_congr fun value =>
    and_congr_right fun hentry => ?_)
  rw [getLsbD_place_eq_spans value (hinside _ hentry), Bool.and_eq_true, BitField.spans_iff,
    and_assoc]

theorem getLsbD_pack_of_outside {entries : List (BitField × Int)} (word : Word)
    (hinside : ∀ entry ∈ entries, entry.1.high < 16) {index : Nat}
    (houtside : ∀ entry ∈ entries, ¬ (entry.1.low ≤ index ∧ index ≤ entry.1.high)) :
    (pack word entries).value.getLsbD index = word.getLsbD index := by
  rw [Bool.eq_iff_iff, getLsbD_pack_iff word hinside]
  constructor
  · rintro (hword | ⟨field, value, hentry, hlow, hhigh, -⟩)
    · exact hword
    · exact absurd ⟨hlow, hhigh⟩ (houtside _ hentry)
  · exact .inl

theorem value_pack_eq_of_perm {entries entries' : List (BitField × Int)}
    (hperm : entries'.Perm entries) (word : Word) :
    (pack word entries').value = (pack word entries).value := by
  apply BitVec.eq_of_getLsbD_eq
  intro index _
  rw [getLsbD_pack, getLsbD_pack, hperm.any_eq]

theorem extract_eq_zero_of_unset {field : BitField} {word : Word} (hle : field.low ≤ field.high)
    (hunset : ∀ index, field.low ≤ index → index ≤ field.high → word.getLsbD index = false) :
    extract word field.low field.high = 0#16 := by
  apply BitVec.eq_of_getLsbD_eq
  intro index _
  rw [getLsbD_extract, BitVec.getLsbD_zero]
  by_cases hinside : index ≤ field.high - field.low
  · rw [hunset (field.low + index) (by omega) (by omega), Bool.and_false]
  · simp [hinside]

/-- The ranges of a field with and without sign overlap, so that together they are one range. -/
theorem BitField.holds_iff {field : BitField} {value : Int} (hwidth : field.width ≤ 32) :
    field.holds value = true ↔
      -2 ^ (field.width - 1) ≤ value ∧ value ≤ 2 ^ field.width - 1 := by
  have hhalf : (2 : Int) ^ (field.width - 1) ≤ 2 ^ field.width :=
    pow_le_pow_right₀ (by decide) (Nat.sub_le _ _)
  have hpos : (0 : Int) < 2 ^ (field.width - 1) := by positivity
  simp only [BitField.holds, Bool.or_eq_true, fits_iff hwidth, Bool.and_eq_true, decide_eq_true_eq,
    Nat.one_shiftLeft, Nat.cast_pow, Nat.cast_ofNat]
  omega

/-- Packing meets no fault if no field is inverted. -/
theorem packUntilFault_eq {entries : List (BitField × Int)} (word : Word)
    (hle : ∀ entry ∈ entries, entry.1.low ≤ entry.1.high) :
    packUntilFault word entries =
      ⟨.ok (pack word entries).value, (pack word entries).events⟩ := by
  induction entries generalizing word with
  | nil => rfl
  | cons head rest ih =>
      rw [List.forall_mem_cons] at hle
      have hfield : ¬ head.1.high < head.1.low := Nat.not_lt.mpr hle.1
      simp only [packUntilFault, pack, if_neg hfield, bind, Logged.andThen, ih _ hle.2]

theorem checked_pack {fields : List BitField} {values : List Int} (word : Word)
    (hle : ∀ field ∈ fields, field.low ≤ field.high) (hlength : values.length = fields.length) :
    Checked.pack fields word values =
      ⟨.ok (pack word (fields.zip values)).value, (pack word (fields.zip values)).events⟩ := by
  rw [Checked.pack, if_neg (not_not_intro hlength)]
  exact packUntilFault_eq word fun entry hentry => hle entry.1 (List.of_mem_zip hentry).1

/-- The fields of a reordered packing are those of the first one. -/
theorem mem_of_zip_perm {fields fields' : List BitField} {values values' : List Int}
    (hlength : values'.length = fields'.length)
    (hperm : (fields'.zip values').Perm (fields.zip values)) {field : BitField}
    (hmem : field ∈ fields') : field ∈ fields := by
  rw [← List.map_fst_zip hlength.ge, List.mem_map] at hmem
  obtain ⟨entry, hentry, rfl⟩ := hmem
  exact (List.of_mem_zip (hperm.mem_iff.mp hentry)).1

/-- Packing places the fields and nothing else.  A bit is set in the result if it is set in the word
already or in a value whose field has it.  So the result does not depend on the order of the fields,
and bits outside of them stay as they are.  Fields without a common bit hold their values' residues
where the word was empty.  The values outside the range of their fields, and no others, are reported
in order. -/
theorem packing_places_fields_and_nothing_else {fields : List BitField} {values : List Int}
    (initial : Word) (hinside : ∀ field ∈ fields, field.low ≤ field.high ∧ field.high ≤ 15)
    (hlength : values.length = fields.length) :
    ∃ result, (Checked.pack fields initial values).value = .ok result ∧
      (∀ index, result.getLsbD index = true ↔
        initial.getLsbD index = true ∨ ∃ field value, (field, value) ∈ fields.zip values ∧
          field.low ≤ index ∧ index ≤ field.high ∧
            value.testBit (index - field.low) = true) ∧
      (∀ fields' values', values'.length = fields'.length →
        (fields'.zip values').Perm (fields.zip values) →
          (Checked.pack fields' initial values').value = .ok result) ∧
      (∀ index, (∀ field ∈ fields, ¬ (field.low ≤ index ∧ index ≤ field.high)) →
        result.getLsbD index = initial.getLsbD index) ∧
      (fields.Pairwise BitField.Apart →
        (∀ field ∈ fields, ∀ index, field.low ≤ index → index ≤ field.high →
          initial.getLsbD index = false) →
        ∀ field value, (field, value) ∈ fields.zip values →
          ∃ bits, Checked.extract result field.low field.high = .ok bits ∧
            (bits.toNat : Int) = value % 2 ^ field.width) ∧
      (Checked.pack fields initial values).events =
        ((fields.zip values).filter fun entry =>
          ¬ (-2 ^ (entry.1.width - 1) ≤ entry.2 ∧ entry.2 ≤ 2 ^ entry.1.width - 1)).map
            fun entry => .valueTruncated entry.1.name entry.2 entry.1.width := by
  have hle : ∀ field ∈ fields, field.low ≤ field.high := fun field hfield =>
    (hinside field hfield).1
  have hfields : (fields.zip values).map Prod.fst = fields := List.map_fst_zip hlength.ge
  have hentries : ∀ entry ∈ fields.zip values, entry.1 ∈ fields := fun entry hentry =>
    (List.of_mem_zip hentry).1
  have hlt : ∀ entry ∈ fields.zip values, entry.1.high < 16 := fun entry hentry =>
    Nat.lt_succ_of_le (hinside _ (hentries entry hentry)).2
  rw [checked_pack initial hle hlength]
  refine ⟨_, rfl, getLsbD_pack_iff initial hlt, ?_, ?_, ?_, ?_⟩
  · intro fields' values' hlength' hperm
    -- The reordered fields are the same ones, so they are not inverted either.
    have hle' : ∀ field ∈ fields', field.low ≤ field.high := fun field hfield =>
      hle field (mem_of_zip_perm hlength' hperm hfield)
    rw [checked_pack initial hle' hlength', value_pack_eq_of_perm hperm]
  · intro index houtside
    exact getLsbD_pack_of_outside initial hlt fun entry hentry =>
      houtside entry.1 (hentries entry hentry)
  · intro hpairs hunset field value hmem
    have hfield : field ∈ fields := hentries _ hmem
    have hlayout : IsLayout ((fields.zip values).map Prod.fst) := by
      rw [hfields]
      exact ⟨fun other hother => ⟨hle other hother, Nat.lt_succ_of_le (hinside other hother).2⟩,
        hpairs⟩
    have hholds : field.Holds (pack initial (fields.zip values)).value value :=
      holds_pack initial hlayout (fun entry hentry =>
        extract_eq_zero_of_unset (hle _ (hentries entry hentry))
          (hunset _ (hentries entry hentry))) hmem
    exact ⟨_, checked_extract _ (hle field hfield) (hlt _ hmem), hholds.toNat_extract (hlt _ hmem)⟩
  · rw [events_pack]
    congr 1
    apply List.filter_congr
    intro entry hentry
    have hwidth : entry.1.width ≤ 32 := by
      have hhigh := hlt entry hentry
      rw [BitField.width]
      omega
    rw [Bool.eq_iff_iff, Bool.not_eq_true', Bool.eq_false_iff, ne_eq, BitField.holds_iff hwidth,
      decide_eq_true_iff]

/-- A flag and an offset out of range are reported in the order of their fields, and their high bits
get into neither of them.  The other order gives the same word. -/
theorem oversized_values_stay_in_their_fields :
    let fields : List BitField := [⟨"n", 11, 11⟩, ⟨"offset", 0, 8⟩]
    let values : List Int := [3, -257]
    ∃ result, (Checked.pack fields 0x6000#16 values).value = .ok result ∧
      (Checked.pack fields.reverse 0x6000#16 values.reverse).value = .ok result ∧
      (∃ bits, Checked.extract result 0 8 = .ok bits ∧ (bits.toNat : Int) = 255) ∧
      (Checked.pack fields 0x6000#16 values).events =
        [.valueTruncated "n" 3 1, .valueTruncated "offset" (-257) 9] := by
  intro fields values
  obtain ⟨result, hresult, -, horder, -, hheld, hevents⟩ :=
    @packing_places_fields_and_nothing_else fields values 0x6000#16 (by decide) rfl
  have hunset : ∀ field ∈ fields, ∀ index, field.low ≤ index → index ≤ field.high →
      (0x6000#16).getLsbD index = false := by
    have hbits : ∀ field ∈ fields, ∀ index ≤ field.high, field.low ≤ index →
        (0x6000#16).getLsbD index = false := by decide
    intro field hfield index hlow hhigh
    exact hbits field hfield index hhigh hlow
  obtain ⟨bits, hbits, hvalue⟩ :=
    hheld (by decide) hunset ⟨"offset", 0, 8⟩ (-257) (by decide)
  exact ⟨result, hresult, horder _ _ rfl (by decide), ⟨bits, hbits, hvalue.trans (by decide)⟩,
    hevents.trans (by decide)⟩

end LittleComputer.Bits
