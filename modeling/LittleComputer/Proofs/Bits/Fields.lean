import LittleComputer.Proofs.Bits.Ranges

/-!
Putting fields into words.  Cutting a range out of a placed field gives back the field's value if
the range is the field's own, and nothing if the two have no bit in common.
-/
namespace LittleComputer.Bits

theorem getLsbD_place (field : BitField) (value : Int) (index : Nat) :
    (field.place value).getLsbD index =
      (decide (field.low ≤ index) && decide (index < 16) &&
        (BitVec.ofInt field.width value).getLsbD (index - field.low)) := by
  simp only [BitField.place, BitVec.getLsbD_shiftLeft, BitVec.getLsbD_setWidth]
  by_cases hlow : field.low ≤ index
  · by_cases hindex : index < 16
    · have hmoved : index - field.low < 16 := by omega
      simp [hlow, hindex, hmoved]
    · simp [hindex]
  · have hlt : index < field.low := Nat.lt_of_not_le hlow
    simp [hlow, hlt]

/-- A field of a word holds the low bits of `value`. -/
def BitField.Holds (field : BitField) (word : Word) (value : Int) : Prop :=
  extract word field.low field.high =
    (BitVec.ofInt field.width value).setWidth 16

theorem holds_place {field : BitField} (value : Int)
    (hle : field.low ≤ field.high) (hlt : field.high < 16) :
    field.Holds (field.place value) value := by
  apply BitVec.eq_of_getLsbD_eq
  intro index hindex
  rw [getLsbD_extract, getLsbD_place, BitVec.getLsbD_setWidth,
    Nat.add_sub_cancel_left, BitField.width]
  by_cases hinside : index ≤ field.high - field.low
  · have hword : field.low + index < 16 := by omega
    simp [hinside, hword, hindex]
  · have houtside : field.high + 1 - field.low ≤ index := by omega
    simp [hinside, BitVec.getLsbD_of_ge _ _ houtside]

/-- Fields without a common bit. -/
def BitField.Apart (a b : BitField) : Prop :=
  a.high < b.low ∨ b.high < a.low

instance (a b : BitField) : Decidable (a.Apart b) :=
  inferInstanceAs (Decidable (_ ∨ _))

theorem BitField.Apart.symm {a b : BitField} (h : a.Apart b) : b.Apart a :=
  Or.symm h

/-- A placed field leaves every field apart from it empty. -/
theorem extract_place_of_apart {field other : BitField} (value : Int)
    (hle : other.low ≤ other.high) (happart : field.Apart other) :
    extract (field.place value) other.low other.high = 0#16 := by
  apply BitVec.eq_of_getLsbD_eq
  intro index _
  rw [getLsbD_extract, getLsbD_place, BitVec.getLsbD_zero, BitField.width]
  by_cases hinside : index ≤ other.high - other.low
  · rcases happart with hbelow | habove
    · have houtside :
          field.high + 1 - field.low ≤ other.low + index - field.low := by
        omega
      simp [BitVec.getLsbD_of_ge _ _ houtside]
    · have hlow : ¬ field.low ≤ other.low + index := by omega
      simp [hlow]
  · simp [hinside]

theorem extract_or_place_of_apart {field other : BitField} (word : Word) (placed : Int)
    (hle : field.low ≤ field.high) (hapart : other.Apart field) :
    extract (word ||| other.place placed) field.low field.high =
      extract word field.low field.high := by
  rw [extract_or, extract_place_of_apart placed hle hapart, BitVec.or_zero]

theorem holds_of_toNat_extract {field : BitField} {word : Word} {value : Int}
    (hlt : field.high < 16)
    (hbits : ((extract word field.low field.high).toNat : Int) =
      value % ((2 ^ field.width : Nat) : Int)) : field.Holds word value := by
  apply BitVec.eq_of_toNat_eq
  have hwidth : field.width ≤ 16 := by
    rw [BitField.width]
    omega
  rw [BitVec.toNat_setWidth_of_le hwidth, BitVec.toNat_ofInt, ← hbits, Int.toNat_natCast]

theorem BitField.Holds.toNat_extract {field : BitField} {word : Word} {value : Int}
    (hholds : field.Holds word value) (hlt : field.high < 16) :
    ((extract word field.low field.high).toNat : Int) = value % 2 ^ field.width := by
  have hwidth : field.width ≤ 16 := by
    rw [BitField.width]
    omega
  rw [hholds, BitVec.toNat_setWidth_of_le hwidth, BitVec.toNat_ofInt,
    Int.toNat_of_nonneg (Int.emod_nonneg _ (by norm_num))]
  norm_cast

/-- A field keeps what it holds when another field apart from it is put over the word. -/
theorem BitField.Holds.or_place {field other : BitField} {word : Word} {value : Int}
    (hholds : field.Holds word value) (placed : Int) (hle : field.low ≤ field.high)
    (hapart : other.Apart field) : field.Holds (word ||| other.place placed) value := by
  rw [BitField.Holds, extract_or_place_of_apart word placed hle hapart]
  exact hholds

/-- Fields that lie inside a word, no two of them with a common bit. -/
def IsLayout (fields : List BitField) : Prop :=
  (∀ field ∈ fields, field.low ≤ field.high ∧ field.high < 16) ∧
    fields.Pairwise BitField.Apart

instance (fields : List BitField) : Decidable (IsLayout fields) :=
  inferInstanceAs (Decidable (_ ∧ _))

theorem place_zero (field : BitField) : field.place 0 = 0#16 := by
  simp [BitField.place]

theorem value_pack_nil (word : Word) : (pack word []).value = word := rfl

/-- Packing puts the fields over the word one after the other, whatever it reports. -/
theorem value_pack_cons (word : Word) (field : BitField) (value : Int)
    (rest : List (BitField × Int)) :
    (pack word ((field, value) :: rest)).value =
      (pack (word ||| field.place value) rest).value := by
  simp only [pack, Logged.value_bind, BitField.put]
  split <;> rfl

theorem events_pack_cons (word : Word) (field : BitField) (value : Int)
    (rest : List (BitField × Int)) :
    (pack word ((field, value) :: rest)).events =
      (if field.holds value then [] else [.valueTruncated field.name value field.width]) ++
        (pack (word ||| field.place value) rest).events := by
  cases hholds : field.holds value <;>
    simp [pack, BitField.put, hholds, Logged.emit]

/-- Packing reports the values that lose bits, in the order of their fields. -/
theorem events_pack (word : Word) (entries : List (BitField × Int)) :
    (pack word entries).events =
      (entries.filter fun entry => !entry.1.holds entry.2).map fun entry =>
        .valueTruncated entry.1.name entry.2 entry.1.width := by
  induction entries generalizing word with
  | nil => rfl
  | cons head rest ih =>
      rw [events_pack_cons, ih, List.filter_cons]
      cases head.1.holds head.2 <;> simp

theorem extract_pack_of_apart {field : BitField} {entries : List (BitField × Int)}
    (word : Word) (hle : field.low ≤ field.high)
    (happart : ∀ entry ∈ entries, entry.1.Apart field) :
    extract (pack word entries).value field.low field.high =
      extract word field.low field.high := by
  induction entries generalizing word with
  | nil => rfl
  | cons head rest ih =>
      obtain ⟨hhead, hrest⟩ := List.forall_mem_cons.mp happart
      rw [value_pack_cons, ih _ hrest, extract_or_place_of_apart word head.2 hle hhead]

/-- The first field of a layout leaves the others as they are. -/
theorem IsLayout.extract_or_place {head : BitField × Int} {rest : List (BitField × Int)}
    (hlayout : IsLayout ((head :: rest).map Prod.fst)) (word : Word) :
    ∀ entry ∈ rest, extract (word ||| head.1.place head.2) entry.1.low entry.1.high =
      extract word entry.1.low entry.1.high := by
  intro entry hentry
  obtain ⟨hinside, hpairs⟩ := hlayout
  have hmem : entry.1 ∈ rest.map Prod.fst := List.mem_map_of_mem hentry
  rw [List.map_cons, List.forall_mem_cons] at hinside
  rw [List.map_cons, List.pairwise_cons] at hpairs
  exact extract_or_place_of_apart word head.2 (hinside.2 _ hmem).1 (hpairs.1 _ hmem)

/-- Packing disjoint fields over a word that is empty there gives each field its value. -/
theorem holds_pack {entries : List (BitField × Int)} (word : Word)
    (hlayout : IsLayout (entries.map Prod.fst))
    (hempty : ∀ entry ∈ entries, extract word entry.1.low entry.1.high = 0#16)
    {field : BitField} {value : Int} (hmem : (field, value) ∈ entries) :
    field.Holds (pack word entries).value value := by
  induction entries generalizing word with
  | nil => simp at hmem
  | cons head rest ih =>
      have hkept := hlayout.extract_or_place word
      obtain ⟨hinside, hpairs⟩ := hlayout
      rw [List.map_cons, List.forall_mem_cons] at hinside
      rw [List.map_cons, List.pairwise_cons] at hpairs
      rcases List.mem_cons.mp hmem with heq | hrest
      · subst heq
        have hapart : ∀ entry ∈ rest, entry.1.Apart field := by
          intro entry hentry
          exact (hpairs.1 entry.1 (List.mem_map_of_mem hentry)).symm
        rw [BitField.Holds, value_pack_cons, extract_pack_of_apart _ hinside.1.1 hapart,
          extract_or, hempty _ hmem, BitVec.zero_or]
        exact holds_place value hinside.1.1 hinside.1.2
      · rw [value_pack_cons]
        refine ih _ ⟨hinside.2, hpairs.2⟩ (fun entry hentry => ?_) hrest
        rw [hkept entry hentry]
        exact hempty entry (List.mem_cons_of_mem head hentry)

def BitField.spans (field : BitField) (index : Nat) : Bool :=
  field.low ≤ index && index ≤ field.high

/-- Packing adds the bits of the placed fields to those that are set already. -/
theorem getLsbD_pack (word : Word) (entries : List (BitField × Int)) (index : Nat) :
    (pack word entries).value.getLsbD index =
      (word.getLsbD index ||
        entries.any fun entry => (entry.1.place entry.2).getLsbD index) := by
  induction entries generalizing word with
  | nil => simp [value_pack_nil]
  | cons head rest ih =>
      rw [value_pack_cons, ih, BitVec.getLsbD_or, List.any_cons, Bool.or_assoc]

/-- Placing what a field of a word holds gives the word's bits in that field and no others. -/
theorem getLsbD_place_of_holds {field : BitField} {word : Word} {value : Int}
    (hlt : field.high < 16) (hholds : field.Holds word value) (index : Nat) :
    (field.place value).getLsbD index =
      (field.spans index && word.getLsbD index) := by
  rw [getLsbD_place, BitField.spans]
  by_cases hlow : field.low ≤ index
  · have hbit := congrArg (BitVec.getLsbD · (index - field.low)) hholds
    simp only [getLsbD_extract, BitVec.getLsbD_setWidth, Nat.add_sub_cancel' hlow] at hbit
    by_cases hhigh : index ≤ field.high
    · have hmoved : index - field.low ≤ field.high - field.low := by omega
      have hindex : index < 16 := by omega
      have hsmall : index - field.low < 16 := by omega
      simpa [hlow, hhigh, hindex, hmoved, hsmall] using hbit.symm
    · have houtside : field.width ≤ index - field.low := by
        rw [BitField.width]
        omega
      simp [hhigh, BitVec.getLsbD_of_ge _ _ houtside]
  · simp [hlow]

/-- Packing what the fields of a word hold keeps the bits of those fields and drops the others. -/
theorem getLsbD_pack_of_holds {word : Word} {entries : List (BitField × Int)}
    (hinside : ∀ entry ∈ entries, entry.1.high < 16)
    (hholds : ∀ entry ∈ entries, entry.1.Holds word entry.2) (index : Nat) :
    (pack 0#16 entries).value.getLsbD index =
      ((entries.any fun entry => entry.1.spans index) && word.getLsbD index) := by
  rw [getLsbD_pack, BitVec.getLsbD_zero, Bool.false_or]
  induction entries with
  | nil => simp
  | cons head rest ih =>
      rw [List.forall_mem_cons] at hinside hholds
      rw [List.any_cons, List.any_cons, ih hinside.2 hholds.2,
        getLsbD_place_of_holds hinside.1 hholds.1, Bool.and_or_distrib_right]

/-- A placed field as a number: the value's residue, moved up. -/
theorem toNat_place {field : BitField} (value : Int) (hle : field.low ≤ field.high)
    (hlt : field.high < 16) :
    ((field.place value).toNat : Int) = value % 2 ^ field.width * 2 ^ field.low := by
  have hwidth : field.width + field.low ≤ 16 := by
    rw [BitField.width]
    omega
  have hresidue : 0 ≤ value % ((2 ^ field.width : Nat) : Int) :=
    Int.emod_nonneg _ (by norm_num)
  have hsmall : (value % ((2 ^ field.width : Nat) : Int)).toNat < 2 ^ field.width := by
    have hbound := Int.emod_lt_of_pos value (b := ((2 ^ field.width : Nat) : Int)) (by norm_num)
    omega
  have hinside : (value % ((2 ^ field.width : Nat) : Int)).toNat * 2 ^ field.low < 2 ^ 16 :=
    calc (value % ((2 ^ field.width : Nat) : Int)).toNat * 2 ^ field.low
        < 2 ^ field.width * 2 ^ field.low :=
          Nat.mul_lt_mul_of_pos_right hsmall (Nat.two_pow_pos _)
      _ = 2 ^ (field.width + field.low) := (Nat.pow_add 2 _ _).symm
      _ ≤ 2 ^ 16 := Nat.pow_le_pow_right (by decide) hwidth
  rw [BitField.place, BitVec.toNat_shiftLeft, BitVec.toNat_setWidth_of_le (by omega),
    BitVec.toNat_ofInt, Nat.shiftLeft_eq, Nat.mod_eq_of_lt hinside, Int.natCast_mul,
    Int.toNat_of_nonneg hresidue]
  norm_cast

/-- Placing a field where a word is empty is adding. -/
theorem toNat_or_place {field : BitField} {word : Word} (value : Int)
    (hempty : extract word field.low field.high = 0#16) :
    (word ||| field.place value).toNat = word.toNat + (field.place value).toNat := by
  have hdisjoint : word &&& field.place value = 0#16 := by
    apply BitVec.eq_of_getLsbD_eq
    intro index _
    rw [BitVec.getLsbD_and, BitVec.getLsbD_zero, getLsbD_place, BitField.width]
    have hbit := congrArg (BitVec.getLsbD · (index - field.low)) hempty
    simp only [getLsbD_extract, BitVec.getLsbD_zero] at hbit
    by_cases hlow : field.low ≤ index
    · by_cases hhigh : index ≤ field.high
      · have hmoved : index - field.low ≤ field.high - field.low := by omega
        rw [Nat.add_sub_cancel' hlow] at hbit
        have hunset : word.getLsbD index = false := by simpa [hmoved] using hbit
        simp [hunset]
      · have houtside : field.high + 1 - field.low ≤ index - field.low := by omega
        simp [BitVec.getLsbD_of_ge _ _ houtside]
    · simp [hlow]
  rw [← BitVec.add_eq_or_of_and_eq_zero _ _ hdisjoint,
    BitVec.toNat_add_of_and_eq_zero hdisjoint]

/-- Packing disjoint fields over a word that is empty there adds them up. -/
theorem toNat_pack {entries : List (BitField × Int)} (word : Word)
    (hlayout : IsLayout (entries.map Prod.fst))
    (hempty : ∀ entry ∈ entries, extract word entry.1.low entry.1.high = 0#16) :
    ((pack word entries).value.toNat : Int) = word.toNat +
      (entries.map fun entry => entry.2 % 2 ^ entry.1.width * 2 ^ entry.1.low).sum := by
  induction entries generalizing word with
  | nil => simp [value_pack_nil]
  | cons head rest ih =>
      have hkept := hlayout.extract_or_place word
      obtain ⟨hinside, hpairs⟩ := hlayout
      rw [List.map_cons, List.forall_mem_cons] at hinside
      rw [List.map_cons, List.pairwise_cons] at hpairs
      rw [List.forall_mem_cons] at hempty
      have hrest : ∀ entry ∈ rest,
          extract (word ||| head.1.place head.2) entry.1.low entry.1.high = 0#16 := by
        intro entry hentry
        rw [hkept entry hentry]
        exact hempty.2 entry hentry
      rw [value_pack_cons, ih _ ⟨hinside.2, hpairs.2⟩ hrest, toNat_or_place _ hempty.1,
        Int.natCast_add, toNat_place head.2 hinside.1.1 hinside.1.2, List.map_cons,
        List.sum_cons, Int.add_assoc]

end LittleComputer.Bits
