import LittleComputer.Bits
import Mathlib.Tactic.NormNum

/-!
Cutting ranges of bits out of words of any size.  A range of a word is a quotient and a remainder,
and consecutive ranges put together again are the range over all of them.
-/
namespace LittleComputer.Bits

variable {n : Nat}

/-- A bit that is shifted inside the word is not lost. -/
theorem toNat_one_shiftLeft {length : Nat} (hlt : length < n) :
    (1#n <<< length).toNat = 2 ^ length := by
  rw [BitVec.toNat_shiftLeft, BitVec.toNat_one (Nat.zero_lt_of_lt hlt), Nat.one_shiftLeft]
  exact Nat.mod_eq_of_lt (Nat.pow_lt_pow_right (by decide) hlt)

theorem usubOverflow_one_shiftLeft {length : Nat} (hlt : length < n) :
    BitVec.usubOverflow (1#n <<< length) 1#n = false := by
  rw [BitVec.usubOverflow, toNat_one_shiftLeft hlt, BitVec.toNat_one (Nat.zero_lt_of_lt hlt),
    decide_eq_false_iff_not, Nat.not_lt]
  exact Nat.two_pow_pos length

theorem mask_of_le {length : Nat} (hle : n ≤ length) : mask n length = BitVec.allOnes n :=
  if_pos hle

theorem mask_of_lt {length : Nat} (hlt : length < n) : mask n length = (1#n <<< length) - 1#n :=
  if_neg (Nat.not_le_of_lt hlt)

theorem toNat_mask {length : Nat} (hle : length ≤ n) :
    (mask n length).toNat = 2 ^ length - 1 := by
  rcases Nat.lt_or_eq_of_le hle with hlt | rfl
  · have hborrow : 1#n ≤ 1#n <<< length := by
      rw [BitVec.le_def, BitVec.toNat_one (Nat.zero_lt_of_lt hlt), toNat_one_shiftLeft hlt]
      exact Nat.two_pow_pos length
    rw [mask_of_lt hlt, BitVec.toNat_sub_of_le hborrow, toNat_one_shiftLeft hlt,
      BitVec.toNat_one (Nat.zero_lt_of_lt hlt)]
  · rw [mask_of_le (Nat.le_refl length), BitVec.toNat_allOnes]

theorem toNat_extract (word : BitVec n) (low high : Nat) :
    (extract word low high).toNat =
      word.toNat / 2 ^ low % 2 ^ (high - low + 1) := by
  rw [extract, BitVec.toNat_and, BitVec.toNat_ushiftRight, Nat.shiftRight_eq_div_pow]
  rcases Nat.le_total (high - low + 1) n with hnarrow | hwide
  · rw [toNat_mask hnarrow, Nat.and_two_pow_sub_one_eq_mod]
  · have hlt : word.toNat / 2 ^ low < 2 ^ n :=
      Nat.lt_of_le_of_lt (Nat.div_le_self _ _) word.isLt
    rw [mask_of_le hwide, BitVec.toNat_allOnes, Nat.and_two_pow_sub_one_eq_mod,
      Nat.mod_eq_of_lt hlt,
      Nat.mod_eq_of_lt (Nat.lt_of_lt_of_le hlt (Nat.pow_le_pow_right (by decide) hwide))]

/-- The bits of a range are those of the word, moved down. -/
theorem getLsbD_extract (word : BitVec n) (low high index : Nat) :
    (extract word low high).getLsbD index =
      (decide (index ≤ high - low) && word.getLsbD (low + index)) := by
  rw [BitVec.getLsbD, toNat_extract, Nat.testBit_mod_two_pow,
    Nat.testBit_div_two_pow, Nat.add_comm index low, BitVec.getLsbD]
  simp only [Nat.lt_succ_iff]

theorem extract_or (a b : BitVec n) (low high : Nat) :
    extract (a ||| b) low high = extract a low high ||| extract b low high := by
  simp only [extract, BitVec.ushiftRight_or_distrib, BitVec.and_or_distrib_right]

theorem testBit_iff (word : BitVec n) {index : Nat} (hlt : index < n) :
    testBit word index = true ↔ word.toNat / 2 ^ index % 2 = 1 := by
  rw [testBit, beq_iff_eq, ← BitVec.toNat_inj, toNat_extract,
    BitVec.toNat_one (Nat.zero_lt_of_lt hlt), Nat.sub_self, Nat.zero_add, Nat.pow_one]

/-- Bits from `low` on, `lower` of them below `upper` others. -/
theorem div_mod_two_pow_add (value low lower upper : Nat) :
    value / 2 ^ low % 2 ^ (lower + upper) =
      value / 2 ^ low % 2 ^ lower + 2 ^ lower * (value / 2 ^ (low + lower) % 2 ^ upper) := by
  rw [Nat.pow_add, Nat.mod_mul, Nat.div_div_eq_div_mul, ← Nat.pow_add]

theorem checkRange_bind {α : Type} {low high : Nat} (hle : low ≤ high) (hlt : high < n)
    (next : Unit → Except Fault α) : (checkRange n low high >>= next) = next () := by
  rw [checkRange, if_pos ⟨hle, hlt⟩]
  rfl

theorem checked_extract (word : BitVec n) {low high : Nat} (hle : low ≤ high) (hlt : high < n) :
    Checked.extract word low high = .ok (extract word low high) :=
  checkRange_bind hle hlt _

/-- Consecutive ranges with the given widths, from bit `low` on. -/
def cut (word : BitVec n) (low : Nat) : List Nat → Except Fault (List (BitVec n))
  | [] => .ok []
  | width :: rest => do
      let piece ← Checked.extract word low (low + width - 1)
      let pieces ← cut word (low + width) rest
      return piece :: pieces

/-- The number that pieces with the given widths make up, the lowest first. -/
def joined : List Nat → List (BitVec n) → Nat
  | width :: widths, piece :: pieces => piece.toNat + 2 ^ width * joined widths pieces
  | _, _ => 0

/-- The range of `width` bits from bit `low` on as a number. -/
theorem toNat_extract_width (word : BitVec n) (low : Nat) {width : Nat} (hpos : 0 < width) :
    (extract word low (low + width - 1)).toNat = word.toNat / 2 ^ low % 2 ^ width := by
  have hwidth : low + width - 1 - low + 1 = width := by omega
  rw [toNat_extract, hwidth]

theorem cut_cons (word : BitVec n) {low width : Nat} {rest : List Nat}
    {pieces : List (BitVec n)} (hpos : 0 < width) (hinside : low + width ≤ n)
    (hpieces : cut word (low + width) rest = .ok pieces) :
    cut word low (width :: rest) = .ok (extract word low (low + width - 1) :: pieces) := by
  rw [cut, checked_extract word (by omega) (by omega), hpieces]
  rfl

/-- Consecutive ranges make up the range over all of them. -/
theorem exists_cut (word : BitVec n) {low : Nat} {widths : List Nat}
    (hpos : ∀ width ∈ widths, 0 < width) (hinside : low + widths.sum ≤ n) :
    ∃ pieces, cut word low widths = .ok pieces ∧
      joined widths pieces = word.toNat / 2 ^ low % 2 ^ widths.sum := by
  induction widths generalizing low with
  | nil => exact ⟨[], rfl, by simp [joined, Nat.mod_one]⟩
  | cons width rest ih =>
      rw [List.forall_mem_cons] at hpos
      rw [List.sum_cons] at hinside ⊢
      have hrest : low + width + rest.sum ≤ n := by omega
      obtain ⟨pieces, hpieces, hjoined⟩ := ih hpos.2 hrest
      refine ⟨_, cut_cons word hpos.1 (by omega) hpieces, ?_⟩
      rw [joined, hjoined, toNat_extract_width word low hpos.1, div_mod_two_pow_add]

/-- A range that is cut out has no bits beyond its width. -/
theorem toNat_lt_of_cut {word : BitVec n} {low : Nat} {widths : List Nat}
    {pieces : List (BitVec n)} (hpos : ∀ width ∈ widths, 0 < width)
    (hinside : low + widths.sum ≤ n) (hcut : cut word low widths = .ok pieces) :
    List.Forall₂ (fun width piece => piece.toNat < 2 ^ width) widths pieces := by
  induction widths generalizing low pieces with
  | nil =>
      obtain rfl := Except.ok.inj hcut
      exact .nil
  | cons width rest ih =>
      rw [List.forall_mem_cons] at hpos
      rw [List.sum_cons] at hinside
      have hrest : low + width + rest.sum ≤ n := by omega
      obtain ⟨others, hothers, -⟩ := exists_cut word hpos.2 hrest
      rw [cut_cons word hpos.1 (by omega) hothers] at hcut
      obtain rfl := Except.ok.inj hcut
      refine .cons ?_ (ih hpos.2 hrest hothers)
      rw [toNat_extract_width word low hpos.1]
      exact Nat.mod_lt _ (Nat.two_pow_pos width)

/-- A range is a quotient and a remainder in words of any size.  Its mask never overflows, also
where the range is the whole word.  A bit is the remainder by two.  Two ranges side by side make up
the one over both, and a word that is cut into consecutive ranges is made up of them. -/
theorem ranges_are_quotients_and_remainders (word : BitVec n) :
    (∀ low high, low ≤ high → high < n →
      (∃ range, Checked.extract word low high = .ok range ∧
        range.toNat = word.toNat / 2 ^ low % 2 ^ (high - low + 1)) ∧
      (mask n (high - low + 1)).toNat = 2 ^ (high - low + 1) - 1 ∧
      (high - low + 1 < n →
        mask n (high - low + 1) = (1#n <<< (high - low + 1)) - 1#n ∧
        (1#n <<< (high - low + 1)).toNat = 2 ^ (high - low + 1) ∧
        BitVec.usubOverflow (1#n <<< (high - low + 1)) 1#n = false)) ∧
    (∀ index, index < n →
      Checked.testBit word index = .ok (decide (word.toNat / 2 ^ index % 2 = 1))) ∧
    (∀ low middle high, low ≤ middle → middle < high → high < n →
      ∃ range lower upper, Checked.extract word low high = .ok range ∧
        Checked.extract word low middle = .ok lower ∧
        Checked.extract word (middle + 1) high = .ok upper ∧
        range.toNat = lower.toNat + 2 ^ (middle - low + 1) * upper.toNat) ∧
    ∀ widths, (∀ width ∈ widths, 0 < width) → widths.sum = n →
      ∃ pieces, cut word 0 widths = .ok pieces ∧ joined widths pieces = word.toNat := by
  refine ⟨?_, ?_, ?_, ?_⟩
  · intro low high hle hlt
    refine ⟨?_, toNat_mask (by omega), ?_⟩
    · exact ⟨extract word low high, checked_extract word hle hlt, toNat_extract word low high⟩
    · intro hnarrow
      exact ⟨mask_of_lt hnarrow, toNat_one_shiftLeft hnarrow, usubOverflow_one_shiftLeft hnarrow⟩
  · intro index hlt
    have hbit : testBit word index = decide (word.toNat / 2 ^ index % 2 = 1) := by
      rw [Bool.eq_iff_iff, testBit_iff word hlt, decide_eq_true_iff]
    rw [Checked.testBit, checkRange_bind (Nat.le_refl index) hlt, hbit]
    rfl
  · intro low middle high hle hmiddle hlt
    refine ⟨_, _, _, checked_extract word (by omega) hlt,
      checked_extract word hle (by omega), checked_extract word hmiddle hlt, ?_⟩
    have hlength : high - low + 1 = middle - low + 1 + (high - (middle + 1) + 1) := by omega
    have hupper : low + (middle - low + 1) = middle + 1 := by omega
    rw [toNat_extract, toNat_extract, toNat_extract, hlength, div_mod_two_pow_add, hupper]
  · intro widths hpos hsum
    obtain ⟨pieces, hpieces, hjoined⟩ := exists_cut word hpos (by omega : 0 + widths.sum ≤ n)
    refine ⟨pieces, hpieces, ?_⟩
    rw [hjoined, hsum, Nat.pow_zero, Nat.div_one, Nat.mod_eq_of_lt word.isLt]

/-- The range over a whole word of 64 bits is the word, and so are its first bit, its last bit and
the bits between them together. -/
theorem whole_word_and_its_parts :
    let word := 0x8000000000000003#64
    (∃ range, Checked.extract word 0 63 = .ok range ∧ range.toNat = word.toNat) ∧
      (mask 64 64).toNat = 2 ^ 64 - 1 ∧
      ∃ pieces, cut word 0 [1, 62, 1] = .ok pieces ∧ joined [1, 62, 1] pieces = word.toNat := by
  intro word
  obtain ⟨hranges, -, -, hcut⟩ := ranges_are_quotients_and_remainders word
  obtain ⟨⟨range, hrange, hvalue⟩, hmask, -⟩ := hranges 0 63 (by decide) (by decide)
  exact ⟨⟨range, hrange, hvalue.trans (by decide)⟩, hmask, hcut [1, 62, 1] (by decide) rfl⟩

end LittleComputer.Bits
