import LittleComputer.Bits
import Mathlib.Data.Int.ModEq
import Mathlib.Tactic.Positivity

/-!
Truncation is reduction to the balanced residue.  A field of `width` bits holds exactly the numbers
that truncation leaves alone.  Sums are reduced in the same way, so it makes no difference if their
terms were reduced to a wider field before, or if the sum itself ran over 32 bits.
-/
namespace LittleComputer.Bits

/-- Shifting a number up against the sign bit and down again keeps its balanced residue modulo
`2 ^ width`. -/
theorem truncate_eq_bmod (value : Int) {width : Nat} (hpos : 1 ≤ width)
    (hle : width ≤ 32) : truncate value width = value.bmod (2 ^ width) := by
  obtain ⟨shift, hshift⟩ := Nat.exists_eq_add_of_le hle
  have hsub : 32 - width = shift := by omega
  have heven : 2 ∣ 2 ^ width := dvd_pow_self 2 (by omega)
  have hsplit : 2 ^ 32 = 2 ^ shift * 2 ^ width := by
    rw [hshift, Nat.add_comm, Nat.pow_add]
  have hdvd : 2 ^ width ∣ 2 ^ 32 := Dvd.intro_left _ hsplit.symm
  have hup : (((BitVec.ofInt 32 value).toNat <<< shift : Nat) : Int) =
      ((2 ^ shift : Nat) : Int) * (value % ((2 ^ 32 : Nat) : Int)) := by
    rw [BitVec.toNat_ofInt, Nat.shiftLeft_eq, Int.natCast_mul,
      Int.toNat_of_nonneg (Int.emod_nonneg _ (by norm_num)), Int.mul_comm]
  have hreduce : (value % ((2 ^ 32 : Nat) : Int)).bmod (2 ^ width) =
      value.bmod (2 ^ width) := by
    rw [← Int.bmod_bmod_of_dvd hdvd, Int.emod_bmod, Int.bmod_bmod_of_dvd hdvd]
  have hscale : ((2 ^ shift : Nat) : Int) ≠ 0 := by positivity
  calc truncate value width
      = (((2 ^ shift : Nat) : Int) * (value % ((2 ^ 32 : Nat) : Int))).bmod
          (2 ^ 32) >>> shift := by
        rw [truncate, hsub, BitVec.toInt_sshiftRight, BitVec.toInt_shiftLeft, hup]
    _ = (((2 ^ shift : Nat) : Int) *
          (value % ((2 ^ 32 : Nat) : Int)).bmod (2 ^ width)) >>> shift := by
        rw [← Int.mod_bmod_mul_of_pos _ _ (Nat.two_pow_pos shift) heven, ← hsplit]
    _ = value.bmod (2 ^ width) := by
        rw [hreduce, Int.shiftRight_eq_div_pow, Int.mul_ediv_cancel_left _ hscale]

theorem two_pow_eq_double {width : Nat} (hpos : 1 ≤ width) :
    (2 : Int) ^ width = 2 * 2 ^ (width - 1) := by
  rw [← pow_succ', Nat.sub_add_cancel hpos]

/-- A number in the range of a field is its own residue. -/
theorem bmod_eq_self {value : Int} {width : Nat} (hpos : 1 ≤ width)
    (hleast : -2 ^ (width - 1) ≤ value) (hgreatest : value < 2 ^ (width - 1)) :
    value.bmod (2 ^ width) = value := by
  have hdouble := two_pow_eq_double hpos
  apply Int.bmod_eq_of_le_mul_two
  · push_cast
    omega
  · push_cast
    omega

/-! The bounds of a field. -/

theorem signWeight_eq (width : Nat) :
    signWeight width = BitVec.ofInt 64 (2 ^ (width - 1)) := by
  have hpow : (2 : Int) ^ (width - 1) = ((2 ^ (width - 1) : Nat) : Int) := by push_cast; rfl
  rw [signWeight, hpow, BitVec.ofInt_natCast]
  apply BitVec.eq_of_toNat_eq
  simp [Nat.shiftLeft_eq]

/-- The cut from 64 to 32 bits keeps the numbers of 32 bits. -/
theorem toInt_setWidth_ofInt {value : Int} (hleast : -2 ^ 31 ≤ value)
    (hgreatest : value < 2 ^ 31) : ((BitVec.ofInt 64 value).setWidth 32).toInt = value := by
  have hself : value.bmod (2 ^ 32) = value := bmod_eq_self (by decide) hleast hgreatest
  have hdvd : 2 ^ 32 ∣ 2 ^ 64 := by decide
  calc ((BitVec.ofInt 64 value).setWidth 32).toInt
      = (value % ((2 ^ 64 : Nat) : Int)).bmod (2 ^ 32) := by
        rw [BitVec.toInt_setWidth, BitVec.toNat_ofInt,
          Int.toNat_of_nonneg (Int.emod_nonneg _ (by decide))]
    _ = value.bmod (2 ^ 32) := by
        rw [← Int.bmod_bmod_of_dvd hdvd, Int.emod_bmod, Int.bmod_bmod_of_dvd hdvd]
    _ = value := hself

/-- The bounds of a field of at most 32 bits are numbers of 32 bits. -/
theorem two_pow_le_of_le {width : Nat} (hle : width ≤ 32) : (2 : Int) ^ (width - 1) ≤ 2 ^ 31 :=
  pow_le_pow_right₀ (by decide) (by omega)

theorem least_eq {width : Nat} (hle : width ≤ 32) : least width = -2 ^ (width - 1) := by
  have hbound := two_pow_le_of_le hle
  have hpos : (0 : Int) < 2 ^ (width - 1) := by positivity
  rw [least, signWeight_eq, ← BitVec.ofInt_neg]
  exact toInt_setWidth_ofInt (Int.neg_le_neg hbound) (by omega)

theorem greatest_eq {width : Nat} (hle : width ≤ 32) :
    greatest width = 2 ^ (width - 1) - 1 := by
  have hbound := two_pow_le_of_le hle
  have hpos : (0 : Int) < 2 ^ (width - 1) := by positivity
  have hsub : BitVec.ofInt 64 (2 ^ (width - 1)) - 1#64 =
      BitVec.ofInt 64 (2 ^ (width - 1) - 1) := by
    rw [Int.sub_eq_add_neg, BitVec.ofInt_add, BitVec.sub_eq_add_neg]
    rfl
  rw [greatest, signWeight_eq, hsub]
  exact toInt_setWidth_ofInt (by omega) (by omega)

theorem fits_iff {value : Int} {width : Nat} (hle : width ≤ 32) :
    fits value width = true ↔
      -2 ^ (width - 1) ≤ value ∧ value < 2 ^ (width - 1) := by
  simp only [fits, least_eq hle, greatest_eq hle, Bool.and_eq_true, decide_eq_true_eq]
  omega

/-- A number that its field can hold survives truncation. -/
theorem truncate_eq_self_of_fits {value : Int} {width : Nat} (hpos : 1 ≤ width)
    (hle : width ≤ 32) (hfits : fits value width = true) :
    truncate value width = value := by
  obtain ⟨hleast, hgreatest⟩ := (fits_iff hle).mp hfits
  rw [truncate_eq_bmod value hpos hle, bmod_eq_self hpos hleast hgreatest]

/-- Reducing to a wide field first does not change the reduction to a narrow one. -/
theorem truncate_bmod (value : Int) {narrow wide : Nat} (hpos : 1 ≤ narrow)
    (hle : narrow ≤ 32) (hwide : narrow ≤ wide) :
    truncate (value.bmod (2 ^ wide)) narrow = truncate value narrow := by
  rw [truncate_eq_bmod _ hpos hle, truncate_eq_bmod _ hpos hle,
    Int.bmod_bmod_of_dvd (Nat.pow_dvd_pow 2 hwide)]

/-- A signed field of `width` bits can hold `value`. -/
def Representable (value : Int) (width : Nat) : Prop :=
  -2 ^ (width - 1) ≤ value ∧ value < 2 ^ (width - 1)

instance (value : Int) (width : Nat) : Decidable (Representable value width) :=
  inferInstanceAs (Decidable (_ ∧ _))

theorem fits_iff_representable {value : Int} {width : Nat} (hle : width ≤ 32) :
    fits value width = true ↔ Representable value width :=
  fits_iff hle

theorem representable_bmod (value : Int) {width : Nat} (hpos : 1 ≤ width) :
    Representable (value.bmod (2 ^ width)) width := by
  have hdouble := two_pow_eq_double hpos
  have hleast := Int.le_bmod (x := value) (Nat.two_pow_pos width)
  have hgreatest := Int.bmod_lt (x := value) (Nat.two_pow_pos width)
  push_cast at hleast hgreatest
  rw [Representable]
  omega

theorem representable_truncate (value : Int) {width : Nat} (hpos : 1 ≤ width)
    (hle : width ≤ 32) : Representable (truncate value width) width := by
  rw [truncate_eq_bmod value hpos hle]
  exact representable_bmod value hpos

/-- A number of a narrow field survives in sixteen bits. -/
theorem toInt_ofInt_of_representable {value : Int} {width : Nat} (hle : width ≤ 16)
    (hrange : Representable value width) : (Int16.ofInt value).toInt = value := by
  have hpow : (2 : Int) ^ (width - 1) ≤ 2 ^ 15 :=
    pow_le_pow_right₀ (by decide) (by omega)
  exact Int16.toInt_ofInt_of_le ((Int.neg_le_neg hpow).trans hrange.1)
    (hrange.2.trans_le hpow)

/-- `result` is congruent to `value` and in the range of a signed field of `width` bits. -/
def IsSignedResidue (width : Nat) (value result : Int) : Prop :=
  (-2 ^ (width - 1) ≤ result ∧ result ≤ 2 ^ (width - 1) - 1) ∧
    result ≡ value [ZMOD 2 ^ width]

theorem isSignedResidue_iff {width : Nat} (hpos : 1 ≤ width) {value result : Int} :
    IsSignedResidue width value result ↔ result = value.bmod (2 ^ width) := by
  constructor
  · rintro ⟨⟨hleast, hgreatest⟩, hcongruent⟩
    have hself : result.bmod (2 ^ width) = result :=
      bmod_eq_self hpos hleast (Int.lt_of_le_sub_one hgreatest)
    have hsame : result % ((2 ^ width : Nat) : Int) = value % ((2 ^ width : Nat) : Int) := by
      push_cast
      exact hcongruent
    rw [← hself, ← Int.emod_bmod, hsame, Int.emod_bmod]
  · rintro rfl
    have hrange := representable_bmod value hpos
    refine ⟨⟨hrange.1, Int.le_sub_one_of_lt hrange.2⟩, ?_⟩
    have hsame := @Int.bmod_emod value (2 ^ width)
    push_cast at hsame
    exact hsame

theorem truncate_eq_self_iff {value : Int} {width : Nat} (hpos : 1 ≤ width) (hle : width ≤ 32) :
    truncate value width = value ↔ fits value width = true := by
  constructor
  · intro hself
    rw [fits_iff_representable hle, ← hself]
    exact representable_truncate value hpos hle
  · exact truncate_eq_self_of_fits hpos hle

theorem truncate_truncate (value : Int) {narrow wide : Nat} (hpos : 1 ≤ narrow)
    (hle : narrow ≤ wide) (hwide : wide ≤ 32) :
    truncate (truncate value wide) narrow = truncate value narrow := by
  rw [truncate_eq_bmod value (hpos.trans hle) hwide, truncate_bmod value hpos (hle.trans hwide) hle]

/-- The terms of a sum may be reduced to a wider field before. -/
theorem add_truncate_truncate (a b : Int) {narrow wide : Nat} (hpos : 1 ≤ narrow)
    (hle : narrow ≤ wide) (hwide : wide ≤ 32) :
    add (truncate a wide) (truncate b wide) narrow = add a b narrow := by
  have hsum : (truncate a wide + truncate b wide).bmod (2 ^ wide) = (a + b).bmod (2 ^ wide) := by
    rw [truncate_eq_bmod a (hpos.trans hle) hwide, truncate_eq_bmod b (hpos.trans hle) hwide,
      Int.bmod_add_bmod, Int.add_bmod_bmod]
  rw [add, add, ← truncate_bmod _ hpos (hle.trans hwide) hle, hsum,
    truncate_bmod _ hpos (hle.trans hwide) hle]

/-- A sum may run over 32 bits before it is reduced. -/
theorem truncate_toInt_add (a b : Int) {width : Nat} (hpos : 1 ≤ width) (hle : width ≤ 32) :
    truncate (BitVec.ofInt 32 a + BitVec.ofInt 32 b).toInt width = add a b width := by
  rw [← BitVec.ofInt_add, BitVec.toInt_ofInt, truncate_bmod _ hpos hle hle, add]

theorem checkWidth_bind {α : Type} {width : Nat} (hpos : 1 ≤ width) (hle : width ≤ 32)
    (next : Unit → Except Fault α) : (checkWidth width >>= next) = next () := by
  rw [checkWidth, if_pos ⟨hpos, hle⟩]
  rfl

theorem checked_truncate (value : Int) {width : Nat} (hpos : 1 ≤ width) (hle : width ≤ 32) :
    Checked.truncate value width = .ok (truncate value width) :=
  checkWidth_bind hpos hle _

theorem checked_add (a b : Int) {width : Nat} (hpos : 1 ≤ width) (hle : width ≤ 32) :
    Checked.add a b width = .ok (add a b width) :=
  checkWidth_bind hpos hle _

/-- Truncation gives the one number of the field's range that is congruent to the value, and changes
nothing exactly if the field can hold the value.  The same holds of sums, also where the sum of two
32-bit numbers has more than 32 bits.  So numbers that were reduced to a wider field before are
reduced, and add up, like the numbers they come from. -/
theorem truncation_is_signed_residue {width : Nat} (hpos : 1 ≤ width) (hle : width ≤ 32) :
    Checked.range width = .ok (-2 ^ (width - 1), 2 ^ (width - 1) - 1) ∧
    (∀ value, ∃ result, Checked.truncate value width = .ok result ∧
      (∀ other, IsSignedResidue width value other ↔ other = result) ∧
      Checked.fits value width = .ok (decide (result = value))) ∧
    (∀ a b, ∃ result, Checked.add a b width = .ok result ∧
      (∀ other, IsSignedResidue width (a + b) other ↔ other = result) ∧
      Checked.truncate (BitVec.ofInt 32 a + BitVec.ofInt 32 b).toInt width = .ok result) ∧
    ∀ wide, width ≤ wide → wide ≤ 32 →
      (∀ a b, ∃ a' b', Checked.truncate a wide = .ok a' ∧ Checked.truncate b wide = .ok b' ∧
        Checked.add a' b' width = Checked.add a b width) ∧
      ∀ value, ∃ value', Checked.truncate value wide = .ok value' ∧
        Checked.truncate value' width = Checked.truncate value width := by
  refine ⟨?_, ?_, ?_, ?_⟩
  · rw [Checked.range, checkWidth_bind hpos hle, least_eq hle, greatest_eq hle]
    rfl
  · intro value
    refine ⟨truncate value width, checked_truncate value hpos hle, ?_, ?_⟩
    · intro other
      rw [isSignedResidue_iff hpos, truncate_eq_bmod value hpos hle]
    · have hfits : fits value width = decide (truncate value width = value) := by
        rw [Bool.eq_iff_iff, decide_eq_true_iff, truncate_eq_self_iff hpos hle]
      rw [Checked.fits, checkWidth_bind hpos hle, hfits]
      rfl
  · intro a b
    refine ⟨add a b width, checked_add a b hpos hle, ?_, ?_⟩
    · intro other
      rw [isSignedResidue_iff hpos, add, truncate_eq_bmod _ hpos hle]
    · rw [checked_truncate _ hpos hle, truncate_toInt_add a b hpos hle]
  · intro wide hwidth hwide
    have htruncate (value : Int) : Checked.truncate value wide = .ok (truncate value wide) :=
      checked_truncate value (hpos.trans hwidth) hwide
    constructor
    · intro a b
      refine ⟨truncate a wide, truncate b wide, htruncate a, htruncate b, ?_⟩
      rw [checked_add _ _ hpos hle, checked_add _ _ hpos hle,
        add_truncate_truncate a b hpos hwidth hwide]
    · intro value
      refine ⟨truncate value wide, htruncate value, ?_⟩
      rw [checked_truncate _ hpos hle, checked_truncate _ hpos hle,
        truncate_truncate value hpos hwidth hwide]

/-- The sum past the greatest number of 32 bits is the least one, and the one bit of an odd number
is a sign. -/
theorem sum_past_the_greatest_wraps :
    Checked.add 2147483647 1 32 = .ok (-2147483648) ∧ Checked.truncate 5 1 = .ok (-1) := by
  obtain ⟨-, -, hadd, -⟩ := @truncation_is_signed_residue 32 (by decide) le_rfl
  obtain ⟨-, htruncate, -⟩ := @truncation_is_signed_residue 1 le_rfl (by decide)
  have hwrapped : IsSignedResidue 32 (2147483647 + 1) (-2147483648) := ⟨by decide, by decide⟩
  have hsign : IsSignedResidue 1 5 (-1) := ⟨by decide, by decide⟩
  obtain ⟨sum, hsum, hsumUnique, -⟩ := hadd 2147483647 1
  obtain ⟨bit, hbit, hbitUnique, -⟩ := htruncate 5
  rw [hsum, hbit, ← (hsumUnique _).mp hwrapped, ← (hbitUnique _).mp hsign]
  exact ⟨rfl, rfl⟩

end LittleComputer.Bits
