import LittleComputer.Machine
import Mathlib.Data.List.Forall2
import Mathlib.Data.Nat.Digits.Defs

/-!
Numerals determine their numbers.  Digits give back the value they were written for, whatever zeros
stand in front of them and in whatever case their letters are, so no two numbers are written alike.
What a text of digits denotes is said apart from any function that reads it.
-/
namespace LittleComputer

namespace Numeral

theorem toDigits_ten_injective : Function.Injective (Nat.toDigits 10) := by
  intro m n hdigits
  rw [← @Nat.ofDigitChars_ten_toDigits m, hdigits, Nat.ofDigitChars_ten_toDigits]

theorem mem_decimal {number : Int} {c : Char} (hmem : c ∈ (decimal number).toList) :
    c = '-' ∨ c.isDigit = true := by
  have hdigit : ∀ {n : Nat}, c ∈ Nat.toDigits 10 n → c.isDigit = true :=
    Nat.isDigit_of_mem_toDigits (by decide) (by decide)
  cases number with
  | ofNat n =>
      rw [decimal, String.toList_ofList] at hmem
      exact .inr (hdigit hmem)
  | negSucc n =>
      rw [decimal, String.toList_ofList] at hmem
      exact (List.mem_cons.mp hmem).imp_right hdigit

theorem decimal_injective : Function.Injective decimal := by
  -- A sign is no digit, so a negative number is not written like another one.
  have hsign : ∀ m n : Nat, decimal (.ofNat m) ≠ decimal (.negSucc n) := by
    intro m n htext
    have hmem : '-' ∈ Nat.toDigits 10 m := by
      rw [String.ofList_injective htext]
      exact List.mem_cons_self
    exact absurd (Nat.isDigit_of_mem_toDigits (by decide) (by decide) hmem) (by decide)
  intro first second htext
  cases first with
  | ofNat m =>
      cases second with
      | ofNat n => rw [toDigits_ten_injective (String.ofList_injective htext)]
      | negSucc n => exact absurd htext (hsign m n)
  | negSucc m =>
      cases second with
      | ofNat n => exact absurd htext.symm (hsign n m)
      | negSucc n =>
          have hdigits := List.tail_eq_of_cons_eq (String.ofList_injective htext)
          rw [Nat.succ.inj (toDigits_ten_injective hdigits)]

/-- The number that hexadecimal digits stand for, after others of value `value`. -/
def hexValue (value : Nat) (digits : List Char) : Nat :=
  digits.foldl (fun value c => 16 * value + (digit? 16 c).getD 0) value

theorem hexValue_append (value : Nat) (first second : List Char) :
    hexValue value (first ++ second) = hexValue (hexValue value first) second :=
  List.foldl_append

theorem digit?_digitChar {d : Nat} (hlt : d < 16) :
    digit? 16 d.digitChar.toUpper = some d := by
  revert d
  decide

theorem hexValue_toDigits (n : Nat) :
    hexValue 0 ((Nat.toDigits 16 n).map Char.toUpper) = n := by
  induction n using Nat.strongRecOn with
  | ind n ih =>
      rcases Nat.lt_or_ge n 16 with hsmall | hlarge
      · rw [Nat.toDigits_of_lt_base hsmall]
        simp [hexValue, digit?_digitChar hsmall]
      · have hfirst := ih (n / 16) (Nat.div_lt_self (by omega) (by decide))
        have hlast := digit?_digitChar (Nat.mod_lt n (by decide))
        rw [Nat.toDigits_of_base_le (by decide) hlarge, List.map_append, hexValue_append,
          hfirst, List.map_singleton, hexValue, List.foldl_cons, List.foldl_nil, hlast,
          Option.getD_some, Nat.div_add_mod]

/-- Zeros in front do not count. -/
theorem hexValue_padded (width n : Nat) :
    hexValue 0 ((padded 16 width n).map Char.toUpper) = n := by
  have hzeros : ∀ count, hexValue 0 (List.replicate count '0') = 0 := by
    intro count
    induction count with
    | zero => rfl
    | succ count ih => exact ih
  have hupper : Char.toUpper '0' = '0' := by decide
  rw [padded, List.map_append, List.map_replicate, hupper, hexValue_append, hzeros,
    hexValue_toDigits]

theorem upperHex_injective (width : Nat) : Function.Injective (upperHex width) := by
  intro m n htext
  rw [← hexValue_padded width m, String.ofList_injective htext, hexValue_padded]

/-- `c` is the digit `digit` of `radix`.  Letters are digits in either case. -/
def IsDigit (radix : Nat) (c : Char) (digit : Nat) : Prop :=
  digit < radix ∧ (c = digit.digitChar ∨ c = digit.digitChar.toUpper)

theorem toNat_le_of_digit? {radix : Nat} {c : Char} {digit : Nat}
    (hdigit : digit? radix c = some digit) : c.toNat ≤ 'f'.toNat := by
  have hvalue := (Option.filter_eq_some_iff.mp hdigit).1
  have hle : ∀ {last : Char}, c ≤ last → last.toNat ≤ 'f'.toNat → c.toNat ≤ 'f'.toNat :=
    fun hc => (UInt32.le_iff_toNat_le.mp hc).trans
  split_ifs at hvalue with hdecimal hlower hupper
  · exact hle hdecimal.2 (by decide)
  · exact hle hlower.2 (by decide)
  · exact hle hupper.2 (by decide)

theorem eq_digitChar_of_digit? {c : Char} {digit : Nat} (hdigit : digit? 16 c = some digit) :
    c = digit.digitChar ∨ c = digit.digitChar.toUpper := by
  have hchars : ∀ n ≤ 'f'.toNat, ∀ d ∈ digit? 16 (Char.ofNat n),
      Char.ofNat n = d.digitChar ∨ Char.ofNat n = d.digitChar.toUpper := by decide
  have hc := hchars c.toNat (toNat_le_of_digit? hdigit) digit
  rw [Char.ofNat_toNat] at hc
  exact hc hdigit

/-- The digits of a smaller radix are hexadecimal digits too. -/
theorem digit?_eq_some_iff_sixteen {radix : Nat} (hradix : radix ≤ 16) {c : Char}
    {digit : Nat} :
    digit? radix c = some digit ↔ digit < radix ∧ digit? 16 c = some digit := by
  simp only [digit?, Option.filter_eq_some_iff, decide_eq_true_eq]
  constructor
  · rintro ⟨hvalue, hlt⟩
    exact ⟨hlt, hvalue, hlt.trans_le hradix⟩
  · rintro ⟨hlt, hvalue, -⟩
    exact ⟨hvalue, hlt⟩

theorem digit?_eq_some_iff {radix : Nat} (hradix : radix ≤ 16) {c : Char} {digit : Nat} :
    digit? radix c = some digit ↔ IsDigit radix c digit := by
  rw [digit?_eq_some_iff_sixteen hradix, IsDigit]
  refine and_congr_right fun hlt => ⟨eq_digitChar_of_digit?, ?_⟩
  have hlower : ∀ d < 16, digit? 16 d.digitChar = some d := by decide
  rintro (rfl | rfl)
  · exact hlower digit (hlt.trans_le hradix)
  · exact digit?_digitChar (hlt.trans_le hradix)

/-- A character is one digit only, so that what holds of its digit is known from one. -/
theorem IsDigit.exists_iff {radix : Nat} (hradix : radix ≤ 16) {c : Char} {digit : Nat}
    (hdigit : IsDigit radix c digit) {p : Nat → Prop} :
    (∃ other, IsDigit radix c other ∧ p other) ↔ p digit := by
  constructor
  · rintro ⟨other, hother, hp⟩
    rw [← digit?_eq_some_iff hradix] at hdigit hother
    obtain rfl := Option.some.inj (hother.symm.trans hdigit)
    exact hp
  · intro hp
    exact ⟨digit, hdigit, hp⟩

/-- `text` is written in digits of `radix`, most significant first, and denotes `value`. -/
def Denotes (radix : Nat) (text : List Char) (value : Nat) : Prop :=
  ∃ digits, List.Forall₂ (IsDigit radix) text digits ∧
    Nat.ofDigits radix digits.reverse = value

/-- `text` denotes `value` after digits that denote `before`. -/
def DenotesAfter (radix before : Nat) (text : List Char) (value : Nat) : Prop :=
  ∃ digits, List.Forall₂ (IsDigit radix) text digits ∧
    digits.foldl (fun number digit => digit + radix * number) before = value

theorem denotes_iff {radix : Nat} {text : List Char} {value : Nat} :
    Denotes radix text value ↔ DenotesAfter radix 0 text value := by
  simp only [Denotes, DenotesAfter, Nat.ofDigits_eq_foldr, List.foldr_reverse, Nat.cast_id]

theorem denotesAfter_nil {radix before value : Nat} :
    DenotesAfter radix before [] value ↔ before = value := by
  simp [DenotesAfter]

theorem denotesAfter_cons {radix before value : Nat} {c : Char} {rest : List Char} :
    DenotesAfter radix before (c :: rest) value ↔ ∃ digit, IsDigit radix c digit ∧
      DenotesAfter radix (digit + radix * before) rest value := by
  simp only [DenotesAfter, List.forall₂_cons_left_iff]
  constructor
  · rintro ⟨_, ⟨digit, digits, hdigit, hrest, rfl⟩, hvalue⟩
    exact ⟨digit, hdigit, digits, hrest, hvalue⟩
  · rintro ⟨digit, hdigit, digits, hrest, hvalue⟩
    exact ⟨_, ⟨digit, digits, hdigit, hrest, rfl⟩, hvalue⟩

/-- Further digits do not make a number smaller. -/
theorem DenotesAfter.le {radix before value : Nat} {text : List Char} (hpos : 0 < radix)
    (hdenotes : DenotesAfter radix before text value) : before ≤ value := by
  induction text generalizing before with
  | nil => exact (denotesAfter_nil.mp hdenotes).le
  | cons c rest ih =>
      obtain ⟨digit, -, hrest⟩ := denotesAfter_cons.mp hdenotes
      calc before ≤ radix * before := Nat.le_mul_of_pos_left before hpos
        _ ≤ digit + radix * before := Nat.le_add_left _ _
        _ ≤ value := ih hrest

/-- Zeros in front do not change what a text denotes. -/
theorem denotes_replicate_zero {radix value : Nat} (hpos : 0 < radix) (hradix : radix ≤ 16)
    (zeros : Nat) {text : List Char} :
    Denotes radix (List.replicate zeros '0' ++ text) value ↔ Denotes radix text value := by
  have hzero : IsDigit radix '0' 0 := ⟨hpos, .inl rfl⟩
  rw [denotes_iff, denotes_iff]
  induction zeros with
  | zero => rfl
  | succ zeros ih =>
      rw [List.replicate_succ, List.cons_append, denotesAfter_cons, hzero.exists_iff hradix,
        Nat.mul_zero]
      exact ih

theorem isDigit_digitChar {radix digit : Nat} (hlt : digit < radix) :
    IsDigit radix digit.digitChar digit :=
  ⟨hlt, .inl rfl⟩

theorem denotes_nil {radix : Nat} : Denotes radix [] 0 :=
  denotes_iff.mpr (denotesAfter_nil.mpr rfl)

theorem denotes_singleton {radix digit : Nat} {c : Char} (hdigit : IsDigit radix c digit) :
    Denotes radix [c] digit :=
  ⟨[digit], .cons hdigit .nil, Nat.ofDigits_singleton⟩

/-- Digits in front of others stand as many places higher. -/
theorem Denotes.append {radix high low : Nat} {first second : List Char}
    (hfirst : Denotes radix first high) (hsecond : Denotes radix second low) :
    Denotes radix (first ++ second) (low + radix ^ second.length * high) := by
  obtain ⟨digits, hdigits, rfl⟩ := hfirst
  obtain ⟨others, hothers, rfl⟩ := hsecond
  refine ⟨digits ++ others, List.rel_append hdigits hothers, ?_⟩
  rw [List.reverse_append, Nat.ofDigits_append, List.length_reverse, hothers.length_eq]

/-- One more digit moves the ones before it up by one place. -/
theorem Denotes.concat {radix value digit : Nat} {text : List Char} {c : Char}
    (hdenotes : Denotes radix text value) (hdigit : IsDigit radix c digit) :
    Denotes radix (text ++ [c]) (digit + radix * value) := by
  have happend := hdenotes.append (denotes_singleton hdigit)
  rwa [List.length_singleton, Nat.pow_one] at happend

theorem Denotes.lt {radix value : Nat} {text : List Char} (hradix : 1 < radix)
    (hdenotes : Denotes radix text value) : value < radix ^ text.length := by
  obtain ⟨digits, hdigits, rfl⟩ := hdenotes
  have hsmall : ∀ digit ∈ digits, digit < radix :=
    ((List.forall₂_and_left _ _).mp hdigits.flip).1
  rw [hdigits.length_eq, ← List.length_reverse]
  exact Nat.ofDigits_lt_base_pow_length hradix fun digit hmem =>
    hsmall digit (List.mem_reverse.mp hmem)

theorem Denotes.unique {radix value other : Nat} {text : List Char} (hradix : radix ≤ 16)
    (hvalue : Denotes radix text value) (hother : Denotes radix text other) : value = other := by
  have hunique : Relator.RightUnique (IsDigit radix) := by
    intro c digit digit' hdigit hdigit'
    rw [← digit?_eq_some_iff hradix] at hdigit hdigit'
    exact Option.some.inj (hdigit.symm.trans hdigit')
  obtain ⟨digits, hdigits, rfl⟩ := hvalue
  obtain ⟨others, hothers, rfl⟩ := hother
  rw [hunique.forall₂ hdigits hothers]

/-- What denotes a number is written in digits only. -/
theorem Denotes.exists_isDigit {radix value : Nat} {text : List Char}
    (hdenotes : Denotes radix text value) : ∀ c ∈ text, ∃ digit, IsDigit radix c digit := by
  obtain ⟨digits, hdigits, -⟩ := hdenotes
  have hboth := hdigits.imp fun c digit hdigit => And.intro (Exists.intro digit hdigit) hdigit
  exact ((List.forall₂_and_left _ _).mp hboth).1

theorem denotes_toDigits {radix : Nat} (hradix : 1 < radix) (n : Nat) :
    Denotes radix (Nat.toDigits radix n) n := by
  induction n using Nat.strongRecOn with
  | ind n ih =>
      rcases Nat.lt_or_ge n radix with hsmall | hlarge
      · rw [Nat.toDigits_of_lt_base hsmall]
        exact denotes_singleton (isDigit_digitChar hsmall)
      · have hfirst := ih (n / radix) (Nat.div_lt_self (by omega) hradix)
        have hlast := isDigit_digitChar (Nat.mod_lt n (by omega : 0 < radix))
        rw [Nat.toDigits_of_base_le hradix hlarge]
        simpa only [Nat.mod_add_div] using hfirst.concat hlast

theorem denotes_padded {radix : Nat} (hlow : 1 < radix) (hradix : radix ≤ 16) (width n : Nat) :
    Denotes radix (padded radix width n) n :=
  (denotes_replicate_zero (by omega) hradix _).mpr (denotes_toDigits hlow n)

/-- A number that fits is written in exactly the digits asked for. -/
theorem length_padded {radix width n : Nat} (hradix : 1 < radix) (hpos : 0 < width)
    (hlt : n < radix ^ width) : (padded radix width n).length = width := by
  have hle := (Nat.length_toDigits_le_iff hradix hpos).mpr hlt
  rw [padded, List.length_append, List.length_replicate, Nat.sub_add_cancel hle]

end Numeral

theorem Word.listed_injective : Function.Injective Word.listed := by
  intro first second htext
  exact BitVec.eq_of_toNat_eq (Numeral.upperHex_injective 4 htext)

end LittleComputer
