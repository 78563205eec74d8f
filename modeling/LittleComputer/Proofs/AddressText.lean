import LittleComputer.Proofs.Text.Numeral
import LittleComputer.Tool.Command
import Mathlib.Data.List.DropRight

/-!
The grammar of addresses.  A text falls into white space, a radix mark, a sign and digits in one way
only, and the digits decide what is read: an address if they denote one, and otherwise the first
thing that is wrong with them, counted from the left.
-/
namespace LittleComputer.Text

/-! Trimming takes away all the white space at either end of a text and nothing else. -/

def Blank (text : List Char) : Prop :=
  ∀ c ∈ text, isBlank c = true

/-- `body` is `text` without the white space at either end. -/
structure Trimmed (text body : List Char) : Prop where
  around : ∃ before after, Blank before ∧ Blank after ∧ text = before ++ body ++ after
  first : ∀ c ∈ body.head?, isBlank c = false
  last : ∀ c ∈ body.getLast?, isBlank c = false

theorem trim_eq_rdropWhile (text : List Char) :
    trim text = (text.dropWhile isBlank).rdropWhile isBlank := rfl

theorem trimmed_trim (text : List Char) : Trimmed text (trim text) := by
  rw [trim_eq_rdropWhile]
  refine ⟨⟨text.takeWhile isBlank, (text.dropWhile isBlank).rtakeWhile isBlank,
    fun c => List.mem_takeWhile_imp, fun c => List.mem_rtakeWhile_imp, ?_⟩, ?_, ?_⟩
  · rw [List.append_assoc, List.rdropWhile_append_rtakeWhile,
      List.takeWhile_append_dropWhile]
  · -- The end that is cut off does not reach the first character.
    intro c hc
    obtain ⟨rest, hrest⟩ := List.head?_eq_some_iff.mp hc
    obtain ⟨after, hafter⟩ := List.rdropWhile_prefix isBlank (text.dropWhile isBlank)
    have hfirst := List.head?_dropWhile_not isBlank text
    rw [← hafter, hrest] at hfirst
    exact hfirst
  · intro c hc
    obtain ⟨hne, hlast⟩ := List.mem_getLast?_eq_getLast hc
    rw [hlast]
    exact Bool.eq_false_iff.mpr (List.rdropWhile_last_not isBlank _ hne)

theorem Trimmed.trim_eq {text body : List Char} (htrimmed : Trimmed text body) :
    trim text = body := by
  obtain ⟨⟨before, after, hbefore, hafter, rfl⟩, hfirst, hlast⟩ := htrimmed
  have hstart : (before ++ body ++ after).dropWhile isBlank =
      (body ++ after).dropWhile isBlank := by
    rw [List.append_assoc, List.dropWhile_append_of_pos hbefore]
  rw [trim_eq_rdropWhile, hstart]
  cases body with
  | nil =>
      rw [List.nil_append, List.dropWhile_eq_nil_iff.mpr hafter, List.rdropWhile_nil]
  | cons c rest =>
      have hc : ¬ isBlank c = true := by simp [hfirst c rfl]
      have hreverse : ∀ d ∈ after.reverse, isBlank d = true := by
        simpa [Blank] using hafter
      rw [List.cons_append, List.dropWhile_cons_of_neg hc, ← List.cons_append,
        List.rdropWhile, List.reverse_append, List.dropWhile_append_of_pos hreverse]
      refine List.rdropWhile_eq_self_iff.mpr fun hne => ?_
      simp [hlast _ (List.getLast_mem_getLast? hne)]

theorem trimmed_iff {text body : List Char} : Trimmed text body ↔ trim text = body := by
  constructor
  · exact Trimmed.trim_eq
  · rintro rfl
    exact trimmed_trim text

end LittleComputer.Text

/-! Marks, signs and digits. -/
namespace LittleComputer.Address

open Numeral

/-- What hexadecimal digits come after. -/
def hexMarks : List (List Char) :=
  [['0', 'x'], ['0', 'X'], ['x'], ['X']]

/-- The text, the radix that it is marked with, and the text without the mark. -/
inductive Marked : List Char → Nat → List Char → Prop
  | hex (mark rest : List Char) (hmark : mark ∈ hexMarks) : Marked (mark ++ rest) 16 rest
  | decimal {text : List Char} (hnone : ∀ mark ∈ hexMarks, ¬ mark <+: text) :
      Marked text 10 text

theorem marked_splitRadix (text : List Char) :
    Marked text (splitRadix text).1 (splitRadix text).2 := by
  fun_cases splitRadix text with
  | case1 rest => exact .hex ['0', 'x'] rest (by decide)
  | case2 rest => exact .hex ['0', 'X'] rest (by decide)
  | case3 rest => exact .hex ['x'] rest (by decide)
  | case4 rest => exact .hex ['X'] rest (by decide)
  | case5 text hlower hupper hplain hcapital =>
      refine .decimal fun mark hmark => ?_
      rintro ⟨rest, rfl⟩
      simp only [hexMarks, List.mem_cons, List.not_mem_nil, or_false] at hmark
      rcases hmark with rfl | rfl | rfl | rfl
      · exact hlower rest rfl
      · exact hupper rest rfl
      · exact hplain rest rfl
      · exact hcapital rest rfl

theorem Marked.splitRadix_eq {text rest : List Char} {radix : Nat}
    (hmarked : Marked text radix rest) : splitRadix text = (radix, rest) := by
  cases hmarked with
  | hex mark rest hmark =>
      revert mark
      simp [hexMarks, splitRadix]
  | decimal hnone =>
      fun_cases splitRadix text with
      | case1 rest => exact absurd ⟨rest, rfl⟩ (hnone ['0', 'x'] (by decide))
      | case2 rest => exact absurd ⟨rest, rfl⟩ (hnone ['0', 'X'] (by decide))
      | case3 rest => exact absurd ⟨rest, rfl⟩ (hnone ['x'] (by decide))
      | case4 rest => exact absurd ⟨rest, rfl⟩ (hnone ['X'] (by decide))
      | case5 => rfl

theorem Marked.radix_bounds {text rest : List Char} {radix : Nat}
    (hmarked : Marked text radix rest) : 0 < radix ∧ radix ≤ 16 := by
  cases hmarked <;> decide

/-- The text, and the text without the plus sign in front of it.  A sign alone is not taken off. -/
inductive Unsigned : List Char → List Char → Prop
  | plus (c : Char) (rest : List Char) : Unsigned ('+' :: c :: rest) (c :: rest)
  | plain {text : List Char} (hplain : ∀ c rest, text ≠ '+' :: c :: rest) : Unsigned text text

theorem exists_unsigned (text : List Char) : ∃ digits, Unsigned text digits := by
  by_cases hplus : ∃ c rest, text = '+' :: c :: rest
  · obtain ⟨c, rest, rfl⟩ := hplus
    exact ⟨c :: rest, .plus c rest⟩
  · exact ⟨text, .plain fun c rest htext => hplus ⟨c, rest, htext⟩⟩

theorem Unsigned.unique {text digits digits' : List Char} (hdigits : Unsigned text digits)
    (hdigits' : Unsigned text digits') : digits = digits' := by
  cases hdigits with
  | plus c rest =>
      cases hdigits' with
      | plus => rfl
      | plain hplain => exact absurd rfl (hplain c rest)
  | plain hplain =>
      cases hdigits' with
      | plus c rest => exact absurd rfl (hplain c rest)
      | plain => rfl

theorem Unsigned.eq_nil_iff {text digits : List Char} (hdigits : Unsigned text digits) :
    digits = [] ↔ text = [] := by
  cases hdigits <;> simp

theorem Unsigned.readNumber_eq {text digits : List Char} (hdigits : Unsigned text digits)
    (radix : Nat) (hne : text ≠ []) : readNumber radix text = readDigits radix 0 digits := by
  cases hdigits with
  | plus c rest => rfl
  | plain hplain =>
      fun_cases readNumber radix text with
      | case1 => exact absurd rfl hne
      | case2 c rest => exact absurd rfl (hplain c rest)
      | case3 => rfl

section Digits

variable {radix before : Nat} {c : Char} {rest text : List Char}

theorem readDigits_cons_of_isDigit (hradix : radix ≤ 16) {digit : Nat}
    (hdigit : IsDigit radix c digit) :
    readDigits radix before (c :: rest) =
      if memorySize ≤ digit + radix * before then .error .tooLarge
      else readDigits radix (digit + radix * before) rest := by
  rw [readDigits, (digit?_eq_some_iff hradix).mpr hdigit, Nat.mul_comm radix before,
    Nat.add_comm digit]

theorem readDigits_cons_of_not_isDigit (hradix : radix ≤ 16)
    (hnone : ¬ ∃ digit, IsDigit radix c digit) :
    readDigits radix before (c :: rest) = .error .invalidDigit := by
  have hdigit : digit? radix c = none := by
    rw [Option.eq_none_iff_forall_ne_some]
    intro digit hsome
    exact hnone ⟨digit, (digit?_eq_some_iff hradix).mp hsome⟩
  rw [readDigits, hdigit]

theorem readDigits_ne_empty : readDigits radix before text ≠ .error .empty := by
  fun_induction readDigits radix before text with
  | case1 => simp
  | case2 => simp
  | case3 => simp
  | case4 before c rest digit hdigit value hsmall ih => exact ih

/-- Digits are read to the end if the number they denote is not too large. -/
theorem readDigits_eq_ok_iff (hpos : 0 < radix) (hradix : radix ≤ 16)
    (hbefore : before < memorySize) {value : Nat} :
    readDigits radix before text = .ok value ↔
      DenotesAfter radix before text value ∧ value < memorySize := by
  induction text generalizing before with
  | nil =>
      rw [readDigits, denotesAfter_nil, Except.ok.injEq]
      constructor
      · rintro rfl
        exact ⟨rfl, hbefore⟩
      · exact And.left
  | cons c rest ih =>
      by_cases hdigit : ∃ digit, IsDigit radix c digit
      · obtain ⟨digit, hdigit⟩ := hdigit
        rw [readDigits_cons_of_isDigit hradix hdigit, denotesAfter_cons,
          hdigit.exists_iff hradix]
        split
        · -- What is too large already stays so, whatever digits follow.
          rename_i hlarge
          simp only [reduceCtorEq, false_iff]
          rintro ⟨hdenotes, hlt⟩
          exact absurd hlt (Nat.not_lt.mpr (hlarge.trans (hdenotes.le hpos)))
        · rename_i hsmall
          exact ih (Nat.lt_of_not_le hsmall)
      · rw [readDigits_cons_of_not_isDigit hradix hdigit, denotesAfter_cons]
        simp only [reduceCtorEq, false_iff]
        rintro ⟨⟨digit, hsome, -⟩, -⟩
        exact hdigit ⟨digit, hsome⟩

/-- Some of the first digits of `text` denote, after digits that denote `before`, a number that is
no address. -/
def OverflowsAfter (radix before : Nat) (text : List Char) : Prop :=
  ∃ taken value, taken <+: text ∧ DenotesAfter radix before taken value ∧ memorySize ≤ value

theorem overflowsAfter_of_le (hlarge : memorySize ≤ before) : OverflowsAfter radix before text :=
  ⟨[], before, List.nil_prefix, denotesAfter_nil.mpr rfl, hlarge⟩

theorem not_overflowsAfter_nil (hbefore : before < memorySize) :
    ¬ OverflowsAfter radix before [] := by
  rintro ⟨taken, value, htaken, hdenotes, hlarge⟩
  rw [List.prefix_nil.mp htaken, denotesAfter_nil] at hdenotes
  omega

theorem overflowsAfter_cons_iff (hbefore : before < memorySize) :
    OverflowsAfter radix before (c :: rest) ↔ ∃ digit, IsDigit radix c digit ∧
      OverflowsAfter radix (digit + radix * before) rest := by
  constructor
  · rintro ⟨taken, value, htaken, hdenotes, hlarge⟩
    rcases List.prefix_cons_iff.mp htaken with rfl | ⟨others, rfl, hothers⟩
    · -- No digit was taken, so the number is still the one before.
      rw [denotesAfter_nil] at hdenotes
      omega
    · obtain ⟨digit, hdigit, hrest⟩ := denotesAfter_cons.mp hdenotes
      exact ⟨digit, hdigit, others, value, hothers, hrest, hlarge⟩
  · rintro ⟨digit, hdigit, taken, value, htaken, hrest, hlarge⟩
    exact ⟨c :: taken, value, List.cons_prefix_cons.mpr ⟨rfl, htaken⟩,
      denotesAfter_cons.mpr ⟨digit, hdigit, hrest⟩, hlarge⟩

/-- Reading stops at the first digits that denote too large a number. -/
theorem readDigits_eq_tooLarge_iff (hradix : radix ≤ 16) (hbefore : before < memorySize) :
    readDigits radix before text = .error .tooLarge ↔ OverflowsAfter radix before text := by
  induction text generalizing before with
  | nil => simp [readDigits, not_overflowsAfter_nil hbefore]
  | cons c rest ih =>
      rw [overflowsAfter_cons_iff hbefore]
      by_cases hdigit : ∃ digit, IsDigit radix c digit
      · obtain ⟨digit, hdigit⟩ := hdigit
        rw [readDigits_cons_of_isDigit hradix hdigit, hdigit.exists_iff hradix]
        split
        · rename_i hlarge
          exact iff_of_true rfl (overflowsAfter_of_le hlarge)
        · rename_i hsmall
          exact ih (Nat.lt_of_not_le hsmall)
      · rw [readDigits_cons_of_not_isDigit hradix hdigit]
        simp only [Except.error.injEq, reduceCtorEq, false_iff]
        rintro ⟨digit, hsome, -⟩
        exact hdigit ⟨digit, hsome⟩

end Digits

/-- The parts of a text that may be an address. -/
@[ext]
structure Parts where
  /-- The text without the white space around it. -/
  trimmed : List Char
  radix : Nat
  /-- The text after the radix mark. -/
  body : List Char
  /-- The text after the sign. -/
  digits : List Char

namespace Parts

structure Of (text : String) (parts : Parts) : Prop where
  trimmed : Text.Trimmed text.toList parts.trimmed
  marked : Marked parts.trimmed parts.radix parts.body
  unsigned : Unsigned parts.body parts.digits

/-- The digits are there and denote the address `value`. -/
def Denotes (parts : Parts) (value : Nat) : Prop :=
  parts.digits ≠ [] ∧ Numeral.Denotes parts.radix parts.digits value ∧ value ≤ 65535

/-- Some of the first digits denote a number that is no address. -/
def Overflows (parts : Parts) : Prop :=
  ∃ taken value, taken <+: parts.digits ∧ Numeral.Denotes parts.radix taken value ∧
    65535 < value

variable {text : String} {parts : Parts}

theorem Of.unique (hparts : Of text parts) {parts' : Parts} (hparts' : Of text parts') :
    parts = parts' := by
  have htrimmed : parts.trimmed = parts'.trimmed :=
    hparts.trimmed.trim_eq.symm.trans hparts'.trimmed.trim_eq
  have hsplit : (parts.radix, parts.body) = (parts'.radix, parts'.body) := by
    rw [← hparts.marked.splitRadix_eq, ← hparts'.marked.splitRadix_eq, htrimmed]
  obtain ⟨hradix, hbody⟩ := Prod.mk.inj hsplit
  have hunsigned := hparts.unsigned
  rw [hbody] at hunsigned
  exact Parts.ext htrimmed hradix hbody (hunsigned.unique hparts'.unsigned)

theorem existsUnique_of (text : String) : ∃! parts, Of text parts := by
  have hmarked := marked_splitRadix (Text.trim text.toList)
  obtain ⟨digits, hdigits⟩ := exists_unsigned (splitRadix (Text.trim text.toList)).2
  have hparts : Of text ⟨_, _, _, digits⟩ := ⟨Text.trimmed_trim _, hmarked, hdigits⟩
  exact ⟨_, hparts, fun parts' hparts' => hparts'.unique hparts⟩

theorem Of.parse_eq (hparts : Of text parts) :
    parse text =
      ((readNumber parts.radix parts.body).map (BitVec.ofNat 16)).mapError
        fun cause => ⟨String.ofList parts.trimmed, cause⟩ := by
  simp only [parse, hparts.trimmed.trim_eq, hparts.marked.splitRadix_eq]
  cases readNumber parts.radix parts.body <;> rfl

theorem Of.readNumber_eq_ok_iff (hparts : Of text parts) {value : Nat} :
    readNumber parts.radix parts.body = .ok value ↔ parts.Denotes value := by
  obtain ⟨hpos, hradix⟩ := hparts.marked.radix_bounds
  rw [Denotes, ne_eq, hparts.unsigned.eq_nil_iff]
  by_cases hempty : parts.body = []
  · simp [hempty, readNumber]
  · rw [hparts.unsigned.readNumber_eq parts.radix hempty, denotes_iff,
      readDigits_eq_ok_iff hpos hradix (by decide)]
    constructor
    · rintro ⟨hdenotes, hlt⟩
      exact ⟨hempty, hdenotes, Nat.le_of_lt_succ hlt⟩
    · rintro ⟨-, hdenotes, hle⟩
      exact ⟨hdenotes, Nat.lt_succ_of_le hle⟩

theorem Of.readNumber_eq_empty_iff (hparts : Of text parts) :
    readNumber parts.radix parts.body = .error .empty ↔ parts.body = [] := by
  by_cases hempty : parts.body = []
  · simp [hempty, readNumber]
  · rw [hparts.unsigned.readNumber_eq parts.radix hempty]
    exact iff_of_false readDigits_ne_empty hempty

theorem Of.readNumber_eq_tooLarge_iff (hparts : Of text parts) :
    readNumber parts.radix parts.body = .error .tooLarge ↔ parts.Overflows := by
  obtain ⟨-, hradix⟩ := hparts.marked.radix_bounds
  have hoverflows : parts.Overflows ↔ OverflowsAfter parts.radix 0 parts.digits := by
    simp only [Overflows, OverflowsAfter, denotes_iff, memorySize]
    rfl
  rw [hoverflows]
  by_cases hempty : parts.body = []
  · rw [hparts.unsigned.eq_nil_iff.mpr hempty, hempty, readNumber]
    exact iff_of_false (by simp) (not_overflowsAfter_nil (by decide))
  · rw [hparts.unsigned.readNumber_eq parts.radix hempty]
    exact readDigits_eq_tooLarge_iff hradix (by decide)

theorem Of.parse_eq_ok_iff (hparts : Of text parts) {address : Address} :
    parse text = .ok address ↔ parts.Denotes address.toNat := by
  rw [hparts.parse_eq, ← hparts.readNumber_eq_ok_iff]
  cases hread : readNumber parts.radix parts.body with
  | error cause => simp [Except.map, Except.mapError]
  | ok value =>
      have hle : value ≤ 65535 := (hparts.readNumber_eq_ok_iff.mp hread).2.2
      simp only [Except.map, Except.mapError, Except.ok.injEq, ← BitVec.toNat_inj,
        BitVec.toNat_ofNat]
      omega

theorem Of.parse_eq_error_iff (hparts : Of text parts) {error : AddressError} :
    parse text = .error error ↔
      readNumber parts.radix parts.body = .error error.cause ∧
        error.text = String.ofList parts.trimmed := by
  rw [hparts.parse_eq]
  cases readNumber parts.radix parts.body with
  | ok value => simp [Except.map, Except.mapError]
  | error cause =>
      obtain ⟨shown, cause'⟩ := error
      simp only [Except.map, Except.mapError, Except.error.injEq, AddressError.mk.injEq]
      rw [eq_comm, and_comm]

theorem Of.parse_eq_cause_iff (hparts : Of text parts) {cause : DigitError} :
    parse text = .error ⟨String.ofList parts.trimmed, cause⟩ ↔
      readNumber parts.radix parts.body = .error cause := by
  rw [hparts.parse_eq_error_iff, and_iff_left rfl]

end Parts

/-- Addresses are read by the grammar.  Every text has its parts, and they are the only ones.  It is
read as an address exactly if its digits denote one, whatever zeros stand in front of them.  If not,
the cause says whether there is nothing after the radix mark, whether digits from the first on
denote too large a number, or whether neither is so and a character is no digit. -/
theorem addresses_are_read_by_the_grammar (text : String) :
    (∃! parts, Parts.Of text parts) ∧
    ∀ parts, Parts.Of text parts →
      (∀ value, (∃ address, parse text = .ok address ∧ address.toNat = value) ↔
        parts.Denotes value) ∧
      (∀ zeros rest, parts.digits = List.replicate zeros '0' ++ rest → ∀ value,
        Numeral.Denotes parts.radix parts.digits value ↔
          Numeral.Denotes parts.radix rest value) ∧
      (∀ error, parse text = .error error → error.text = String.ofList parts.trimmed) ∧
      (parse text = .error ⟨String.ofList parts.trimmed, .empty⟩ ↔ parts.body = []) ∧
      (parse text = .error ⟨String.ofList parts.trimmed, .tooLarge⟩ ↔ parts.Overflows) ∧
      (parse text = .error ⟨String.ofList parts.trimmed, .invalidDigit⟩ ↔
        (∀ value, ¬ parts.Denotes value) ∧ parts.body ≠ [] ∧ ¬ parts.Overflows) := by
  refine ⟨Parts.existsUnique_of text, fun parts hparts => ?_⟩
  obtain ⟨hpos, hradix⟩ := hparts.marked.radix_bounds
  refine ⟨fun value => ?_, ?_, fun error herror => (hparts.parse_eq_error_iff.mp herror).2,
    ?_, ?_, ?_⟩
  · constructor
    · rintro ⟨address, hparse, rfl⟩
      exact hparts.parse_eq_ok_iff.mp hparse
    · intro hdenotes
      have hvalue : (BitVec.ofNat 16 value).toNat = value :=
        Nat.mod_eq_of_lt (Nat.lt_succ_of_le hdenotes.2.2)
      exact ⟨_, hparts.parse_eq_ok_iff.mpr (by rwa [hvalue]), hvalue⟩
  · intro zeros rest hdigits value
    rw [hdigits]
    exact denotes_replicate_zero hpos hradix zeros
  · rw [hparts.parse_eq_cause_iff, hparts.readNumber_eq_empty_iff]
  · rw [hparts.parse_eq_cause_iff, hparts.readNumber_eq_tooLarge_iff]
  · rw [hparts.parse_eq_cause_iff, ne_eq, ← hparts.readNumber_eq_empty_iff,
      ← hparts.readNumber_eq_tooLarge_iff]
    simp only [← hparts.readNumber_eq_ok_iff]
    -- One of the four outcomes comes about, so this one does if the others do not.
    cases readNumber parts.radix parts.body with
    | ok value => simp
    | error cause => cases cause <;> simp

/-- White space that is not ASCII, a mark, a sign after it, zeros and letters of either case are
read as the last address.  A number past it is too large even if what comes after is no digit. -/
theorem last_address_and_one_past_it :
    let text := "\u3000 0X+00fFfF\t"
    let parts : Parts := ⟨"0X+00fFfF".toList, 16, "+00fFfF".toList, "00fFfF".toList⟩
    let past := "65536z"
    let pastParts : Parts := ⟨past.toList, 10, past.toList, past.toList⟩
    Parts.Of text parts ∧
      (∃ address, parse text = .ok address ∧ address.toNat = 65535) ∧
      Parts.Of past pastParts ∧
      parse past = .error ⟨String.ofList past.toList, .tooLarge⟩ := by
  intro text parts past pastParts
  have hparts : Parts.Of text parts :=
    ⟨Text.trimmed_iff.mpr (by decide), .hex ['0', 'X'] _ (by decide), .plus '0' _⟩
  have hpastParts : Parts.Of past pastParts :=
    ⟨Text.trimmed_iff.mpr (by decide), .decimal (by decide), .plain (by simp [pastParts, past])⟩
  have hdenotes : parts.Denotes 65535 :=
    ⟨by decide, ⟨[0, 0, 15, 15, 15, 15], by simp [parts, IsDigit]; decide, by decide⟩, by decide⟩
  have hoverflows : pastParts.Overflows :=
    ⟨"65536".toList, 65536, ⟨['z'], by decide⟩,
      ⟨[6, 5, 5, 3, 6], by simp [IsDigit]; decide, by decide⟩, by decide⟩
  obtain ⟨-, htext⟩ := addresses_are_read_by_the_grammar text
  obtain ⟨-, hpast⟩ := addresses_are_read_by_the_grammar past
  obtain ⟨haccepted, -⟩ := htext parts hparts
  obtain ⟨-, -, -, -, hlarge, -⟩ := hpast pastParts hpastParts
  exact ⟨hparts, (haccepted 65535).mpr hdenotes, hpastParts, hlarge.mpr hoverflows⟩

end LittleComputer.Address
