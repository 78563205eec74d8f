import LittleComputer.Proofs.Bits.Ranges
import LittleComputer.Proofs.Text.Numeral

/-!
Binary numerals in parts.  The parts are read as the one text that they make up.  As long as a text
of binary digits fits into 32 bits, the word that is read is the number the text denotes; the first
character that is no digit, or that is one digit too many, ends the reading.  So the digits of the
fields that a word is cut into give the word back.
-/
namespace LittleComputer.Bits

open Numeral

def IsBit (c : Char) : Prop :=
  c = '0' ∨ c = '1'

instance : DecidablePred IsBit := fun c =>
  inferInstanceAs (Decidable (c = '0' ∨ c = '1'))

theorem isDigit_two_iff {c : Char} {digit : Nat} :
    IsDigit 2 c digit ↔ (c = '0' ∧ digit = 0) ∨ (c = '1' ∧ digit = 1) := by
  constructor
  · rintro ⟨hlt, hc⟩
    rcases Nat.le_one_iff_eq_zero_or_eq_one.mp (Nat.le_of_lt_succ hlt) with rfl | rfl
    · exact .inl ⟨hc.elim id id, rfl⟩
    · exact .inr ⟨hc.elim id id, rfl⟩
  · rintro (⟨rfl, rfl⟩ | ⟨rfl, rfl⟩)
    · exact isDigit_digitChar (by decide)
    · exact isDigit_digitChar (by decide)

theorem isBit_iff {c : Char} : IsBit c ↔ ∃ digit, IsDigit 2 c digit := by
  simp [IsBit, isDigit_two_iff, exists_or]

theorem binaryDigit?_of_isDigit {c : Char} {digit : Nat} (hdigit : IsDigit 2 c digit) :
    binaryDigit? c = some digit := by
  rcases isDigit_two_iff.mp hdigit with ⟨rfl, rfl⟩ | ⟨rfl, rfl⟩ <;> rfl

theorem binaryDigit?_of_not_isBit {c : Char} (hc : ¬ IsBit c) : binaryDigit? c = none := by
  obtain ⟨hzero, hone⟩ := not_or.mp hc
  rw [binaryDigit?, if_neg hzero, if_neg hone]

/-- A digit that is shifted into a word pushes no bit out of it while the highest one is unset. -/
theorem toNat_shiftLeft_or {word : BitVec 32} {digit : Nat} (hword : word.toNat < 2 ^ 31)
    (hdigit : digit < 2) :
    (word <<< 1 ||| BitVec.ofNat 32 digit).toNat = digit + 2 * word.toNat := by
  have hshift : (word <<< 1).toNat = word.toNat <<< 1 := by
    rw [BitVec.toNat_shiftLeft, Nat.shiftLeft_eq]
    exact Nat.mod_eq_of_lt (by omega)
  have hbit : (BitVec.ofNat 32 digit).toNat = digit :=
    Nat.mod_eq_of_lt (by omega)
  rw [BitVec.toNat_or, hshift, hbit, ← Nat.shiftLeft_add_eq_or_of_lt (by omega : digit < 2 ^ 1),
    Nat.shiftLeft_eq, Nat.pow_one, Nat.mul_comm, Nat.add_comm]

namespace Reading

/-- What is read is `text`: its characters are counted, and the word is the number it denotes. -/
structure Holds (reading : Reading) (text : List Char) : Prop where
  length_eq : reading.length = text.length
  length_le : text.length ≤ 32
  denotes : Denotes 2 text reading.word.toNat

theorem holds_start : start.Holds [] :=
  ⟨rfl, Nat.zero_le 32, denotes_nil⟩

variable {reading : Reading} {text : List Char} {c : Char}

theorem readDigit_of_not_isBit (hc : ¬ IsBit c) : reading.readDigit c = .error (.badDigit c) := by
  rw [readDigit, binaryDigit?_of_not_isBit hc]

theorem Holds.readDigit_of_full (hholds : reading.Holds text) (hfull : text.length = 32)
    (hc : IsBit c) : reading.readDigit c = .error (.tooWide 33) := by
  obtain ⟨digit, hdigit⟩ := isBit_iff.mp hc
  have hlength : reading.length = 32 := hholds.length_eq.trans hfull
  simp only [readDigit, binaryDigit?_of_isDigit hdigit, hlength, le_refl, if_true]

/-- One more digit is read while there is room for it. -/
theorem Holds.exists_readDigit (hholds : reading.Holds text) (hroom : text.length < 32)
    (hc : IsBit c) : ∃ next, reading.readDigit c = .ok next ∧ next.Holds (text ++ [c]) := by
  obtain ⟨digit, hdigit⟩ := isBit_iff.mp hc
  have hlength : ¬ 32 ≤ reading.length := by
    rw [hholds.length_eq]
    omega
  have hword : reading.word.toNat < 2 ^ 31 :=
    (hholds.denotes.lt (by decide)).trans_le (Nat.pow_le_pow_right (by decide) (by omega))
  refine ⟨⟨reading.length + 1, reading.word <<< 1 ||| BitVec.ofNat 32 digit⟩, ?_, ?_, ?_, ?_⟩
  · simp only [readDigit, binaryDigit?_of_isDigit hdigit, if_neg hlength]
  · rw [List.length_append, List.length_singleton, hholds.length_eq]
  · rw [List.length_append, List.length_singleton]
    exact hroom
  · rw [toNat_shiftLeft_or hword hdigit.1]
    exact hholds.denotes.concat hdigit

/-- Digits are read to their end while there is room for them. -/
theorem Holds.exists_foldlM {before rest : List Char} (hholds : reading.Holds before)
    (hroom : (before ++ rest).length ≤ 32) (hbits : ∀ c ∈ rest, IsBit c) :
    ∃ last, rest.foldlM readDigit reading = .ok last ∧ last.Holds (before ++ rest) := by
  -- Each step moves a character from what is still to be read to what is read, so both vary.
  induction rest generalizing reading before with
  | nil =>
      rw [List.append_nil]
      exact ⟨reading, rfl, hholds⟩
  | cons c rest ih =>
      rw [List.forall_mem_cons] at hbits
      rw [List.append_cons] at hroom ⊢
      have hlt : before.length < 32 := by
        rw [List.length_append, List.length_append, List.length_singleton] at hroom
        omega
      obtain ⟨next, hnext, hnextHolds⟩ := hholds.exists_readDigit hlt hbits.1
      rw [List.foldlM_cons, hnext]
      exact ih hnextHolds hroom hbits.2

theorem exists_foldlM_start (hroom : text.length ≤ 32) (hbits : ∀ c ∈ text, IsBit c) :
    ∃ last, text.foldlM readDigit start = .ok last ∧ last.Holds text :=
  holds_start.exists_foldlM hroom hbits

/-- Reading ends at the first character that is refused after the digits in front of it. -/
theorem foldlM_of_refused {first after : List Char} {e : BinaryError}
    (hroom : first.length ≤ 32) (hbits : ∀ d ∈ first, IsBit d)
    (hrefused : ∀ reading : Reading, reading.Holds first → reading.readDigit c = .error e) :
    (first ++ c :: after).foldlM readDigit start = .error e := by
  obtain ⟨last, hlast, hholds⟩ := exists_foldlM_start hroom hbits
  rw [List.foldlM_append, hlast]
  change (c :: after).foldlM readDigit last = .error e
  rw [List.foldlM_cons, hrefused last hholds]
  rfl

theorem foldlM_of_badDigit (hfind : (text.take 33).find? (fun c => ¬ IsBit c) = some c) :
    text.foldlM readDigit start = .error (.badDigit c) := by
  obtain ⟨hc, first, after, htake, hfirst⟩ := List.find?_eq_some_iff_append.mp hfind
  have hroom : first.length ≤ 32 := by
    have hlength := List.length_take_le 33 text
    rw [htake, List.length_append, List.length_cons] at hlength
    omega
  have htext : text = first ++ c :: (after ++ text.drop 33) := by
    rw [← List.cons_append, ← List.append_assoc, ← htake, List.take_append_drop]
  rw [htext]
  exact foldlM_of_refused hroom (by simpa using hfirst) fun _ _ =>
    readDigit_of_not_isBit (by simpa using hc)

theorem foldlM_of_tooWide (hwide : 32 < text.length) (hbits : ∀ c ∈ text.take 33, IsBit c) :
    text.foldlM readDigit start = .error (.tooWide 33) := by
  rw [List.take_succ_eq_append_getElem hwide, List.forall_mem_append,
    List.forall_mem_singleton] at hbits
  have hfull : (text.take 32).length = 32 := List.length_take_of_le hwide.le
  have htext : text = text.take 32 ++ text[32] :: text.drop 33 := by
    rw [← List.drop_eq_getElem_cons, List.take_append_drop]
  rw [htext]
  exact foldlM_of_refused hfull.le hbits.1 fun reading hholds =>
    hholds.readDigit_of_full hfull hbits.2

/-- Part after part is read like one text. -/
theorem foldlM_readPart (parts : List String) (reading : Reading) :
    parts.foldlM readPart reading = (String.join parts).toList.foldlM readDigit reading := by
  induction parts generalizing reading with
  | nil =>
      rw [String.join_nil]
      rfl
  | cons part rest ih =>
      rw [List.foldlM_cons, String.join_cons, String.toList_append, List.foldlM_append]
      simp only [ih]
      rfl

end Reading

theorem find?_not_isBit_eq_none_iff {text : List Char} :
    text.find? (fun c => ¬ IsBit c) = none ↔ ∀ c ∈ text, IsBit c := by
  simp

/-- There are three ways for a reading to end: at a character that is no digit, at a digit too many,
and at the end of the text. -/
theorem ofBinary_cases (parts : List String) :
    let text := (String.join parts).toList
    (∃ c, (text.take 33).find? (fun c => ¬ IsBit c) = some c ∧
      ofBinary parts = .error (.badDigit c)) ∨
    (32 < text.length ∧ (∀ c ∈ text.take 33, IsBit c) ∧
      ofBinary parts = .error (.tooWide 33)) ∨
    (text.length ≤ 32 ∧ (∀ c ∈ text.take 33, IsBit c) ∧
      ∃ value, Denotes 2 text value ∧ ofBinary parts = .ok value) := by
  intro text
  rw [ofBinary, Reading.foldlM_readPart]
  cases hfind : (text.take 33).find? (fun c => ¬ IsBit c) with
  | some c =>
      refine .inl ⟨c, rfl, ?_⟩
      rw [Reading.foldlM_of_badDigit hfind]
      rfl
  | none =>
      have hbits := find?_not_isBit_eq_none_iff.mp hfind
      rcases Nat.lt_or_ge 32 text.length with hwide | hroom
      · refine .inr (.inl ⟨hwide, hbits, ?_⟩)
        rw [Reading.foldlM_of_tooWide hwide hbits]
        rfl
      · have htake : text.take 33 = text := List.take_of_length_le (by omega)
        obtain ⟨last, hlast, hholds⟩ := Reading.exists_foldlM_start hroom (htake ▸ hbits)
        refine .inr (.inr ⟨hroom, hbits, last.word.toNat, hholds.denotes, ?_⟩)
        rw [hlast]
        rfl

theorem ofBinary_eq_badDigit_iff {parts : List String} {c : Char} :
    ofBinary parts = .error (.badDigit c) ↔
      ((String.join parts).toList.take 33).find? (fun c => ¬ IsBit c) = some c := by
  rcases ofBinary_cases parts with ⟨d, hfind, hread⟩ | ⟨-, hbits, hread⟩ |
    ⟨-, hbits, value, -, hread⟩
  · rw [hread, hfind, Except.error.injEq, BinaryError.badDigit.injEq, Option.some.injEq]
  · rw [hread, find?_not_isBit_eq_none_iff.mpr hbits]
    simp
  · rw [hread, find?_not_isBit_eq_none_iff.mpr hbits]
    simp

theorem ofBinary_eq_tooWide_iff {parts : List String} {bits : Nat} :
    ofBinary parts = .error (.tooWide bits) ↔
      bits = 33 ∧ 32 < (String.join parts).toList.length ∧
        ∀ c ∈ (String.join parts).toList.take 33, IsBit c := by
  rcases ofBinary_cases parts with ⟨d, hfind, hread⟩ | ⟨hwide, hbits, hread⟩ |
    ⟨hroom, -, value, -, hread⟩
  · rw [hread, ← find?_not_isBit_eq_none_iff, hfind]
    simp
  · rw [hread, Except.error.injEq, BinaryError.tooWide.injEq, eq_comm]
    exact (and_iff_left ⟨hwide, hbits⟩).symm
  · rw [hread]
    simp only [reduceCtorEq, false_iff]
    rintro ⟨-, hwide, -⟩
    exact absurd hwide (Nat.not_lt.mpr hroom)

theorem ofBinary_eq_ok_iff {parts : List String} {value : Nat} :
    ofBinary parts = .ok value ↔
      (String.join parts).toList.length ≤ 32 ∧
        Denotes 2 (String.join parts).toList value := by
  rcases ofBinary_cases parts with ⟨d, hfind, hread⟩ | ⟨hwide, -, hread⟩ |
    ⟨hroom, -, other, hother, hread⟩
  · rw [hread]
    simp only [reduceCtorEq, false_iff]
    rintro ⟨-, hdenotes⟩
    -- The refused character would be a digit of the number.
    have hmem := List.mem_of_mem_take (List.mem_of_find?_eq_some hfind)
    have hbit := isBit_iff.mpr (hdenotes.exists_isDigit d hmem)
    simpa [hbit] using List.find?_some hfind
  · rw [hread]
    simp only [reduceCtorEq, false_iff]
    rintro ⟨hroom, -⟩
    exact absurd hwide (Nat.not_lt.mpr hroom)
  · rw [hread, Except.ok.injEq]
    constructor
    · rintro rfl
      exact ⟨hroom, hother⟩
    · rintro ⟨-, hdenotes⟩
      exact hother.unique (by decide) hdenotes

theorem ofBinary_eq_of_join_eq {parts other : List String}
    (hjoin : String.join other = String.join parts) : ofBinary other = ofBinary parts := by
  rw [ofBinary, ofBinary, Reading.foldlM_readPart, Reading.foldlM_readPart, hjoin]

section Fields

variable {n : Nat}

/-- The binary digits of fields with the given widths, which are given lowest first and written
highest first. -/
def fieldDigits (widths : List Nat) (fields : List (BitVec n)) : List String :=
  (List.zipWith (fun width field => String.ofList (padded 2 width field.toNat))
    widths fields).reverse

theorem toList_join_fieldDigits_cons (width : Nat) (field : BitVec n) (widths : List Nat)
    (fields : List (BitVec n)) :
    (String.join (fieldDigits (width :: widths) (field :: fields))).toList =
      (String.join (fieldDigits widths fields)).toList ++ padded 2 width field.toNat := by
  simp [fieldDigits]

/-- The digits of fields are as many as their bits, and denote the number that the fields make
up. -/
theorem denotes_fieldDigits {widths : List Nat} {fields : List (BitVec n)}
    (hpos : ∀ width ∈ widths, 0 < width)
    (hlt : List.Forall₂ (fun width field => field.toNat < 2 ^ width) widths fields) :
    (String.join (fieldDigits widths fields)).toList.length = widths.sum ∧
      Denotes 2 (String.join (fieldDigits widths fields)).toList (joined widths fields) := by
  induction hlt with
  | nil => exact ⟨rfl, denotes_nil⟩
  | @cons width field widths fields hfield _ ih =>
      rw [List.forall_mem_cons] at hpos
      obtain ⟨hlength, hdenotes⟩ := ih hpos.2
      have hpadded : (padded 2 width field.toNat).length = width :=
        length_padded (by decide) hpos.1 hfield
      have hvalue := hdenotes.append (denotes_padded (by decide) (by decide) width field.toNat)
      rw [hpadded] at hvalue
      rw [toList_join_fieldDigits_cons]
      refine ⟨?_, hvalue⟩
      rw [List.length_append, hlength, hpadded, List.sum_cons, Nat.add_comm]

end Fields

/-- Parts are read as the text that they make up, however it is divided.  The first of its first 33
characters that is no binary digit is refused; if there is none, a text of more than 32 characters
is too wide, and any other text is read as the number that it denotes.  So a word is read from the
digits of the fields it is cut into. -/
theorem parts_are_read_as_one_numeral :
    (∀ parts : List String,
      let text := (String.join parts).toList
      (∀ other, String.join other = String.join parts → ofBinary other = ofBinary parts) ∧
      (∀ c, ofBinary parts = .error (.badDigit c) ↔
        (text.take 33).find? (fun c => ¬ IsBit c) = some c) ∧
      (∀ bits, ofBinary parts = .error (.tooWide bits) ↔
        bits = 33 ∧ 32 < text.length ∧ ∀ c ∈ text.take 33, IsBit c) ∧
      (∀ value, ofBinary parts = .ok value ↔ text.length ≤ 32 ∧ Denotes 2 text value) ∧
      ((∀ c ∈ text.take 33, IsBit c) → text.length ≤ 32 → ∃ value, ofBinary parts = .ok value)) ∧
    ∀ (word : Word) (widths : List Nat), (∀ width ∈ widths, 0 < width) → widths.sum = 16 →
      ∃ fields, cut word 0 widths = .ok fields ∧
        ofBinary (fieldDigits widths fields) = .ok word.toNat := by
  constructor
  · intro parts
    refine ⟨?_, ?_, ?_, ?_, ?_⟩
    · intro other hjoin
      exact ofBinary_eq_of_join_eq hjoin
    · intro c
      exact ofBinary_eq_badDigit_iff
    · intro bits
      exact ofBinary_eq_tooWide_iff
    · intro value
      exact ofBinary_eq_ok_iff
    · intro hbits hroom
      rcases ofBinary_cases parts with ⟨c, hfind, -⟩ | ⟨hwide, -, -⟩ | ⟨-, -, value, -, hread⟩
      · rw [find?_not_isBit_eq_none_iff.mpr hbits] at hfind
        cases hfind
      · exact absurd hwide (Nat.not_lt.mpr hroom)
      · exact ⟨value, hread⟩
  · intro word widths hpos hsum
    have hinside : 0 + widths.sum ≤ 16 := by omega
    obtain ⟨fields, hcut, hjoined⟩ := exists_cut word hpos hinside
    obtain ⟨hlength, hdenotes⟩ := denotes_fieldDigits hpos (toNat_lt_of_cut hpos hinside hcut)
    have hword : joined widths fields = word.toNat := by
      rw [hjoined, hsum, Nat.pow_zero, Nat.div_one, Nat.mod_eq_of_lt word.isLt]
    refine ⟨fields, hcut, ofBinary_eq_ok_iff.mpr ⟨by omega, ?_⟩⟩
    rw [← hword]
    exact hdenotes

/-- After 32 digits a character is still judged before it is counted, wherever the parts end.  A
branch is read from its fields. -/
theorem thirty_third_character_is_judged :
    let ones := String.ofList (List.replicate 32 '1')
    ofBinary [ones, "", "x1"] = .error (.badDigit 'x') ∧
      ofBinary [ones ++ "x", "1"] = ofBinary [ones, "", "x1"] ∧
      ofBinary [ones, "1x"] = .error (.tooWide 33) ∧
      (∃ value, ofBinary [ones] = .ok value) ∧
      ∃ fields, cut 0x0E03#16 0 [9, 3, 4] = .ok fields ∧
        ofBinary (fieldDigits [9, 3, 4] fields) = .ok 0x0E03 := by
  intro ones
  have hdigits : (String.join [ones]).toList = List.replicate 32 '1' := by
    simp [ones]
  have hletter : (String.join [ones, "", "x1"]).toList = List.replicate 32 '1' ++ ['x', '1'] := by
    simp [ones]
  have hdigit : (String.join [ones, "1x"]).toList = List.replicate 32 '1' ++ ['1', 'x'] := by
    simp [ones]
  obtain ⟨hparts, hfields⟩ := parts_are_read_as_one_numeral
  obtain ⟨hsplit, hbad, -⟩ := hparts [ones, "", "x1"]
  obtain ⟨-, -, hwide, -⟩ := hparts [ones, "1x"]
  obtain ⟨-, -, -, -, hok⟩ := hparts [ones]
  rw [hletter] at hbad
  rw [hdigit] at hwide
  rw [hdigits] at hok
  exact ⟨(hbad 'x').mpr (by decide), hsplit _ (by simp [String.append_assoc]),
    (hwide 33).mpr ⟨rfl, by decide, find?_not_isBit_eq_none_iff.mp (by decide)⟩,
    hok (find?_not_isBit_eq_none_iff.mp (by decide)) (by decide),
    hfields 0x0E03#16 [9, 3, 4] (by decide) rfl⟩

end LittleComputer.Bits
