import LittleComputer.Json.Parser
import LittleComputer.Json.Printer
import Mathlib.Data.List.DropRight
import Mathlib.Data.List.TakeDrop

/-!
JSON text.  What the printer writes for a value is what the parser reads as that value, whatever
stands behind it: first for strings and numbers, then for values of any depth.
-/
namespace LittleComputer.Json

section Strings

/-- The characters that a string has a letter or a mark for behind a backslash. -/
def lettered : List Char :=
  ['\x22', '\\', '\x08', '\x0c', '\n', '\r', '\t']

/-- How a character of a string is scanned: controls without a letter go by their numbers. -/
def piece (c : Char) : Piece :=
  if c.toNat < 0x20 ∧ c ∉ lettered then .unit c.toNat else .char c

theorem padded_of_control : ∀ code < 0x20,
    Numeral.padded 16 4 code =
      ['0', '0', Nat.digitChar (code / 16), Nat.digitChar (code % 16)] := by
  decide

theorem codeUnit?_of_control : ∀ code < 0x20,
    codeUnit? '0' '0' (Nat.digitChar (code / 16)) (Nat.digitChar (code % 16)) = some code := by
  decide

theorem escapedChar_of_control {c : Char} (hcontrol : c.toNat < 0x20) (hletter : c ∉ lettered) :
    escapedChar c = ['\\', 'u', '0', '0', Nat.digitChar (c.toNat / 16),
      Nat.digitChar (c.toNat % 16)] := by
  simp only [lettered, List.mem_cons, List.not_mem_nil, or_false, not_or] at hletter
  simp [escapedChar, hletter, hcontrol, padded_of_control]

theorem escapedChar_of_plain {c : Char} (hplain : ¬ c.toNat < 0x20) (hletter : c ∉ lettered) :
    escapedChar c = [c] := by
  simp only [lettered, List.mem_cons, List.not_mem_nil, or_false, not_or] at hletter
  simp [escapedChar, hletter, hplain]

/-- An escaped character is scanned as one piece. -/
theorem scanPieces_escapedChar (done : List Piece) (c : Char) (rest : List Char) :
    scanPieces done (escapedChar c ++ rest) = scanPieces (piece c :: done) rest := by
  -- A character has a letter, or is written by its number, or stands for itself.
  by_cases hletter : c ∈ lettered
  · simp only [lettered, List.mem_cons, List.not_mem_nil, or_false] at hletter
    rcases hletter with rfl | rfl | rfl | rfl | rfl | rfl | rfl <;> rfl
  · by_cases hcontrol : c.toNat < 0x20
    · rw [escapedChar_of_control hcontrol hletter, piece, if_pos ⟨hcontrol, hletter⟩]
      simp only [List.cons_append, List.nil_append, scanPieces,
        codeUnit?_of_control c.toNat hcontrol]
    · have hquote : c ≠ '\x22' := fun heq => hletter (heq ▸ by decide)
      have hbackslash : c ≠ '\\' := fun heq => hletter (heq ▸ by decide)
      rw [escapedChar_of_plain hcontrol hletter, piece, if_neg (fun h => hcontrol h.1),
        List.singleton_append]
      rw [scanPieces]
      · simp [hcontrol, hbackslash]
      all_goals simp_all

/-- A string literal is scanned up to its closing quote. -/
theorem scanPieces_quoted (done : List Piece) (text rest : List Char) :
    scanPieces done (text.flatMap escapedChar ++ '\x22' :: rest) =
      some (done.reverse ++ text.map piece, rest) := by
  induction text generalizing done with
  | nil => simp [scanPieces]
  | cons c text ih =>
      rw [List.flatMap_cons, List.append_assoc, scanPieces_escapedChar, ih]
      simp

/-- A code unit that is no half of a surrogate pair is a character by itself. -/
theorem joinPieces_unit {code : Nat} (hcode : code < 0xD800) (done : List Char)
    (pieces : List Piece) :
    joinPieces done (.unit code :: pieces) = joinPieces (Char.ofNat code :: done) pieces := by
  have hhigh : isHighSurrogate code = false := by simp [isHighSurrogate]; omega
  have hlow : isLowSurrogate code = false := by simp [isLowSurrogate]; omega
  cases pieces with
  | nil => simp [joinPieces, hhigh, hlow]
  | cons next pieces => cases next <;> simp [joinPieces, hhigh, hlow]

theorem joinPieces_map_piece (done text : List Char) :
    joinPieces done (text.map piece) = some (done.reverse ++ text) := by
  induction text generalizing done with
  | nil => simp [joinPieces]
  | cons c text ih =>
      have hstep : joinPieces done (piece c :: text.map piece) =
          joinPieces (c :: done) (text.map piece) := by
        rw [piece]
        split
        · rename_i hcontrol
          rw [joinPieces_unit (by omega), Char.ofNat_toNat]
        · rw [joinPieces]
      rw [List.map_cons, hstep, ih]
      simp

theorem textOfPieces_map_piece (text : List Char) :
    textOfPieces (text.map piece) = some (String.ofList text) := by
  rw [textOfPieces, joinPieces_map_piece]
  simp

end Strings

section Numbers

/-- Text that does not go on with a number. -/
def NumberEnds (rest : List Char) : Prop :=
  ∀ c ∈ rest.head?, c.isDigit = false ∧ c ≠ '.' ∧ c ≠ 'e' ∧ c ≠ 'E'

theorem fractionPart_of_numberEnds {rest : List Char} (hends : NumberEnds rest) :
    fractionPart rest = some (none, rest) := by
  cases rest with
  | nil => rfl
  | cons c rest =>
      have hpoint := (hends c rfl).2.1
      rw [fractionPart]
      intro rest' heq
      exact hpoint (List.cons.inj heq).1

theorem exponentPart_of_numberEnds {rest : List Char} (hends : NumberEnds rest) :
    exponentPart rest = some (none, rest) := by
  cases rest with
  | nil => rfl
  | cons c rest =>
      obtain ⟨-, -, hsmall, hlarge⟩ := hends c rfl
      rw [exponentPart]
      · intro rest' heq
        exact hsmall (List.cons.inj heq).1
      · intro rest' heq
        exact hlarge (List.cons.inj heq).1

theorem spanDigits_append {digits rest : List Char} (hdigits : ∀ c ∈ digits, c.isDigit = true)
    (hends : NumberEnds rest) : spanDigits (digits ++ rest) = (digits, rest) := by
  have hrest : rest.takeWhile Char.isDigit = [] ∧ rest.dropWhile Char.isDigit = rest := by
    cases rest with
    | nil => simp
    | cons c rest => simp [(hends c rfl).1]
  rw [spanDigits, List.span_eq_takeWhile_dropWhile, List.takeWhile_append_of_pos hdigits,
    List.dropWhile_append_of_pos hdigits, hrest.1, hrest.2, List.append_nil]

theorem toDigits_eq_cons (n : Nat) :
    ∃ c digits, Nat.toDigits 10 n = c :: digits ∧ c.isDigit = true := by
  have hsome : Nat.toDigits 10 n ≠ [] := Nat.toDigits_ne_nil
  obtain ⟨c, digits, hwritten⟩ := List.exists_cons_of_ne_nil hsome
  have hmem : c ∈ Nat.toDigits 10 n := by
    rw [hwritten]
    exact List.mem_cons_self
  exact ⟨c, digits, hwritten, Nat.isDigit_of_mem_toDigits (by decide) (by decide) hmem⟩

/-- Only zero is written with a zero in front. -/
theorem head?_toDigits {n : Nat} (hpos : 0 < n) : (Nat.toDigits 10 n).head? ≠ some '0' := by
  induction n using Nat.strongRecOn with
  | ind n ih =>
      by_cases hsmall : n < 10
      · have hdigit : ∀ n < 10, 0 < n → Nat.digitChar n ≠ '0' := by decide
        simpa [Nat.toDigits_of_lt_base hsmall] using hdigit n hsmall hpos
      · rw [Nat.toDigits_of_base_le (by decide) (by omega), List.head?_append]
        have hrest := ih (n / 10) (by omega) (by omega)
        cases hhead : (Nat.toDigits 10 (n / 10)).head? with
        | none => simp [Nat.toDigits_ne_nil] at hhead
        | some c => simpa [hhead] using hrest

theorem wholeDigits_toDigits (n : Nat) {rest : List Char} (hends : NumberEnds rest) :
    wholeDigits (Nat.toDigits 10 n ++ rest) = some (Nat.toDigits 10 n, rest) := by
  have hdigits : ∀ c ∈ Nat.toDigits 10 n, c.isDigit = true := fun c hc =>
    Nat.isDigit_of_mem_toDigits (by decide) (by decide) hc
  have hspan := spanDigits_append hdigits hends
  rw [wholeDigits, hspan]
  cases hwritten : Nat.toDigits 10 n with
  | nil => exact absurd hwritten Nat.toDigits_ne_nil
  | cons c digits =>
      cases digits with
      | nil => simp
      | cons d digits =>
          -- A zero in front of other digits would be refused.
          have hpos : 0 < n := by
            rcases Nat.eq_zero_or_pos n with rfl | hpos
            · simp at hwritten
            · exact hpos
          have hzero : c ≠ '0' := by simpa [hwritten] using head?_toDigits hpos
          simp [hzero]

theorem ofDigitChars_ge (digits : List Char) (start : Nat) :
    start ≤ Nat.ofDigitChars 10 digits start := by
  rw [Nat.ofDigitChars_eq_ofDigitChars_zero]
  have hpow : 1 ≤ 10 ^ digits.length := Nat.one_le_pow _ _ (by decide)
  exact Nat.le_trans (Nat.le_mul_of_pos_left start hpow) (Nat.le_add_right _ _)

/-- Digits are collected to the number that they stand for, as long as it is not too large. -/
theorem collectWhole_eq {digits : List Char} {start : Nat}
    (hmax : Nat.ofDigitChars 10 digits start ≤ Literal.maxSignificand) :
    Literal.collectWhole start digits = (Nat.ofDigitChars 10 digits start, 0) := by
  induction digits generalizing start with
  | nil => rfl
  | cons c digits ih =>
      have hlonger : start * 10 + Literal.digitValue c = 10 * start + (c.toNat - '0'.toNat) := by
        rw [Literal.digitValue, Nat.mul_comm]
      rw [Nat.ofDigitChars_cons] at hmax ⊢
      have hroom := Nat.le_trans (ofDigitChars_ge digits _) hmax
      rw [Literal.collectWhole, hlonger, if_pos hroom, ih hmax]

theorem collectWhole_toDigits {n : Nat} (hmax : n ≤ Literal.maxSignificand) :
    Literal.collectWhole 0 (Nat.toDigits 10 n) = (n, 0) := by
  have hvalue : Nat.ofDigitChars 10 (Nat.toDigits 10 n) 0 = n := Nat.ofDigitChars_ten_toDigits
  rw [collectWhole_eq (by rwa [hvalue]), hvalue]

/-- An integer that a signed or an unsigned word of sixty-four bits has room for. -/
def Fits (number : Int) : Prop :=
  -0x8000000000000000 ≤ number ∧ number ≤ 0xFFFFFFFFFFFFFFFF

/-- The digits of a number, with nothing behind them that belongs to it. -/
theorem parseParts_toDigits (n : Nat) {rest : List Char} (hends : NumberEnds rest)
    (negative : Bool) :
    (do
      let (whole, rest) ← wholeDigits (Nat.toDigits 10 n ++ rest)
      let (fraction, rest) ← fractionPart rest
      let (exponent, rest) ← exponentPart rest
      return (Literal.value ⟨negative, whole, fraction, exponent⟩, rest)) =
      some (Literal.value ⟨negative, Nat.toDigits 10 n, none, none⟩, rest) := by
  simp [wholeDigits_toDigits n hends, fractionPart_of_numberEnds hends,
    exponentPart_of_numberEnds hends]

/-- A decimal numeral is read as the integer that it was written for. -/
theorem parseNumber_decimal {number : Int} (hfits : Fits number) {rest : List Char}
    (hends : NumberEnds rest) :
    parseNumber ((Numeral.decimal number).toList ++ rest) = some (.int number, rest) := by
  obtain ⟨hlow, hhigh⟩ := hfits
  cases number with
  | ofNat n =>
      have hmax : n ≤ Literal.maxSignificand := by
        simp only [Literal.maxSignificand, Int.ofNat_eq_natCast] at hhigh ⊢
        omega
      have hvalue : Literal.value ⟨false, Nat.toDigits 10 n, none, none⟩ = .int n := by
        simp [Literal.value, collectWhole_toDigits hmax]
      rw [Numeral.decimal, String.toList_ofList, parseNumber]
      · exact (parseParts_toDigits n hends false).trans (by rw [hvalue]; rfl)
      · intro rest' heq
        obtain ⟨c, digits, hwritten, hdigit⟩ := toDigits_eq_cons n
        rw [hwritten, List.cons_append, List.cons.injEq] at heq
        rw [heq.1] at hdigit
        cases hdigit
  | negSucc n =>
      have hmax : n + 1 ≤ 0x8000000000000000 := by
        rw [Int.negSucc_eq] at hlow
        omega
      have hvalue : Literal.value ⟨true, Nat.toDigits 10 (n + 1), none, none⟩ =
          .int (.negSucc n) := by
        simp only [Literal.value, collectWhole_toDigits (Nat.le_trans hmax (by decide))]
        rw [if_neg (by decide), if_pos ⟨Nat.succ_pos n, hmax⟩]
        rfl
      rw [Numeral.decimal, String.toList_ofList, List.cons_append, parseNumber]
      exact (parseParts_toDigits (n + 1) hends true).trans (by rw [hvalue])

end Numbers

section Values

/-- A value that has a text of its own: numbers are integers of sixty-four bits, and every part is
readable. -/
inductive Plain : Json → Prop
  | null : Plain null
  | bool (value : Bool) : Plain (bool value)
  | int {number : Int} (hfits : Fits number) : Plain (int number)
  | str (text : String) : Plain (str text)
  | arr {items : List Json} (hitems : ∀ item ∈ items, Plain item) : Plain (arr items)
  | obj {members : List (String × Json)} (hmembers : ∀ member ∈ members, Plain member.2) :
      Plain (obj members)

theorem skipSpace_append {blank : List Char} (hblank : ∀ c ∈ blank, isSpace c = true)
    (text : List Char) : skipSpace (blank ++ text) = skipSpace text :=
  List.dropWhile_append_of_pos hblank

theorem parseValue_skipSpace (fuel : Nat) (text : List Char) :
    parseValue fuel (skipSpace text) = parseValue fuel text := by
  cases fuel with
  | zero => rfl
  | succ fuel => rw [parseValue, parseValue, skipSpace, skipSpace, List.dropWhile_idempotent]

/-- White space before a value does not matter. -/
theorem parseValue_append {blank : List Char} (hblank : ∀ c ∈ blank, isSpace c = true)
    (fuel : Nat) (text : List Char) :
    parseValue fuel (blank ++ text) = parseValue fuel text := by
  rw [← parseValue_skipSpace, skipSpace_append hblank, parseValue_skipSpace]

theorem not_number_of_isSpace {c : Char} (hspace : isSpace c = true) :
    c.isDigit = false ∧ c ≠ '.' ∧ c ≠ 'e' ∧ c ≠ 'E' := by
  simp only [isSpace, Bool.or_eq_true, beq_iff_eq] at hspace
  rcases hspace with ((rfl | rfl) | rfl) | rfl <;> decide

theorem numberEnds_append {blank rest : List Char} (hblank : ∀ c ∈ blank, isSpace c = true)
    (hends : NumberEnds rest) : NumberEnds (blank ++ rest) := by
  cases blank with
  | nil => exact hends
  | cons c blank =>
      rintro c' ⟨⟩
      exact not_number_of_isSpace (hblank c List.mem_cons_self)

theorem isSpace_newline (level : Nat) : ∀ c ∈ (newline level).toList, isSpace c = true := by
  intro c hc
  rw [newline, String.toList_ofList] at hc
  rcases List.mem_cons.mp hc with rfl | hc
  · rfl
  · rw [List.eq_of_mem_replicate hc]
    rfl

theorem isSpace_of_number {c : Char} (hc : c.isDigit = true ∨ c = '-') : isSpace c = false := by
  cases hspace : isSpace c with
  | false => rfl
  | true =>
      rcases hc with hdigit | rfl
      · rw [(not_number_of_isSpace hspace).1] at hdigit
        exact hdigit.symm
      · exact absurd hspace (by decide)

/-- Text that begins like a number is left to the parser of numbers. -/
theorem parseValue_number {c : Char} (hc : c.isDigit = true ∨ c = '-') (fuel : Nat)
    (text : List Char) : parseValue (fuel + 1) (c :: text) = parseNumber (c :: text) := by
  have hskip : skipSpace (c :: text) = c :: text := by
    simp [skipSpace, isSpace_of_number hc]
  have hother : ∀ d : Char, d.isDigit = false → d ≠ '-' → c ≠ d := by
    rintro d hdigit hsign rfl
    rcases hc with hc | hc
    · rw [hdigit] at hc
      cases hc
    · exact hsign hc
  rw [parseValue, hskip]
  split
  case h_7 => rfl
  all_goals
    rename_i heq
    exact absurd (List.cons.inj heq).1 (hother _ rfl (by decide))

theorem parseValue_closing {c : Char} (hc : c = ']' ∨ c = '\x7d') (fuel : Nat)
    (text : List Char) : parseValue fuel (c :: text) = none := by
  cases fuel with
  | zero => rfl
  | succ fuel => rcases hc with rfl | rfl <;> rfl

theorem parseItems_skipSpace (fuel : Nat) (done : List Json) (text : List Char) :
    parseItems fuel done (skipSpace text) = parseItems fuel done text := by
  cases fuel with
  | zero => rfl
  | succ fuel => rw [parseItems, parseItems, parseValue_skipSpace]

/-- What an array holds is read behind its opening bracket. -/
theorem parseValue_of_items {fuel : Nat} {text : List Char} {found : Json × List Char}
    (hitems : parseItems fuel [] text = some found) :
    parseValue (fuel + 1) ('[' :: text) = some found := by
  have hskip : skipSpace ('[' :: text) = '[' :: text := rfl
  rw [parseValue, hskip]
  simp only
  split
  -- An array that is closed at once has no first item to read.
  · rename_i rest heq
    cases fuel with
    | zero => cases hitems
    | succ fuel =>
        rw [parseItems, ← parseValue_skipSpace, heq, parseValue_closing (.inl rfl)] at hitems
        cases hitems
  · rwa [parseItems_skipSpace]

/-- What an object holds is read behind its opening brace. -/
theorem parseValue_of_members {fuel : Nat} {text : List Char} {found : Json × List Char}
    (hmembers : parseMembers fuel true [] text = some found) :
    parseValue (fuel + 1) ('\x7b' :: text) = some found := by
  have hskip : skipSpace ('\x7b' :: text) = '\x7b' :: text := rfl
  rw [parseValue, hskip]
  simp only
  cases fuel with
  | zero => cases hmembers
  | succ fuel =>
      split
      · rename_i rest heq
        rw [parseMembers, heq] at hmembers
        simp at hmembers
      · rw [parseMembers, skipSpace, skipSpace, List.dropWhile_idempotent]
        rwa [parseMembers, skipSpace] at hmembers

/-- A text that the printer appends for a value, and that the parser reads as the value. -/
structure Written (level : Nat) (value : Json) (text : List Char) : Prop where
  printed : ∀ out : String, (appendPretty level out value).toList = out.toList ++ text
  parsed : ∀ (fuel : Nat) (rest : List Char), text.length ≤ fuel → NumberEnds rest →
    parseValue fuel (text ++ rest) = some (value, rest)

theorem written_null (level : Nat) : Written level null ['n', 'u', 'l', 'l'] where
  printed out := by simp [appendPretty, leaf]
  parsed fuel rest hfuel _ := by
    cases fuel with
    | zero => cases hfuel
    | succ fuel => rfl

theorem written_bool (level : Nat) (value : Bool) :
    Written level (bool value) (leaf (bool value)).toList where
  printed out := by rw [appendPretty, String.toList_append] <;> simp
  parsed fuel rest hfuel _ := by
    cases fuel with
    | zero => cases value <;> cases hfuel
    | succ fuel => cases value <;> rfl

theorem written_int (level : Nat) {number : Int} (hfits : Fits number) :
    Written level (int number) (Numeral.decimal number).toList where
  printed out := by simp [appendPretty, leaf]
  parsed fuel rest hfuel hends := by
    obtain ⟨c, text, htext, hc⟩ : ∃ c text, (Numeral.decimal number).toList = c :: text ∧
        (c.isDigit = true ∨ c = '-') := by
      cases number with
      | ofNat n =>
          obtain ⟨c, digits, hwritten, hdigit⟩ := toDigits_eq_cons n
          exact ⟨c, digits, by rw [Numeral.decimal, String.toList_ofList, hwritten], .inl hdigit⟩
      | negSucc n => exact ⟨'-', _, by rw [Numeral.decimal, String.toList_ofList], .inr rfl⟩
    cases fuel with
    | zero => simp [htext] at hfuel
    | succ fuel =>
        rw [← parseNumber_decimal hfits hends, htext, List.cons_append, parseValue_number hc]

theorem written_str (level : Nat) (text : String) :
    Written level (str text) (quoted text).toList where
  printed out := by simp [appendPretty, leaf]
  parsed fuel rest hfuel _ := by
    cases fuel with
    | zero => simp [quoted] at hfuel
    | succ fuel =>
        have hskip : ∀ text, skipSpace ('\x22' :: text) = '\x22' :: text := fun _ => rfl
        rw [quoted, String.toList_ofList, List.cons_append, List.cons_append, List.append_assoc,
          List.singleton_append, parseValue, hskip]
        simp [scanPieces_quoted, textOfPieces_map_piece]

theorem numberEnds_cons {c : Char} (hc : c = ',' ∨ c = ']' ∨ c = '\x7d') (rest : List Char) :
    NumberEnds (c :: rest) := by
  rintro c' ⟨⟩
  rcases hc with rfl | rfl | rfl <;> decide

namespace Written

variable {level fuel : Nat} {value : Json} {text before after rest : List Char}

/-- White space in front of a written value, and a mark behind it, do not matter. -/
theorem parseValue_eq (hwritten : Written level value text) (hfuel : text.length ≤ fuel)
    (hbefore : ∀ c ∈ before, isSpace c = true) (hends : NumberEnds rest) :
    parseValue fuel (before ++ (text ++ rest)) = some (value, rest) := by
  rw [parseValue_append hbefore, hwritten.parsed fuel rest hfuel hends]

theorem parseItems_comma (hwritten : Written level value text) (hfuel : text.length ≤ fuel)
    (hbefore : ∀ c ∈ before, isSpace c = true) (done : List Json) :
    parseItems (fuel + 1) done (before ++ (text ++ ',' :: rest)) =
      parseItems fuel (value :: done) rest := by
  rw [parseItems, hwritten.parseValue_eq hfuel hbefore (numberEnds_cons (.inl rfl) rest)]
  rfl

theorem parseItems_close (hwritten : Written level value text) (hfuel : text.length ≤ fuel)
    (hbefore : ∀ c ∈ before, isSpace c = true) (hafter : ∀ c ∈ after, isSpace c = true)
    (done : List Json) :
    parseItems (fuel + 1) done (before ++ (text ++ (after ++ ']' :: rest))) =
      some (arr (value :: done).reverse, rest) := by
  have hends := numberEnds_append hafter (numberEnds_cons (.inr (.inl rfl)) rest)
  rw [parseItems, hwritten.parseValue_eq hfuel hbefore hends]
  simp only [skipSpace_append hafter]
  rfl

/-- A member is read up to the comma before the next one, or up to the closing brace. -/
theorem parseMembers_eq (hwritten : Written level value text) (hfuel : text.length ≤ fuel)
    (hbefore : ∀ c ∈ before, isSpace c = true) (hends : NumberEnds rest) (name : String)
    (done : List (String × Json)) :
    let line := before ++ ((quoted name).toList ++ (':' :: ' ' :: (text ++ rest)))
    (∀ more, skipSpace rest = ',' :: more →
      parseMembers (fuel + 1) true done line =
        parseMembers fuel true ((name, value) :: done) more) ∧
    ∀ more, skipSpace rest = '\x7d' :: more →
      parseMembers (fuel + 1) true done line =
        some (obj ((name, value) :: done).reverse, more) := by
  intro line
  have hline : skipSpace line =
      '\x22' :: (name.toList.flatMap escapedChar ++ '\x22' :: ':' :: ' ' :: (text ++ rest)) := by
    rw [skipSpace_append hbefore, quoted, String.toList_ofList]
    simp [skipSpace, isSpace]
  have hcolon : ∀ text, skipSpace (':' :: text) = ':' :: text := fun _ => rfl
  have hvalue : parseValue fuel (' ' :: (text ++ rest)) = some (value, rest) := by
    have hblank : ∀ c ∈ [' '], isSpace c = true := List.forall_mem_singleton.mpr rfl
    exact hwritten.parseValue_eq hfuel hblank hends
  constructor
  · intro more hmore
    rw [parseMembers, hline]
    simp [scanPieces_quoted, hcolon, hvalue, hmore, textOfPieces_map_piece]
  · intro more hmore
    rw [parseMembers, hline]
    simp [scanPieces_quoted, hcolon, hvalue, hmore, textOfPieces_map_piece, objectOf]

end Written

/-- Items that are written each on a line of its own are read one after the other. -/
theorem exists_written_items {level : Nat} {items : List Json} (hne : items ≠ [])
    (hitems : ∀ item ∈ items, ∃ text, Written level item text) :
    ∃ text, (∀ out : String, (appendPrettyItems level out items).toList = out.toList ++ text) ∧
      ∀ (fuel : Nat) (done : List Json) (after rest : List Char), text.length ≤ fuel →
        (∀ c ∈ after, isSpace c = true) →
        parseItems fuel done (text ++ (after ++ ']' :: rest)) =
          some (arr (done.reverse ++ items), rest) := by
  have hspace := isSpace_newline level
  have hlength : 1 ≤ (newline level).toList.length := by simp [newline]
  -- The last item ends at the bracket and any other at a comma.  Each item takes fuel for its own
  -- text and one more, which the line end before it pays for.
  induction items with
  | nil => exact absurd rfl hne
  | cons item more ih =>
      obtain ⟨itemText, hitem⟩ := hitems item List.mem_cons_self
      cases more with
      | nil =>
          refine ⟨(newline level).toList ++ itemText, fun out => ?_, ?_⟩
          · rw [appendPrettyItems, hitem.printed, String.toList_append, List.append_assoc]
          · intro fuel done after rest hfuel hafter
            rw [List.length_append] at hfuel
            obtain ⟨fuel, rfl⟩ : ∃ less, fuel = less + 1 := ⟨fuel - 1, by omega⟩
            rw [List.append_assoc, hitem.parseItems_close (by omega) hspace hafter]
            simp
      | cons next more =>
          obtain ⟨moreText, hprinted, hparsed⟩ := ih (by simp) fun other hother =>
            hitems other (List.mem_cons_of_mem item hother)
          refine ⟨(newline level).toList ++ (itemText ++ ',' :: moreText), fun out => ?_, ?_⟩
          · simp [appendPrettyItems, hprinted, hitem.printed]
          · intro fuel done after rest hfuel hafter
            simp only [List.length_append, List.length_cons] at hfuel
            obtain ⟨fuel, rfl⟩ : ∃ less, fuel = less + 1 := ⟨fuel - 1, by omega⟩
            rw [List.append_assoc, List.append_assoc, List.cons_append,
              hitem.parseItems_comma (by omega) hspace,
              hparsed fuel _ after rest (by omega) hafter]
            simp

/-- Members that are written each on a line of its own are read one after the other. -/
theorem exists_written_members {level : Nat} {members : List (String × Json)}
    (hne : members ≠ []) (hmembers : ∀ member ∈ members, ∃ text, Written level member.2 text) :
    ∃ text, (∀ out : String,
        (appendPrettyMembers level out members).toList = out.toList ++ text) ∧
      ∀ (fuel : Nat) (done : List (String × Json)) (after rest : List Char),
        text.length ≤ fuel → (∀ c ∈ after, isSpace c = true) →
        parseMembers fuel true done (text ++ (after ++ '\x7d' :: rest)) =
          some (obj (done.reverse ++ members), rest) := by
  have hspace := isSpace_newline level
  induction members with
  | nil => exact absurd rfl hne
  | cons member more ih =>
      obtain ⟨name, value⟩ := member
      obtain ⟨valueText, hvalue⟩ := hmembers (name, value) List.mem_cons_self
      cases more with
      | nil =>
          refine ⟨(newline level).toList ++ ((quoted name).toList ++ (':' :: ' ' :: valueText)),
            fun out => ?_, ?_⟩
          · simp [appendPrettyMembers, hvalue.printed]
          · intro fuel done after rest hfuel hafter
            simp only [List.length_append, List.length_cons] at hfuel
            obtain ⟨fuel, rfl⟩ : ∃ less, fuel = less + 1 := ⟨fuel - 1, by omega⟩
            have hends := numberEnds_append hafter (numberEnds_cons (.inr (.inr rfl)) rest)
            simp only [List.append_assoc, List.cons_append]
            rw [(hvalue.parseMembers_eq (by omega) hspace hends name done).2 rest
              (skipSpace_append hafter _)]
            simp
      | cons next more =>
          obtain ⟨moreText, hprinted, hparsed⟩ := ih (by simp) fun other hother =>
            hmembers other (List.mem_cons_of_mem _ hother)
          refine ⟨(newline level).toList ++
            ((quoted name).toList ++ (':' :: ' ' :: (valueText ++ ',' :: moreText))),
            fun out => ?_, ?_⟩
          · simp [appendPrettyMembers, hprinted, hvalue.printed]
          · intro fuel done after rest hfuel hafter
            simp only [List.length_append, List.length_cons] at hfuel
            obtain ⟨fuel, rfl⟩ : ∃ less, fuel = less + 1 := ⟨fuel - 1, by omega⟩
            have hends := numberEnds_cons (.inl rfl) (moreText ++ (after ++ '\x7d' :: rest))
            simp only [List.append_assoc, List.cons_append]
            rw [(hvalue.parseMembers_eq (by omega) hspace hends name done).1 _ rfl,
              hparsed fuel _ after rest (by omega) hafter]
            simp

theorem exists_written_arr {level : Nat} {items : List Json}
    (hitems : ∀ item ∈ items, ∃ text, Written (level + 1) item text) :
    ∃ text, Written level (arr items) text := by
  cases items with
  | nil =>
      refine ⟨['[', ']'], fun out => by simp [appendPretty], fun fuel rest hfuel _ => ?_⟩
      cases fuel with
      | zero => cases hfuel
      | succ fuel => rfl
  | cons item more =>
      obtain ⟨text, hprinted, hparsed⟩ := exists_written_items (by simp) hitems
      refine ⟨'[' :: (text ++ ((newline level).toList ++ [']'])), fun out => ?_, ?_⟩
      · simp [appendPretty, hprinted]
      · intro fuel rest hfuel _
        simp only [List.length_append, List.length_cons] at hfuel
        obtain ⟨fuel, rfl⟩ : ∃ less, fuel = less + 1 := ⟨fuel - 1, by omega⟩
        have hread := hparsed fuel [] _ rest (by omega) (isSpace_newline level)
        simpa using parseValue_of_items hread

theorem exists_written_obj {level : Nat} {members : List (String × Json)}
    (hmembers : ∀ member ∈ members, ∃ text, Written (level + 1) member.2 text) :
    ∃ text, Written level (obj members) text := by
  cases members with
  | nil =>
      refine ⟨['\x7b', '\x7d'], fun out => by simp [appendPretty], fun fuel rest hfuel _ => ?_⟩
      cases fuel with
      | zero => cases hfuel
      | succ fuel => rfl
  | cons member more =>
      obtain ⟨text, hprinted, hparsed⟩ := exists_written_members (by simp) hmembers
      refine ⟨'\x7b' :: (text ++ ((newline level).toList ++ ['\x7d'])), fun out => ?_, ?_⟩
      · simp [appendPretty, hprinted]
      · intro fuel rest hfuel _
        simp only [List.length_append, List.length_cons] at hfuel
        obtain ⟨fuel, rfl⟩ : ∃ less, fuel = less + 1 := ⟨fuel - 1, by omega⟩
        have hread := hparsed fuel [] _ rest (by omega) (isSpace_newline level)
        simpa using parseValue_of_members hread

theorem Plain.exists_written {value : Json} (hplain : value.Plain) (level : Nat) :
    ∃ text, Written level value text := by
  induction hplain generalizing level with
  | null => exact ⟨_, written_null level⟩
  | bool value => exact ⟨_, written_bool level value⟩
  | int hfits => exact ⟨_, written_int level hfits⟩
  | str text => exact ⟨_, written_str level text⟩
  | arr _ ih => exact exists_written_arr fun item hitem => ih item hitem (level + 1)
  | obj _ ih => exact exists_written_obj fun member hmember => ih member hmember (level + 1)

/-- The pretty text of a plain value is read as that value. -/
theorem parse_pretty {value : Json} (hplain : value.Plain) : parse value.pretty = some value := by
  obtain ⟨text, hwritten⟩ := hplain.exists_written 0
  have htext : value.pretty.toList = text := hwritten.printed ""
  have hends : NumberEnds [] := by
    rintro c ⟨⟩
  have hread := hwritten.parsed (2 * text.length + 2) [] (by omega) hends
  rw [List.append_nil] at hread
  simp only [parse, htext, hread]
  rfl

end Values

end LittleComputer.Json
