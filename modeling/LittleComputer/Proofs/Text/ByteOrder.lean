import Mathlib.Data.String.Basic

/-!
The order of texts by their bytes.  UTF-8 keeps the order of characters: a longer code starts with a
greater byte, and codes of one length compare like the numbers in them.  So texts compare by their
bytes as they compare by their characters.
-/
namespace LittleComputer.Text

def utf8 (text : String) : List UInt8 :=
  text.toUTF8.data.toList

/-- One text comes before another in the order of their bytes. -/
def Before (first second : String) : Prop :=
  List.Lex (· < ·) (utf8 first) (utf8 second)

theorem utf8_eq_flatMap (text : String) :
    utf8 text = text.toList.flatMap String.utf8EncodeChar := by
  rw [utf8, String.toUTF8_eq_toByteArray, ← String.utf8Encode_toList, List.utf8Encode,
    List.toList_data_toByteArray]

/-- A number as a byte over `mark` and `count` bytes with six bits each. -/
def code (mark : Nat) : Nat → Nat → List UInt8
  | 0, value => [UInt8.ofNat (value + mark)]
  | count + 1, value => code mark count (value / 64) ++ [UInt8.ofNat (value % 64 + 128)]

theorem ofNat_lt_ofNat {m n : Nat} (hlt : m < n) (hbyte : n < 256) :
    UInt8.ofNat m < UInt8.ofNat n := by
  rw [UInt8.lt_iff_toNat_lt, UInt8.toNat_ofNat_of_lt' (hlt.trans hbyte),
    UInt8.toNat_ofNat_of_lt' hbyte]
  exact hlt

/-- Codes of one length compare like the numbers in them. -/
theorem lex_code {mark count m n : Nat} (hlt : m < n) (hbyte : n / 64 ^ count + mark < 256)
    (after after' : List UInt8) :
    List.Lex (· < ·) (code mark count m ++ after) (code mark count n ++ after') := by
  induction count generalizing m n after after' with
  | zero =>
      rw [pow_zero, Nat.div_one] at hbyte
      exact .rel (ofNat_lt_ofNat (by omega) hbyte)
  | succ count ih =>
      simp only [code, List.append_assoc]
      rcases Nat.lt_or_ge (m / 64) (n / 64) with hquotient | hquotient
      · rw [pow_succ', ← Nat.div_div_eq_div_mul] at hbyte
        exact ih hquotient hbyte _ _
      · have heq : m / 64 = n / 64 := by omega
        rw [heq]
        exact List.append_left_lt (.rel (ofNat_lt_ofNat (by omega) (by omega)))

theorem code_eq_cons (mark count value : Nat) :
    ∃ rest, code mark count value = UInt8.ofNat (value / 64 ^ count + mark) :: rest := by
  induction count generalizing value with
  | zero => exact ⟨[], by simp [code]⟩
  | succ count ih =>
      obtain ⟨rest, hrest⟩ := ih (value / 64)
      rw [Nat.div_div_eq_div_mul, ← pow_succ'] at hrest
      exact ⟨_, by rw [code, hrest, List.cons_append]⟩

/-- The mark of a character's code and the number of bytes after the first, by its number. -/
def shape (value : Nat) : Nat × Nat :=
  if value ≤ 127 then (0, 0)
  else if value ≤ 2047 then (192, 1)
  else if value ≤ 65535 then (224, 2)
  else (240, 3)

def firstByte (value : Nat) : Nat :=
  value / 64 ^ (shape value).2 + (shape value).1

theorem toNat_val_lt (c : Char) : c.val.toNat < 0x110000 := by
  rcases c.valid with hbelow | habove
  · omega
  · exact habove.2

theorem firstByte_lt {value : Nat} (hbound : value < 0x110000) : firstByte value < 256 := by
  rw [firstByte, shape]
  split_ifs <;> dsimp only <;> omega

/-- A greater number has a code of the same shape or one that starts with a greater byte. -/
theorem shape_eq_or_firstByte_lt {m n : Nat} (hlt : m < n) :
    shape m = shape n ∨ firstByte m < firstByte n := by
  simp only [firstByte, shape]
  split_ifs <;> simp only [Prod.mk.injEq, true_or] <;> omega

theorem utf8EncodeChar_eq_code (c : Char) :
    String.utf8EncodeChar c =
      code (shape c.val.toNat).1 (shape c.val.toNat).2 c.val.toNat := by
  have hbound := toNat_val_lt c
  simp only [String.utf8EncodeChar, shape]
  split_ifs
  · rfl
  all_goals
    simp only [code, Nat.div_div_eq_div_mul]
    rw [Nat.mod_eq_of_lt (by omega)]
    rfl

theorem utf8EncodeChar_eq_cons (c : Char) :
    ∃ rest, String.utf8EncodeChar c = UInt8.ofNat (firstByte c.val.toNat) :: rest := by
  rw [utf8EncodeChar_eq_code]
  exact code_eq_cons _ _ _

/-- The smaller of two characters has the smaller code, whatever comes after. -/
theorem lex_utf8EncodeChar {c d : Char} (hlt : c < d) (after after' : List UInt8) :
    List.Lex (· < ·) (String.utf8EncodeChar c ++ after)
      (String.utf8EncodeChar d ++ after') := by
  have hvalue : c.val.toNat < d.val.toNat := UInt32.lt_iff_toNat_lt.mp hlt
  have hbyte := firstByte_lt (toNat_val_lt d)
  rcases shape_eq_or_firstByte_lt hvalue with hsame | hfirst
  · rw [utf8EncodeChar_eq_code, utf8EncodeChar_eq_code, hsame]
    exact lex_code hvalue hbyte after after'
  · obtain ⟨rest, hrest⟩ := utf8EncodeChar_eq_cons c
    obtain ⟨rest', hrest'⟩ := utf8EncodeChar_eq_cons d
    rw [hrest, hrest']
    exact .rel (ofNat_lt_ofNat hfirst hbyte)

theorem lex_flatMap_utf8EncodeChar {first second : List Char}
    (hlt : List.Lex (· < ·) first second) :
    List.Lex (· < ·) (first.flatMap String.utf8EncodeChar)
      (second.flatMap String.utf8EncodeChar) := by
  induction hlt with
  | @nil c rest =>
      obtain ⟨bytes, hbytes⟩ := utf8EncodeChar_eq_cons c
      rw [List.flatMap_nil, List.flatMap_cons, hbytes]
      exact .nil
  | rel hchar =>
      rw [List.flatMap_cons, List.flatMap_cons]
      exact lex_utf8EncodeChar hchar _ _
  | cons _ ih =>
      rw [List.flatMap_cons, List.flatMap_cons]
      exact List.append_left_lt ih

/-- Texts compare by their bytes as they compare by their characters. -/
theorem before_iff_lt {first second : String} : Before first second ↔ first < second := by
  have hmono : ∀ {a b : String}, a < b → Before a b := by
    intro a b hlt
    rw [Before, utf8_eq_flatMap, utf8_eq_flatMap]
    exact lex_flatMap_utf8EncodeChar (String.lt_iff_toList_lt.mp hlt)
  refine ⟨fun hbefore => ?_, hmono⟩
  rcases lt_trichotomy first second with hlt | rfl | hgt
  · exact hlt
  · exact absurd hbefore (List.lt_irrefl (utf8 first))
  · exact absurd hbefore (List.lt_asymm (hmono hgt))

end LittleComputer.Text
