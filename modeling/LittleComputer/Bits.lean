import LittleComputer.Event

/-!
Two's-complement fields and bit ranges.  A field of `width` bits holds the integers from
`least width` to `greatest width`; `truncate` reads the low bits of a number as such a field, and
`extract` cuts a range of bits out of a word of any size.
-/
namespace LittleComputer.Bits

/-- The two's-complement value of the low `width` bits of `value`.  The field is shifted up against
the sign bit of a 32-bit register and back down again. -/
def truncate (value : Int) (width : Nat) : Int :=
  ((BitVec.ofInt 32 value <<< (32 - width)).sshiftRight (32 - width)).toInt

def add (a b : Int) (width : Nat) : Int :=
  truncate (a + b) width

/-- The weight of the sign bit of a field.  It is computed in 64 bits, and the bounds are cut down
to 32 bits afterwards. -/
def signWeight (width : Nat) : BitVec 64 :=
  1#64 <<< (width - 1)

def least (width : Nat) : Int :=
  ((-signWeight width).setWidth 32).toInt

def greatest (width : Nat) : Int :=
  ((signWeight width - 1#64).setWidth 32).toInt

/-- Whether a signed field of `width` bits can hold `value`. -/
def fits (value : Int) (width : Nat) : Bool :=
  least width ≤ value && value ≤ greatest width

/-- A word with its `length` lowest bits set.  Where that is the whole word, a bit above them would
be lost. -/
def mask (n length : Nat) : BitVec n :=
  if n ≤ length then BitVec.allOnes n else (1#n <<< length) - 1#n

/-- Bits `low` to `high` of a word, both included, moved down to bit 0. -/
def extract {n : Nat} (word : BitVec n) (low high : Nat) : BitVec n :=
  (word >>> low) &&& mask n (high - low + 1)

def testBit {n : Nat} (word : BitVec n) (index : Nat) : Bool :=
  extract word index index == 1#n

/-!
Bit operations behind their preconditions.  Each operation of `Checked` refuses arguments outside
its domain with a `Fault` and otherwise gives the value of its unchecked namesake.
-/

/-- A precondition that does not hold. -/
inductive Fault
  /-- A field width outside 1 to 32. -/
  | width (width : Nat)
  /-- A bit range that is empty or leaves the word. -/
  | range (low high : Nat)
  /-- As many values as fields are needed. -/
  | count (values fields : Nat)
  /-- A field that ends below its start. -/
  | inverted
deriving DecidableEq, Repr

def Fault.message : Fault → String
  | .width bits => s!"width {Numeral.decimal bits} out of range"
  | .range low high => s!"bad bit range [{Numeral.decimal low}, {Numeral.decimal high}]"
  | .count values fields =>
      "assertion `left == right` failed: field/value count mismatch\n" ++
        s!"  left: {Numeral.decimal values}\n right: {Numeral.decimal fields}"
  | .inverted => "attempt to subtract with overflow"

/-- Accepts the widths of two's-complement fields. -/
def checkWidth (width : Nat) : Except Fault Unit :=
  if 1 ≤ width ∧ width ≤ 32 then .ok () else .error (.width width)

def checkRange (n low high : Nat) : Except Fault Unit :=
  if low ≤ high ∧ high < n then .ok () else .error (.range low high)

namespace Checked

def truncate (value : Int) (width : Nat) : Except Fault Int := do
  checkWidth width
  return Bits.truncate value width

def add (a b : Int) (width : Nat) : Except Fault Int := do
  checkWidth width
  return Bits.add a b width

def range (width : Nat) : Except Fault (Int × Int) := do
  checkWidth width
  return (least width, greatest width)

def fits (value : Int) (width : Nat) : Except Fault Bool := do
  checkWidth width
  return Bits.fits value width

def extract {n : Nat} (word : BitVec n) (low high : Nat) : Except Fault (BitVec n) := do
  checkRange n low high
  return Bits.extract word low high

def testBit {n : Nat} (word : BitVec n) (index : Nat) : Except Fault Bool := do
  checkRange n index index
  return Bits.testBit word index

end Checked

/-!
Binary numerals of at most 32 digits, given in parts.  The digits are shifted one by one into a
word, and the count of digits and the word run on from part to part.
-/

/-- Why a text is no binary numeral of 32 bits. -/
inductive BinaryError
  | badDigit (c : Char)
  | tooWide (bits : Nat)
deriving DecidableEq, Repr

def BinaryError.message : BinaryError → String
  | .badDigit c => s!"not a binary digit: {Text.quotedChar c}"
  | .tooWide bits => s!"{Numeral.decimal bits} bits do not fit in a 32-bit word"

def binaryDigit? (c : Char) : Option Nat :=
  if c = '0' then some 0 else if c = '1' then some 1 else none

/-- The digits read so far: how many they are, and the word that they make up. -/
structure Reading where
  length : Nat
  word : BitVec 32
deriving DecidableEq, Repr

def Reading.start : Reading := ⟨0, 0#32⟩

/-- Reads one more digit.  A character is judged as a digit before it is counted. -/
def Reading.readDigit (reading : Reading) (c : Char) : Except BinaryError Reading :=
  match binaryDigit? c with
  | none => .error (.badDigit c)
  | some bit =>
      if 32 ≤ reading.length then .error (.tooWide (reading.length + 1))
      else .ok ⟨reading.length + 1, reading.word <<< 1 ||| BitVec.ofNat 32 bit⟩

/-- Reads one more part, from the digits of the parts before it on. -/
def Reading.readPart (reading : Reading) (part : String) : Except BinaryError Reading :=
  part.toList.foldlM Reading.readDigit reading

/-- The value of the parts written one after the other, most significant digit first. -/
def ofBinary (parts : List String) : Except BinaryError Nat := do
  let reading ← parts.foldlM Reading.readPart .start
  return reading.word.toNat

/-!
Named bit fields of a word.  Packing puts the low bits of each value into its field, over the bits
that are set already; a value that loses bits on the way is reported.
-/

/-- Bits `low` to `high` of a word, both included. -/
structure BitField where
  name : String
  low : Nat
  high : Nat
deriving DecidableEq, Repr

namespace BitField

def width (field : BitField) : Nat :=
  field.high + 1 - field.low

/-- The low bits of `value` in two's complement, at the place of the field. -/
def place (field : BitField) (value : Int) : Word :=
  (BitVec.ofInt field.width value).setWidth 16 <<< field.low

/-- Whether the field can hold `value`, read with or without sign. -/
def holds (field : BitField) (value : Int) : Bool :=
  fits value field.width || (0 ≤ value && value < ((1 <<< field.width : Nat) : Int))

def put (field : BitField) (value : Int) (word : Word) : Logged Word := do
  if !field.holds value then
    Logged.emit (.valueTruncated field.name value field.width)
  return word ||| field.place value

end BitField

def pack (word : Word) : List (BitField × Int) → Logged Word
  | [] => pure word
  | (field, value) :: rest => do
      let word ← field.put value word
      pack word rest

/-- Puts each value into its field, as long as the fields are not inverted. -/
def packUntilFault (word : Word) : List (BitField × Int) → Logged (Except Fault Word)
  | [] => pure (.ok word)
  | (field, value) :: rest =>
      if field.high < field.low then pure (.error .inverted)
      else do
        let word ← field.put value word
        packUntilFault word rest

/-- `pack` for fields and values that come apart and may not belong together. -/
def Checked.pack (fields : List BitField) (word : Word) (values : List Int) :
    Logged (Except Fault Word) :=
  if values.length ≠ fields.length then pure (.error (.count values.length fields.length))
  else packUntilFault word (fields.zip values)

end LittleComputer.Bits
