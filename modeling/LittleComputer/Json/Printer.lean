import LittleComputer.Json.Basic

/-!
Writing JSON: compact, without any white space, and pretty, with one item on a line and two blanks
for each level.  A double is written as its shortest decimal: of all decimals that round to the
number, the one with the fewest digits, and of several such the nearest.  All comparisons are exact.
-/
namespace LittleComputer.Decimal

/-- A positive finite double, `significand * 2 ^ exponent`. -/
structure Binary where
  significand : Nat
  exponent : Int
deriving DecidableEq, Repr

/-- The number `digits * 10 ^ exponent`. -/
structure Scientific where
  digits : Nat
  exponent : Int
deriving DecidableEq, Repr

/-- Numerator and denominator of a power. -/
def ratio (base : Nat) : Int → Nat × Nat
  | .ofNat n => (Nat.pow base n, 1)
  | .negSucc n => (1, Nat.pow base (n + 1))

/-- The leading bit of a significand, which a double does not store. -/
def hiddenBit : Nat := 0x10000000000000

/-- Quarters of the unit of the last place below the number at which rounding to it begins.  The
neighbour below a power of two is twice as near. -/
def Binary.lowGap (x : Binary) : Nat :=
  if x.significand = hiddenBit ∧ -1074 < x.exponent then 1 else 2

/-- The decimals with exponent `exponent` next to the number, below or at it and above it, if they
round to it; the nearer one if both do. -/
def Binary.onGrid? (x : Binary) (exponent : Int) : Option Scientific :=
  let (gridNum, gridDen) := ratio 10 exponent
  let (unitNum, unitDen) := ratio 2 (x.exponent - 2)
  -- `c` steps of the grid compare with `k` quarter units as `c * step` with `k * unit`
  let step := gridNum * unitDen
  let unit := unitNum * gridDen
  let value := 4 * x.significand * unit
  let low := (4 * x.significand - x.lowGap) * unit
  let high := (4 * x.significand + 2) * unit
  let even := x.significand % 2 = 0
  let rounds (c : Nat) : Bool :=
    if even then low ≤ c * step && c * step ≤ high else low < c * step && c * step < high
  let below := value / step
  let above := below + 1
  if rounds below then
    if rounds above && above * step - value < value - below * step then some ⟨above, exponent⟩
    else some ⟨below, exponent⟩
  else if rounds above then some ⟨above, exponent⟩
  else none

/-- The shortest decimal of a number.  The largest exponent at which a decimal rounds to the number
gives the fewest digits, and no double needs an exponent below that of its own last place. -/
def Binary.shortest (x : Binary) : Scientific :=
  let exponents := (List.range 634).map fun k : Nat => (309 - k : Int)
  (exponents.findSome? x.onGrid?).getD ⟨0, 0⟩

/-- Significand and exponent of a positive finite double. -/
def Binary.ofBits (bits : Nat) : Binary :=
  let biased : Nat := bits / hiddenBit % 2048
  let fraction : Nat := bits % hiddenBit
  if biased = 0 then ⟨fraction, -1074⟩ else ⟨hiddenBit + fraction, biased - 1075⟩

/-!
The text of a finite double: its shortest digits with a point among them, or with an exponent when
the point would stand more than sixteen digits to the right or five zeros to the left.  An exponent
always has a sign.
-/

def Scientific.text (x : Scientific) : String :=
  let digits := Nat.toDigits 10 x.digits
  -- place of the point, counted from the first digit
  let point := digits.length + x.exponent
  let zeros (count : Int) := List.replicate count.toNat '0'
  if 0 ≤ x.exponent ∧ point ≤ 16 then
    String.ofList (digits ++ zeros x.exponent ++ ['.', '0'])
  else if 0 < point ∧ point ≤ 16 then
    String.ofList (digits.take point.toNat ++ '.' :: digits.drop point.toNat)
  else if -5 < point ∧ point ≤ 0 then
    String.ofList ('0' :: '.' :: zeros (-point) ++ digits)
  else
    let fraction := if digits.length = 1 then [] else '.' :: digits.drop 1
    let sign := if 0 < point then ['+'] else []
    String.ofList (digits.take 1 ++ fraction ++ 'e' :: sign) ++ Numeral.decimal (point - 1)

def floatText (x : Float) : String :=
  let bits := x.toBits.toNat
  let signBit := 0x8000000000000000
  let sign := if signBit ≤ bits then "-" else ""
  let magnitude := bits % signBit
  sign ++ if magnitude = 0 then "0.0" else (Binary.ofBits magnitude).shortest.text

end LittleComputer.Decimal

/-! Values.  Text is appended to what is written already. -/
namespace LittleComputer.Json

/-- The text of a value that has no parts. -/
def leaf : Json → String
  | bool true => "true"
  | bool false => "false"
  | int number => Numeral.decimal number
  | float number => Decimal.floatText number
  | str text => quoted text
  | _ => "null"

mutual

/-- Appends a value in compact form. -/
def appendCompact (out : String) : Json → String
  | arr items => appendItems (out ++ "[") items ++ "]"
  | obj members => appendMembers (out ++ "\x7b") members ++ "\x7d"
  | value => out ++ leaf value

def appendItems (out : String) : List Json → String
  | [] => out
  | item :: [] => appendCompact out item
  | item :: rest => appendItems (appendCompact out item ++ ",") rest

def appendMembers (out : String) : List (String × Json) → String
  | [] => out
  | (name, value) :: [] => appendCompact (out ++ quoted name ++ ":") value
  | (name, value) :: rest =>
      appendMembers (appendCompact (out ++ quoted name ++ ":") value ++ ",") rest

end

/-- A new line at a level. -/
def newline (level : Nat) : String :=
  String.ofList ('\n' :: List.replicate (2 * level) ' ')

mutual

/-- Appends a value in pretty form; the line it starts on is at `level`. -/
def appendPretty (level : Nat) (out : String) : Json → String
  | arr [] => out ++ "[]"
  | arr items => appendPrettyItems (level + 1) (out ++ "[") items ++ newline level ++ "]"
  | obj [] => out ++ "\x7b\x7d"
  | obj members =>
      appendPrettyMembers (level + 1) (out ++ "\x7b") members ++ newline level ++ "\x7d"
  | value => out ++ leaf value

def appendPrettyItems (level : Nat) (out : String) : List Json → String
  | [] => out
  | item :: [] => appendPretty level (out ++ newline level) item
  | item :: rest =>
      appendPrettyItems level (appendPretty level (out ++ newline level) item ++ ",") rest

def appendPrettyMembers (level : Nat) (out : String) : List (String × Json) → String
  | [] => out
  | (name, value) :: [] =>
      appendPretty level (out ++ newline level ++ quoted name ++ ": ") value
  | (name, value) :: rest =>
      appendPrettyMembers level
        (appendPretty level (out ++ newline level ++ quoted name ++ ": ") value ++ ",") rest

end

def compact (value : Json) : String :=
  appendCompact "" value

def pretty (value : Json) : String :=
  appendPretty 0 "" value

end LittleComputer.Json
