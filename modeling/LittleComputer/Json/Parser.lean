import LittleComputer.Json.Basic

/-!
Reading JSON text.  The grammar is the strict one: no comments, no trailing commas, and nothing but
white space around the value.  An integer literal of 64 bits, signed or unsigned, is an integer;
every other number literal is a double, and so is minus zero.
-/
namespace LittleComputer.Json

/-- A number as it is written. -/
structure Literal where
  negative : Bool
  /-- Digits before the point. -/
  whole : List Char
  /-- Digits after the point. -/
  fraction : Option (List Char)
  exponent : Option Int

namespace Literal

/-- Greatest significand that is collected. -/
def maxSignificand : Nat := 0xFFFFFFFFFFFFFFFF

def digitValue (c : Char) : Nat :=
  c.toNat - '0'.toNat

/-- Appends digits to a significand as long as it has room; gives the number of digits left over. -/
def collectWhole (significand : Nat) : List Char → Nat × Nat
  | [] => (significand, 0)
  | c :: rest =>
      let longer := significand * 10 + digitValue c
      if longer ≤ maxSignificand then collectWhole longer rest else (significand, rest.length + 1)

/-- Appends digits to a significand as long as it has room; gives the number of digits taken. -/
def collectFraction (significand taken : Nat) : List Char → Nat × Nat
  | [] => (significand, taken)
  | c :: rest =>
      let longer := significand * 10 + digitValue c
      if longer ≤ maxSignificand then collectFraction longer (taken + 1) rest
      else (significand, taken)

/-- `significand * 10 ^ exponent` as a double, in one step of multiplication, or of division for
each 308 places.  A number beyond the largest double has none. -/
def scale (significand : Nat) (exponent : Int) : Option Float :=
  let start := Float.ofNat significand
  let power (k : Nat) := Float.ofScientific 1 false k
  if significand = 0 then some start
  else if 308 < exponent then none
  else if 0 ≤ exponent then
    let product := start * power exponent.toNat
    if product.isInf then none else some product
  else if -308 ≤ exponent then some (start / power (-exponent).toNat)
  else if -616 ≤ exponent then some (start / power 308 / power (-exponent - 308).toNat)
  else some 0.0

def toFloat (literal : Literal) : Json :=
  let (significand, dropped) := collectWhole 0 literal.whole
  let (significand, places) := collectFraction significand 0 (literal.fraction.getD [])
  match scale significand (dropped - places + literal.exponent.getD 0) with
  | some value => .float (if literal.negative then -value else value)
  | none => .unreadable

def value (literal : Literal) : Json :=
  match literal.fraction, literal.exponent, collectWhole 0 literal.whole with
  | none, none, (magnitude, 0) =>
      if !literal.negative then .int magnitude
      else if 0 < magnitude ∧ magnitude ≤ 0x8000000000000000 then .int (-magnitude)
      else literal.toFloat
  | _, _, _ => literal.toFloat

end Literal

/-- Decimal digits at the front of a text, and the rest. -/
def spanDigits (text : List Char) : List Char × List Char :=
  text.span Char.isDigit

def someDigits (text : List Char) : Option (List Char × List Char) :=
  match spanDigits text with
  | ([], _) => none
  | found => some found

/-- The digits of an integer: zero is written alone. -/
def wholeDigits (text : List Char) : Option (List Char × List Char) :=
  match spanDigits text with
  | ([], _) => none
  | ('0' :: _ :: _, _) => none
  | found => some found

def fractionPart : List Char → Option (Option (List Char) × List Char)
  | '.' :: rest => (someDigits rest).map fun (digits, rest) => (some digits, rest)
  | rest => some (none, rest)

def ofDigits (digits : List Char) : Nat :=
  digits.foldl (fun value c => value * 10 + Literal.digitValue c) 0

/-- The digits of an exponent, after a sign or without one. -/
def exponentDigits : List Char → Option (Int × List Char)
  | '-' :: rest => (someDigits rest).map fun (digits, rest) => (-ofDigits digits, rest)
  | '+' :: rest => (someDigits rest).map fun (digits, rest) => (ofDigits digits, rest)
  | rest => (someDigits rest).map fun (digits, rest) => (ofDigits digits, rest)

/-- An exponent, or nothing. -/
def exponentPart : List Char → Option (Option Int × List Char)
  | 'e' :: rest => (exponentDigits rest).map fun (value, rest) => (some value, rest)
  | 'E' :: rest => (exponentDigits rest).map fun (value, rest) => (some value, rest)
  | rest => some (none, rest)

/-- A number at the front of a text, and the rest. -/
def parseNumber (text : List Char) : Option (Json × List Char) := do
  let (negative, rest) := match text with
    | '-' :: rest => (true, rest)
    | rest => (false, rest)
  let (whole, rest) ← wholeDigits rest
  let (fraction, rest) ← fractionPart rest
  let (exponent, rest) ← exponentPart rest
  return (Literal.value ⟨negative, whole, fraction, exponent⟩, rest)

/-! Values. -/

def isSpace (c : Char) : Bool :=
  c == ' ' || c == '\t' || c == '\n' || c == '\r'

def skipSpace (text : List Char) : List Char :=
  text.dropWhile isSpace

/-- An object whose names are all readable. -/
def objectOf (readable : Bool) (members : List (String × Json)) : Json :=
  if readable then obj members else unreadable

mutual

/-- A value at the front of a text, and the rest.  `fuel` bounds the steps. -/
def parseValue : Nat → List Char → Option (Json × List Char)
  | 0, _ => none
  | fuel + 1, text =>
      match skipSpace text with
      | '\x22' :: rest =>
          match scanPieces [] rest with
          | some (found, rest) => some (((textOfPieces found).map str).getD unreadable, rest)
          | none => none
      | '[' :: rest =>
          match skipSpace rest with
          | ']' :: rest => some (arr [], rest)
          | rest => parseItems fuel [] rest
      | '\x7b' :: rest =>
          match skipSpace rest with
          | '\x7d' :: rest => some (obj [], rest)
          | rest => parseMembers fuel true [] rest
      | 't' :: 'r' :: 'u' :: 'e' :: rest => some (bool true, rest)
      | 'f' :: 'a' :: 'l' :: 's' :: 'e' :: rest => some (bool false, rest)
      | 'n' :: 'u' :: 'l' :: 'l' :: rest => some (null, rest)
      | rest => parseNumber rest

/-- The items of an array after those of `done` in reverse, up to its closing bracket. -/
def parseItems : Nat → List Json → List Char → Option (Json × List Char)
  | 0, _, _ => none
  | fuel + 1, done, text =>
      match parseValue fuel text with
      | none => none
      | some (item, rest) =>
          match skipSpace rest with
          | ',' :: rest => parseItems fuel (item :: done) rest
          | ']' :: rest => some (arr (item :: done).reverse, rest)
          | _ => none

/-- The members of an object after those of `done` in reverse, up to its closing brace. -/
def parseMembers : Nat → Bool → List (String × Json) → List Char → Option (Json × List Char)
  | 0, _, _, _ => none
  | fuel + 1, readable, done, text =>
      match skipSpace text with
      | '\x22' :: rest =>
          match scanPieces [] rest with
          | none => none
          | some (found, rest) =>
              match skipSpace rest with
              | ':' :: rest =>
                  match parseValue fuel rest with
                  | none => none
                  | some (member, rest) =>
                      let name := textOfPieces found
                      let readable := readable && name.isSome
                      let done := (name.getD "", member) :: done
                      match skipSpace rest with
                      | ',' :: rest => parseMembers fuel readable done rest
                      | '\x7d' :: rest => some (objectOf readable done.reverse, rest)
                      | _ => none
              | _ => none
      | _ => none

end

def parse (text : String) : Option Json :=
  let text := text.toList
  match parseValue (2 * text.length + 2) text with
  | some (found, rest) => if (skipSpace rest).isEmpty then some found else none
  | none => none

end LittleComputer.Json
