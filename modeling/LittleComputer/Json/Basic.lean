import LittleComputer.Dictionary

/-!
JSON values.  An object keeps its members in the order of the text, repeated names included.
-/
namespace LittleComputer

inductive Json
  | null
  | bool (value : Bool)
  /-- A number written without point and exponent. -/
  | int (value : Int)
  | float (value : Float)
  | str (value : String)
  | arr (items : List Json)
  | obj (members : List (String × Json))
  /-- Grammatical text that denotes no value: a string with half of a surrogate pair, or a number
  beyond the largest double.  It may stand where nobody reads it. -/
  | unreadable

namespace Json

/-!
JSON strings.  Reading goes in two steps: the grammar gives characters and code units, and pairing
joins the code units of surrogate pairs.  Writing escapes quotes, backslashes and controls alone.
-/

/-- A piece of a string literal: a character, or a UTF-16 code unit given by its number. -/
inductive Piece
  | char (c : Char)
  | unit (code : Nat)

/-- The value of four hexadecimal digits. -/
def codeUnit? (a b c d : Char) : Option Nat := do
  let a ← Numeral.digit? 16 a
  let b ← Numeral.digit? 16 b
  let c ← Numeral.digit? 16 c
  let d ← Numeral.digit? 16 d
  return ((a * 16 + b) * 16 + c) * 16 + d

/-- The character that stands for itself after a backslash or has a letter there. -/
def shortEscape? (c : Char) : Option Char :=
  if c = '\x22' ∨ c = '\\' ∨ c = '/' then some c
  else if c = 'b' then some '\x08'
  else if c = 'f' then some '\x0c'
  else if c = 'n' then some '\n'
  else if c = 'r' then some '\r'
  else if c = 't' then some '\t'
  else none

/-- The pieces of a string after its opening quote, with those of `done` in reverse before them, and
the text after its closing quote. -/
def scanPieces (done : List Piece) : List Char → Option (List Piece × List Char)
  | [] => none
  | '\x22' :: rest => some (done.reverse, rest)
  | '\\' :: 'u' :: a :: b :: c :: d :: rest =>
      match codeUnit? a b c d with
      | some code => scanPieces (.unit code :: done) rest
      | none => none
  | '\\' :: c :: rest =>
      match shortEscape? c with
      | some c => scanPieces (.char c :: done) rest
      | none => none
  | c :: rest => if c.toNat < 0x20 ∨ c = '\\' then none else scanPieces (.char c :: done) rest

/-- First half of a surrogate pair. -/
def isHighSurrogate (code : Nat) : Bool :=
  0xD800 ≤ code && code < 0xDC00

/-- Second half of a surrogate pair. -/
def isLowSurrogate (code : Nat) : Bool :=
  0xDC00 ≤ code && code < 0xE000

/-- The characters of pieces, after those of `done` in reverse.  Half a surrogate pair is none. -/
def joinPieces (done : List Char) : List Piece → Option (List Char)
  | [] => some done.reverse
  | .char c :: rest => joinPieces (c :: done) rest
  | .unit high :: .unit low :: rest =>
      if isHighSurrogate high then
        if isLowSurrogate low then
          let code := 0x10000 + (high - 0xD800) * 0x400 + (low - 0xDC00)
          joinPieces (Char.ofNat code :: done) rest
        else none
      else if isLowSurrogate high then none
      else joinPieces (Char.ofNat high :: done) (.unit low :: rest)
  | .unit code :: rest =>
      if isHighSurrogate code || isLowSurrogate code then none
      else joinPieces (Char.ofNat code :: done) rest

def textOfPieces (pieces : List Piece) : Option String :=
  (joinPieces [] pieces).map String.ofList

/-- A character as it is written in a string. -/
def escapedChar (c : Char) : List Char :=
  if c = '\x22' ∨ c = '\\' then ['\\', c]
  else if c = '\x08' then ['\\', 'b']
  else if c = '\x0c' then ['\\', 'f']
  else if c = '\n' then ['\\', 'n']
  else if c = '\r' then ['\\', 'r']
  else if c = '\t' then ['\\', 't']
  else if c.toNat < 0x20 then '\\' :: 'u' :: Numeral.padded 16 4 c.toNat
  else [c]

def quoted (text : String) : String :=
  String.ofList ('\x22' :: text.toList.flatMap escapedChar ++ ['\x22'])

end Json

end LittleComputer
