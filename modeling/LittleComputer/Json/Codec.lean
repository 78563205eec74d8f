import LittleComputer.Json.Parser
import LittleComputer.Json.Printer

/-!
Typed reading and writing of JSON.  A type has a `Codec` when its values have a JSON form; reading
names the first thing that is not as it should be.
-/
namespace LittleComputer

/-- Why a JSON value is not the form of a value of some type. -/
inductive ReadError
  | wrongType (found : Json) (wanted : String)
  | wrongValue (found : Json) (wanted : String)
  | wrongLength (length : Nat) (wanted : String)
  | missingField (name : String)
  | repeatedField (name : String)
  | unknownVariant (name : String) (known : List String)
  /-- The form is right, and the value is refused for a reason of its own. -/
  | refused (reason : String)

/-- A JSON value as messages call it. -/
def Json.described : Json → String
  | .null => "null"
  | .bool true => "boolean `true`"
  | .bool false => "boolean `false`"
  | .int number => s!"integer `{Numeral.decimal number}`"
  | .float number => s!"floating point `{Decimal.floatText number}`"
  | .str text => s!"string {Text.quotedString text}"
  | .arr _ => "sequence"
  | .obj _ => "map"
  | .unreadable => "unreadable text"

/-- A choice among names: `a` or `b`, or one of several. -/
def choiceText (names : List String) : String :=
  match names.map fun name => s!"`{name}`" with
  | [a, b] => s!"{a} or {b}"
  | [a] => a
  | quoted => "one of " ++ String.intercalate ", " quoted

def ReadError.message : ReadError → String
  | .wrongType found wanted => s!"invalid type: {found.described}, expected {wanted}"
  | .wrongValue found wanted => s!"invalid value: {found.described}, expected {wanted}"
  | .wrongLength length wanted => s!"invalid length {Numeral.decimal length}, expected {wanted}"
  | .missingField name => s!"missing field `{name}`"
  | .repeatedField name => s!"duplicate field `{name}`"
  | .unknownVariant name known => s!"unknown variant `{name}`, expected {choiceText known}"
  | .refused reason => reason

/-- A type whose values have a JSON form. -/
class Codec (α : Type) where
  write : α → Json
  read : Json → Except ReadError α

namespace Codec

/-- Reads an integer from `low` to `high`; `wanted` is the name of that range. -/
def readInt (low high : Int) (wanted : String) : Json → Except ReadError Int
  | .int number =>
      if low ≤ number ∧ number ≤ high then .ok number
      else .error (.wrongValue (.int number) wanted)
  | other => .error (.wrongType other wanted)

def readByte (value : Json) : Except ReadError Nat :=
  (readInt 0 255 "u8" value).map Int.toNat

instance : Codec Bool where
  write := .bool
  read
    | .bool value => .ok value
    | other => .error (.wrongType other "a boolean")

instance : Codec String where
  write := .str
  read
    | .str text => .ok text
    | other => .error (.wrongType other "a string")

instance : Codec (BitVec 16) where
  write word := .int word.toNat
  read value := (readInt 0 65535 "u16" value).map (BitVec.ofInt 16)

instance : Codec Int16 where
  write number := .int number.toInt
  read value := (readInt (-32768) 32767 "i16" value).map Int16.ofInt

/-- An absent value is null. -/
instance {α : Type} [Codec α] : Codec (Option α) where
  write
    | some value => write value
    | none => .null
  read
    | .null => .ok none
    | other => (read other).map some

instance {α : Type} [Codec α] : Codec (List α) where
  write items := .arr (items.map write)
  read
    | .arr items => items.mapM read
    | other => .error (.wrongType other "a sequence")

/-- A map is an object.  Of several members of one name the last counts. -/
instance {α : Type} [Codec α] : Codec (Dictionary α) where
  write map := .obj (map.entries.map fun (name, value) => (name, write value))
  read
    | .obj members => do
        let pairs ← members.mapM fun (name, value) => do
          let value ← read value
          return (name, value)
        return .ofList pairs
    | other => .error (.wrongType other "a map")

def variant {α : Type} (variants : List (String × α)) (name : String) : Except ReadError α :=
  match variants.lookup name with
  | some value => .ok value
  | none => .error (.unknownVariant name (variants.map (·.1)))

/-- Reads one of some named values: its name, or an object that maps its name to null. -/
def readVariant {α : Type} (variants : List (String × α)) : Json → Except ReadError α
  | .str name => variant variants name
  | .obj [(name, content)] => do
      let value ← variant variants name
      match content with
      | .null => return value
      | other => throw (.wrongType other "unit")
  | .obj members => .error (.wrongValue (.obj members) "map with a single key")
  | other => .error (.wrongType other "string or map")

def ofText {α : Type} [Codec α] (text : String) : Option α :=
  (Json.parse text).bind fun value => (read value).toOption

end Codec

end LittleComputer
