import LittleComputer.Json.Codec

/-!
Structures as JSON objects.  A structure has named fields in a fixed order; its JSON form is an
object with those members, in any order and among others, or an array of the fields in their order.
-/
namespace LittleComputer

/-- Whether a field may be left out. -/
inductive Presence
  /-- It has to be given. -/
  | required
  /-- It may be left out of an object, and has its place in an array. -/
  | optional
  /-- It has a default value. -/
  | defaulted
deriving DecidableEq, Repr

/-- A field of a structure, and how its value is entered into a draft. -/
structure Slot (α : Type) where
  name : String
  otherName : Option String := none
  presence : Presence
  store : α → Json → Except ReadError α

/-- The fields of a structure, and the draft that reading starts from. -/
structure Shape (α : Type) where
  name : String
  blank : α
  slots : List (Slot α)

variable {α : Type}

def Slot.of {β : Type} [Codec β] (name : String) (presence : Presence) (set : α → β → α) :
    Slot α where
  name := name
  presence := presence
  store draft value := (Codec.read value).map (set draft)

/-- Whether the field is the one that an object calls `name`. -/
def Slot.answers (slot : Slot α) (name : String) : Bool :=
  slot.name == name || slot.otherName == some name

namespace Shape

/-- The text of what is wanted in place of a short array. -/
def elementsText (shape : Shape α) : String :=
  let count := shape.slots.length
  let noun := if count = 1 then "element" else "elements"
  s!"struct {shape.name} with {Numeral.decimal count} {noun}"

/-- Enters a member of an object into a draft.  `given` are the fields so far; members that are no
fields are passed over. -/
def readMember (shape : Shape α) (state : List String × α) (member : String × Json) :
    Except ReadError (List String × α) :=
  let (given, draft) := state
  match shape.slots.find? fun slot => slot.answers member.1 with
  | none => .ok state
  | some slot =>
      if given.contains slot.name then .error (.repeatedField slot.name)
      else do
        let draft ← slot.store draft member.2
        return (slot.name :: given, draft)

def readMembers (shape : Shape α) (members : List (String × Json)) : Except ReadError α := do
  let (given, draft) ← members.foldlM shape.readMember ([], shape.blank)
  let missing := shape.slots.find? fun slot =>
    slot.presence == .required && !given.contains slot.name
  match missing with
  | some slot => throw (.missingField slot.name)
  | none => return draft

/-- Enters the elements of an array into a draft, the first of them into the field number `index`,
which is the first of `slots`.  Gives the elements left over too. -/
def readElements (shape : Shape α) :
    List (Slot α) → Nat → α → List Json → Except ReadError (α × List Json)
  | [], _, draft, items => .ok (draft, items)
  | slot :: slots, index, draft, [] =>
      if slot.presence = .defaulted then shape.readElements slots (index + 1) draft []
      else .error (.wrongLength index shape.elementsText)
  | slot :: slots, index, draft, item :: items => do
      let draft ← slot.store draft item
      shape.readElements slots (index + 1) draft items

def readArray (shape : Shape α) (items : List Json) : Except ReadError α := do
  let (draft, rest) ← shape.readElements shape.slots 0 shape.blank items
  if rest.isEmpty then return draft
  else throw (.wrongLength items.length "fewer elements in array")

def read (shape : Shape α) : Json → Except ReadError α
  | .obj members => shape.readMembers members
  | .arr items => shape.readArray items
  | other => .error (.wrongType other s!"struct {shape.name}")

end Shape

/-- A member that is left out when there is no value. -/
def optionalMember {β : Type} [Codec β] (name : String) : Option β → List (String × Json)
  | some value => [(name, Codec.write value)]
  | none => []

end LittleComputer
