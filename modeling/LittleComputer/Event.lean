import LittleComputer.Instruction.Basic

/-!
Events: what the library has to say about its work besides the result.  A computation that speaks
is a `Logged` value, which holds the result and the events in the order of their emission.
-/
namespace LittleComputer

/-- Importance of an event, most important first. -/
inductive Level
  | warn | debug | trace
deriving DecidableEq, Repr

def Level.name : Level → String
  | warn => "WARN"
  | debug => "DEBUG"
  | trace => "TRACE"

inductive Event
  /-- A value lost bits on its way into a field. -/
  | valueTruncated (field : String) (value : Int) (bits : Nat)
  /-- The distance to a label lost bits on its way into a field. -/
  | offsetTruncated (label : String) (offset : Int) (bits : Nat)
  /-- Every statement of a program has its address. -/
  | placed (blocks symbols errors : Nat)
  /-- Every statement of a program was encoded or refused. -/
  | finished (errors : Nat)
  /-- A listed word is no instruction. -/
  | undecodable (address : Address) (error : DecodeError)
  | encoded (instruction : Instruction) (word : Word)
  /-- The decoding of a word was known already. -/
  | cacheHit (word : Word)
deriving DecidableEq, Repr

namespace Event

def level : Event → Level
  | valueTruncated _ _ _ | offsetTruncated _ _ _ => .warn
  | placed _ _ _ | finished _ | undecodable _ _ => .debug
  | encoded _ _ | cacheHit _ => .trace

def text : Event → String
  | valueTruncated field value bits =>
      s!"value truncated to field width field={field} value={Numeral.decimal value} " ++
        s!"bits={Numeral.decimal bits}"
  | offsetTruncated label offset bits =>
      s!"offset truncated to field width label={label} offset={Numeral.decimal offset} " ++
        s!"bits={Numeral.decimal bits}"
  | placed blocks symbols errors =>
      s!"pass 1 done blocks={Numeral.decimal blocks} symbols={Numeral.decimal symbols} " ++
        s!"errors={Numeral.decimal errors}"
  | finished errors => s!"pass 2 done errors={Numeral.decimal errors}"
  | undecodable address error => s!"not an instruction addr={address.hex} error={error.message}"
  | encoded instruction word => s!"encoded instr={instruction.text} word={word.hex}"
  | cacheHit word => s!"decode cache hit word={word.hex}"

def line (event : Event) : String :=
  s!"{event.level.name} {event.text}"

end Event

/-- A result and the events on the way to it. -/
structure Logged (α : Type) where
  value : α
  events : List Event

namespace Logged

variable {α β : Type}

def silent (value : α) : Logged α := ⟨value, []⟩

def emit (event : Event) : Logged Unit := ⟨(), [event]⟩

def andThen (first : Logged α) (second : α → Logged β) : Logged β :=
  let next := second first.value
  ⟨next.value, first.events ++ next.events⟩

instance : Monad Logged where
  pure := silent
  bind := andThen

/-- Computations that do not depend on each other, in order. -/
def all (computations : List (Logged α)) : Logged (List α) :=
  ⟨computations.map value, computations.flatMap events⟩

@[simp] theorem value_pure (a : α) : (pure a : Logged α).value = a := rfl

@[simp] theorem events_pure (a : α) : (pure a : Logged α).events = [] := rfl

@[simp] theorem value_bind (first : Logged α) (second : α → Logged β) :
    (first >>= second).value = (second first.value).value := rfl

@[simp] theorem events_bind (first : Logged α) (second : α → Logged β) :
    (first >>= second).events = first.events ++ (second first.value).events := rfl

end Logged

end LittleComputer
