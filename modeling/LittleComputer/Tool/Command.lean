import LittleComputer.Machine

/-!
The command line, from arguments to commands.  An argument is positional or an option.  The value of
an option follows it as the next argument or after an equals sign; `--` ends the options.
-/
namespace LittleComputer.Tool

/-- What may follow an option. -/
inductive OptionKind
  /-- Nothing. -/
  | flag
  /-- A text, empty or not. -/
  | text
  /-- The name of a file, never empty. -/
  | file
deriving DecidableEq, Repr

/-- An option that a command knows.  A short option has a value. -/
structure OptionSpec where
  name : String
  short : Option Char := none
  kind : OptionKind
deriving DecidableEq, Repr

structure Arguments where
  positionals : List String := []
  /-- Values by option; a flag has the empty value. -/
  options : List (String × String) := []
deriving DecidableEq, Repr

namespace Arguments

def value? (arguments : Arguments) (name : String) : Option String :=
  arguments.options.lookup name

def has (arguments : Arguments) (name : String) : Bool :=
  (arguments.value? name).isSome

def addPositional (arguments : Arguments) (text : String) : Arguments :=
  { arguments with positionals := arguments.positionals ++ [text] }

/-- Adds an option with its value.  No option is given twice, and files have names. -/
def addOption (arguments : Arguments) (spec : OptionSpec) (value : String) : Option Arguments :=
  if arguments.has spec.name || (spec.kind == .file && value.isEmpty) then none
  else some { arguments with options := arguments.options ++ [(spec.name, value)] }

/-- An argument by its look. -/
inductive Argument
  /-- `--` -/
  | endOfOptions
  /-- `--name` or `--name=value` -/
  | long (name : String) (value : Option String)
  /-- `-c`, `-cvalue` or `-c=value` -/
  | short (letter : Char) (value : Option String)
  | plain (text : String)

/-- A text up to its first equals sign, and what stands after it. -/
def splitEquals (text : List Char) : String × Option String :=
  match text.span (· ≠ '=') with
  | (name, []) => (String.ofList name, none)
  | (name, _ :: value) => (String.ofList name, some (String.ofList value))

/-- What an argument looks like.  A single hyphen is a plain text. -/
def Argument.ofText (text : String) : Argument :=
  match text.toList with
  | ['-', '-'] => .endOfOptions
  | '-' :: '-' :: rest =>
      let (name, value) := splitEquals rest
      .long name value
  | ['-', letter] => .short letter none
  | '-' :: letter :: '=' :: value => .short letter (some (String.ofList value))
  | '-' :: letter :: value => .short letter (some (String.ofList value))
  | _ => .plain text

/-- What has been read so far. -/
structure Progress where
  given : Arguments := {}
  /-- The option whose value comes next. -/
  pending : Option OptionSpec := none
  /-- Whether the options are over. -/
  ended : Bool := false

namespace Progress

/-- An option with the value given to it, if any.  A flag has none; another option waits for the
next argument. -/
def enter (progress : Progress) (spec : OptionSpec) : Option String → Option Progress
  | some value =>
      if spec.kind = .flag then none
      else do
        let given ← progress.given.addOption spec value
        return { progress with given, pending := none }
  | none =>
      if spec.kind = .flag then do
        let given ← progress.given.addOption spec ""
        return { progress with given }
      else some { progress with pending := some spec }

/-- Takes the next argument.  There is no result if it breaks the rules. -/
def step (specs : List OptionSpec) (progress : Progress) (text : String) : Option Progress :=
  let positional := { progress with given := progress.given.addPositional text }
  if progress.ended then some positional
  else
    match progress.pending, Argument.ofText text with
    | some spec, .plain value => progress.enter spec (some value)
    | some _, _ => none
    | none, .plain _ => some positional
    | none, .endOfOptions => some { progress with ended := true }
    | none, .long name value => do
        let spec ← specs.find? fun spec => spec.name == name
        progress.enter spec value
    | none, .short letter value => do
        let spec ← specs.find? fun spec => spec.short == some letter
        progress.enter spec value

end Progress

/-- Reads the arguments of a command.  There is no result if they break the rules. -/
def read (specs : List OptionSpec) (arguments : List String) : Option Arguments := do
  let progress ← arguments.foldlM (Progress.step specs) {}
  if progress.pending.isSome then none else return progress.given

/-- The only positional argument, the name of a file. -/
def onlyFile? (arguments : Arguments) : Option String :=
  match arguments.positionals with
  | [file] => if file.isEmpty then none else some file
  | _ => none

end Arguments

end LittleComputer.Tool

/-!
Addresses as a user types them: decimal, or hexadecimal after `x` or `0x`, with white space around
and one plus sign in front of the digits.
-/
namespace LittleComputer

/-- What is wrong with the digits of an address. -/
inductive DigitError
  | empty
  | invalidDigit
  | tooLarge
deriving DecidableEq, Repr

def DigitError.message : DigitError → String
  | .empty => "cannot parse integer from empty string"
  | .invalidDigit => "invalid digit found in string"
  | .tooLarge => "number too large to fit in target type"

/-- A text that is no address, without the white space around it. -/
structure AddressError where
  text : String
  cause : DigitError
deriving DecidableEq, Repr

namespace AddressError

def message (error : AddressError) : String :=
  s!"bad address {Text.quotedString error.text}"

def detail (error : AddressError) : String :=
  s!"{error.message}: {error.cause.message}"

end AddressError

namespace Address

/-- Reads digits after others of value `value`.  A character is judged as a digit before the number
is judged by its size. -/
def readDigits (radix value : Nat) : List Char → Except DigitError Nat
  | [] => .ok value
  | c :: rest =>
      match Numeral.digit? radix c with
      | none => .error .invalidDigit
      | some digit =>
          let value := value * radix + digit
          if memorySize ≤ value then .error .tooLarge else readDigits radix value rest

/-- Reads an unsigned number, with or without a plus sign. -/
def readNumber (radix : Nat) : List Char → Except DigitError Nat
  | [] => .error .empty
  | '+' :: c :: rest => readDigits radix 0 (c :: rest)
  | text => readDigits radix 0 text

/-- The radix of an address and the text after its mark. -/
def splitRadix : List Char → Nat × List Char
  | '0' :: 'x' :: rest => (16, rest)
  | '0' :: 'X' :: rest => (16, rest)
  | 'x' :: rest => (16, rest)
  | 'X' :: rest => (16, rest)
  | text => (10, text)

def parse (text : String) : Except AddressError Address :=
  let trimmed := Text.trim text.toList
  let (radix, rest) := splitRadix trimmed
  match readNumber radix rest with
  | .ok value => .ok (BitVec.ofNat 16 value)
  | .error cause => .error ⟨String.ofList trimmed, cause⟩

end Address

end LittleComputer

/-!
The commands of the tool.
-/
namespace LittleComputer.Tool

structure AssembleCommand where
  program : String
  /-- The image file; by default the program file with another extension. -/
  output : Option String := none
  /-- Where to write the symbol table. -/
  symbols : Option String := none
  config : Option String := none
  wrapOffsets : Bool := false
  allowOverlap : Bool := false
deriving DecidableEq, Repr

structure ListCommand where
  image : String
  /-- The text of the address of the first word. -/
  origin : String := "x3000"
  /-- The symbol table that names addresses. -/
  symbols : Option String := none
  showWords : Bool := false
  /-- Where to write the listing instead of printing it. -/
  output : Option String := none
deriving DecidableEq, Repr

inductive Command
  | assemble (command : AssembleCommand)
  | list (command : ListCommand)
deriving DecidableEq, Repr

namespace Command

def assembleOptions : List OptionSpec :=
  [{ name := "output", short := some 'o', kind := .file }, { name := "symbols", kind := .file },
   { name := "config", kind := .file }, { name := "wrap-offsets", kind := .flag },
   { name := "allow-overlap", kind := .flag }]

def listOptions : List OptionSpec :=
  [{ name := "origin", kind := .text }, { name := "symbols", kind := .file },
   { name := "show-words", kind := .flag }, { name := "out", kind := .file }]

def parse : List String → Option Command
  | "assemble" :: rest => do
      let arguments ← Arguments.read assembleOptions rest
      let program ← arguments.onlyFile?
      return .assemble {
        program
        output := arguments.value? "output"
        symbols := arguments.value? "symbols"
        config := arguments.value? "config"
        wrapOffsets := arguments.has "wrap-offsets"
        allowOverlap := arguments.has "allow-overlap" }
  | "disasm" :: rest => do
      let arguments ← Arguments.read listOptions rest
      let image ← arguments.onlyFile?
      return .list {
        image
        origin := (arguments.value? "origin").getD "x3000"
        symbols := arguments.value? "symbols"
        showWords := arguments.has "show-words"
        output := arguments.value? "out" }
  | _ => none

end Command

end LittleComputer.Tool
