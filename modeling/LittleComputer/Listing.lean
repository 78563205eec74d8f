import LittleComputer.Image
import LittleComputer.Instruction.Coding
import Std.Data.HashMap

/-!
Listings: one line for each word, with its address, the label at that address, and the instruction
it decodes to.  Targets are shown by label where the symbol table has one, and words that are no
instruction are shown as data.
-/
namespace LittleComputer

/-- The instruction with a numeric target replaced by the first label at the address it reaches. -/
def Instruction.symbolic (instruction : Instruction) (next : Address) (symbols : SymbolTable) :
    Instruction :=
  match (instruction.destination? next).bind symbols.labelAt? with
  | some name => instruction.withTarget (.label name)
  | none => instruction

structure Line where
  address : Address
  word : Word
  /-- The label at the address. -/
  label : Option String
  text : String
deriving DecidableEq, Repr

namespace Line

/-- A line as it is printed, with or without the word. -/
def render (line : Line) (showWord : Bool) : String :=
  let word := if showWord then s!"{line.word.listed}  " else ""
  let label := (line.label.map fun name => s!"{name}: ").getD ""
  s!"x{line.address.listed}: {word}{label}{line.text}"

/-- The line of a word that decoded to `decoded`. -/
def ofDecoded (symbols : Option SymbolTable) (address : Address) (word : Word)
    (decoded : Except DecodeError Instruction) : Logged Line := do
  let label := symbols.bind fun symbols => symbols.labelAt? address
  match decoded with
  | .ok instruction =>
      let shown := match symbols with
        | some symbols => instruction.symbolic (address + 1) symbols
        | none => instruction
      return ⟨address, word, label, shown.text⟩
  | .error error =>
      Logged.emit (.undecodable address error)
      return ⟨address, word, label, s!".FILL x{word.listed}"⟩

end Line

/-- Lines of consecutive words from `origin` on, each given with its decoding. -/
def listing (symbols : Option SymbolTable) (origin : Address)
    (decoded : List (Word × Logged (Except DecodeError Instruction))) : Logged (List Line) :=
  Logged.all (decoded.zipIdx.map fun ((word, decoding), index) => do
    let result ← decoding
    Line.ofDecoded symbols (origin.advance index) word result)

/-- Lines of consecutive words from `origin` on, as `decoder` reads them. -/
def disassembleWith (decoder : Word → Except DecodeError Instruction)
    (symbols : Option SymbolTable) (origin : Address) (words : List Word) :
    Logged (List Line) :=
  listing symbols origin (words.map fun word => (word, pure (decoder word)))

def disassemble (symbols : Option SymbolTable) (origin : Address) (words : List Word) :
    Logged (List Line) :=
  disassembleWith decode symbols origin words

namespace Image

/-- Lines of all segments of an image, in order. -/
def disassemble (image : Image) (symbols : Option SymbolTable) : Logged (List Line) := do
  let lines ← Logged.all (image.segments.map fun segment =>
    LittleComputer.disassemble symbols segment.origin segment.words)
  return lines.flatten

end Image

/-!
A memory of decoded words.  Decoding depends on the word alone, so that what was found once holds
for good; words that are no instruction are not remembered.
-/

/-- Instructions by the words they were decoded from. -/
structure DecodeCache where
  known : Std.HashMap Word Instruction

namespace DecodeCache

def empty : DecodeCache := ⟨∅⟩

def size (cache : DecodeCache) : Nat :=
  cache.known.size

def clear (_cache : DecodeCache) : DecodeCache := empty

/-- Decodes a word, by `decoder` if it is not known yet. -/
def decode (decoder : Word → Except DecodeError Instruction) (cache : DecodeCache) (word : Word) :
    Logged (Except DecodeError Instruction) × DecodeCache :=
  match cache.known[word]? with
  | some instruction => (⟨.ok instruction, [.cacheHit word]⟩, cache)
  | none =>
      match decoder word with
      | .ok instruction => (pure (.ok instruction), ⟨cache.known.insert word instruction⟩)
      | .error error => (pure (.error error), cache)

/-- Decodes words one after the other, with the results of `done` in reverse before theirs. -/
def decodeFrom (decoder : Word → Except DecodeError Instruction)
    (done : List (Word × Logged (Except DecodeError Instruction))) (cache : DecodeCache) :
    List Word → List (Word × Logged (Except DecodeError Instruction)) × DecodeCache
  | [] => (done.reverse, cache)
  | word :: rest =>
      let (result, cache) := cache.decode decoder word
      decodeFrom decoder ((word, result) :: done) cache rest

def decodeAll (decoder : Word → Except DecodeError Instruction) (cache : DecodeCache)
    (words : List Word) : List (Word × Logged (Except DecodeError Instruction)) × DecodeCache :=
  decodeFrom decoder [] cache words

/-- Lines of consecutive words from `origin` on, as `decoder` reads them through the cache. -/
def disassembleWith (decoder : Word → Except DecodeError Instruction) (cache : DecodeCache)
    (symbols : Option SymbolTable) (origin : Address) (words : List Word) :
    Logged (List Line) × DecodeCache :=
  let (decoded, cache) := cache.decodeAll decoder words
  (listing symbols origin decoded, cache)

def disassemble (cache : DecodeCache) (symbols : Option SymbolTable) (origin : Address)
    (words : List Word) : Logged (List Line) × DecodeCache :=
  cache.disassembleWith LittleComputer.decode symbols origin words

def disassembleSegments (cache : DecodeCache) (symbols : Option SymbolTable) :
    List Segment → Logged (List Line) × DecodeCache
  | [] => (pure [], cache)
  | segment :: rest =>
      let (lines, cache) := cache.disassemble symbols segment.origin segment.words
      let (more, cache) := disassembleSegments cache symbols rest
      (do return (← lines) ++ (← more), cache)

end DecodeCache

end LittleComputer
