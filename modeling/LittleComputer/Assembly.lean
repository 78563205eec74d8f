import LittleComputer.Image
import LittleComputer.Instruction.Coding

/-!
Programs: blocks of statements, each block at its own start address.
-/
namespace LittleComputer

structure Statement where
  label : Option String
  instruction : Instruction
deriving DecidableEq, Repr

/-- Statements at consecutive addresses. -/
structure Block where
  start : Address
  statements : List Statement
deriving DecidableEq, Repr

structure Program where
  blocks : List Block
deriving DecidableEq, Repr

/-- What an assembler lets pass. -/
structure Config where
  /-- What becomes of a label too far away. -/
  offsets : OffsetRule := .strict
  /-- Whether blocks may share addresses. -/
  allowOverlap : Bool := false
deriving DecidableEq, Repr

namespace Block

def length (block : Block) : Nat :=
  block.statements.length

/-- One past the last address, in 32 bits, so that a full block does not wrap. -/
def stop (block : Block) : Nat :=
  (block.start.setWidth 32 + BitVec.ofNat 32 block.length).toNat

/-- Statements with their addresses.  Addresses wrap at the end of memory. -/
def located (block : Block) : List (Address × Statement) :=
  block.statements.zipIdx.map fun (statement, index) => (block.start.advance index, statement)

/-- The labels of statements with their addresses, the first statement being at `cursor`. -/
def definitionsFrom (cursor : Address) : List Statement → List (String × Address)
  | [] => []
  | statement :: rest =>
      let later := definitionsFrom (cursor + 1) rest
      match statement.label with
      | some label => (label, cursor) :: later
      | none => later

def definitions (block : Block) : List (String × Address) :=
  definitionsFrom block.start block.statements

/-- Two blocks that are both non-empty and share an address. -/
def overlaps (a b : Block) : Bool :=
  !a.statements.isEmpty && !b.statements.isEmpty && a.start.toNat < b.stop && b.start.toNat < a.stop

end Block

/-!
Assembling.  Layout gives every statement its address and collects the labels; then every statement
is encoded against the finished table, so that a label may be used before its definition.  Neither
step stops at a problem, and a program with problems is answered with all of them.
-/

structure Assembled where
  image : Image
  symbols : SymbolTable
deriving DecidableEq

def problem? {α : Type} : Except AssemblyError α → Option AssemblyError
  | .error error => some error
  | .ok _ => none

namespace Block

/-- Problems of a block's place in memory, `earlier` being the blocks before it. -/
def placementErrors (config : Config) (earlier : List Block) (block : Block) :
    List AssemblyError :=
  let overflow :=
    if memorySize < block.stop then [.blockOverflow block.start block.length] else []
  let overlap :=
    if config.allowOverlap then []
    else ((earlier.find? block.overlaps).map fun clash =>
      .overlappingBlocks clash.start block.start).toList
  overflow ++ overlap

/-- Words or problems of a block's statements, one for each. -/
def encode (rule : OffsetRule) (symbols : SymbolTable) (block : Block) :
    List (Logged (Except AssemblyError Word)) :=
  block.located.map fun (address, statement) => do
    let result ← (statement.instruction.encode rule (address + 1) symbols).run
    return result.mapError (.encoding address)

end Block

namespace Program

/-- Lays out the last blocks of a program after the `earlier` ones, which defined `symbols`. -/
def layoutFrom (config : Config) (earlier : List Block) (symbols : SymbolTable) :
    List Block → SymbolTable × List AssemblyError
  | [] => (symbols, [])
  | block :: rest =>
      let (symbols, duplicates) := symbols.defineAll block.definitions
      let (symbols, errors) := layoutFrom config (earlier ++ [block]) symbols rest
      (symbols, block.placementErrors config earlier ++ duplicates ++ errors)

def layout (program : Program) (config : Config) : SymbolTable × List AssemblyError :=
  layoutFrom config [] .empty program.blocks

def assemble (program : Program) (config : Config) :
    Logged (Except (List AssemblyError) Assembled) := do
  let (symbols, layoutErrors) := program.layout config
  Logged.emit (.placed program.blocks.length symbols.size layoutErrors.length)
  let encoded ← Logged.all (program.blocks.map fun block =>
    Logged.all (block.encode config.offsets symbols))
  let errors := layoutErrors ++ encoded.flatten.filterMap problem?
  Logged.emit (.finished errors.length)
  if errors.isEmpty then
    let segments := (program.blocks.zip encoded).map fun (block, results) =>
      { origin := block.start, words := results.filterMap Except.toOption }
    return .ok ⟨⟨segments⟩, symbols⟩
  else
    return .error errors

end Program

end LittleComputer
