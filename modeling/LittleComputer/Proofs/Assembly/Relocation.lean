import LittleComputer.Proofs.Assembly.Acceptance
import LittleComputer.Proofs.Assembly.Alteration

/-!
Relocation.  Words hold distances between addresses and no address, so a program may be moved: if
all blocks of it start the same number of words further up and still end inside memory, it has the
same words and the same problems as before, and every address in the answer is as much further up.
-/
namespace LittleComputer

def Block.moved (count : Nat) (block : Block) : Block :=
  { block with start := block.start.advance count }

def Program.moved (count : Nat) (program : Program) : Program :=
  ⟨program.blocks.map (Block.moved count)⟩

def Segment.moved (count : Nat) (segment : Segment) : Segment :=
  { segment with origin := segment.origin.advance count }

def SymbolTable.moved (count : Nat) (symbols : SymbolTable) : SymbolTable :=
  symbols.map fun address => address.advance count

def Assembled.moved (count : Nat) (out : Assembled) : Assembled :=
  ⟨⟨out.image.segments.map (Segment.moved count)⟩, out.symbols.moved count⟩

/-- The problem with every address in it `count` words further up. -/
def AssemblyError.moved (count : Nat) : AssemblyError → AssemblyError
  | .duplicateLabel label first second =>
      .duplicateLabel label (first.advance count) (second.advance count)
  | .overlappingBlocks first second =>
      .overlappingBlocks (first.advance count) (second.advance count)
  | .blockOverflow origin length => .blockOverflow (origin.advance count) length
  | .encoding address cause => .encoding (address.advance count) cause

def AssemblyError.addresses : AssemblyError → List Address
  | .duplicateLabel _ first second => [first, second]
  | .overlappingBlocks first second => [first, second]
  | .blockOverflow origin _ => [origin]
  | .encoding address _ => [address]

/-- A block that still starts and ends inside memory when it is moved up by `count` words. -/
structure Block.HasRoom (count : Nat) (block : Block) : Prop where
  start : block.start.toNat + count < memorySize
  stop : block.start.toNat + count + block.length ≤ memorySize

instance (count : Nat) (block : Block) : Decidable (block.HasRoom count) :=
  decidable_of_iff (block.start.toNat + count < memorySize ∧
      block.start.toNat + count + block.length ≤ memorySize)
    ⟨fun hroom => ⟨hroom.1, hroom.2⟩, fun hroom => ⟨hroom.start, hroom.stop⟩⟩

theorem SymbolTable.find?_moved (count : Nat) (symbols : SymbolTable) (label : String) :
    (symbols.moved count).find? label =
      (symbols.find? label).map fun address => address.advance count :=
  Dictionary.find?_map _ symbols label

namespace Encoding

theorem distance_advance (next address : Address) (count : Nat) :
    distance (next.advance count) (address.advance count) = distance next address := by
  simp only [distance, Address.advance]
  congr 1
  grind

/-- Where an instruction and the labels move together, the number for its field stays. -/
theorem number_moved (rule : OffsetRule) (next : Address) (symbols : SymbolTable)
    (count : Nat) (instruction : Instruction) :
    number rule (next.advance count) (symbols.moved count) instruction =
      number rule next symbols instruction := by
  cases hlabel : instruction.label? with
  | none =>
      cases hnumeral : instruction.numeral? with
      | none => rw [number_of_plain hnumeral hlabel, number_of_plain hnumeral hlabel]
      | some entry => rw [number_of_numeral hnumeral, number_of_numeral hnumeral]
  | some name =>
      obtain ⟨width, htarget⟩ := Instruction.label?_eq_some_iff.mp hlabel
      rw [number_of_target htarget, number_of_target htarget]
      simp only [offset, SymbolTable.find?_moved]
      cases symbols.find? name with
      | none => rfl
      | some address => simp only [Option.map_some, distance_advance]

end Encoding

namespace Block.HasRoom

variable {count : Nat} {a b block : Block}

theorem toNat_start (hroom : block.HasRoom count) :
    (block.moved count).start.toNat = block.start.toNat + count :=
  Address.toNat_advance hroom.start

theorem length_lt (hroom : block.HasRoom count) : block.length < 2 ^ 31 := by
  have hstop := hroom.stop
  rw [memorySize] at hstop
  omega

theorem stop_eq (hroom : block.HasRoom count) :
    block.stop = block.start.toNat + block.length :=
  Block.stop_eq hroom.length_lt

theorem stop_moved (hroom : block.HasRoom count) :
    (block.moved count).stop = block.stop + count := by
  have hlength : (block.moved count).length < 2 ^ 31 := hroom.length_lt
  rw [Block.stop_eq hlength, hroom.stop_eq, hroom.toNat_start, Nat.add_right_comm]
  rfl

theorem stop_le (hroom : block.HasRoom count) : block.stop + count ≤ memorySize := by
  have hstop := hroom.stop
  rw [hroom.stop_eq]
  omega

theorem overlaps_moved (ha : a.HasRoom count) (hb : b.HasRoom count) :
    (a.moved count).overlaps (b.moved count) = a.overlaps b := by
  have hlength : ∀ block : Block, (block.moved count).length = block.length := fun _ => rfl
  rw [Bool.eq_iff_iff, overlaps_iff, overlaps_iff, ha.stop_moved, hb.stop_moved,
    ha.toNat_start, hb.toNat_start, hlength, hlength]
  omega

end Block.HasRoom

namespace Program

variable {count : Nat}

/-- Moving a program, as an alteration of its addresses. -/
def relocation (count : Nat) : Alteration :=
  ⟨id, fun address => address.advance count, id, SymbolTable.moved count, id⟩

theorem block_relocation (block : Block) :
    (relocation count).block block = block.moved count := by
  rw [Alteration.block, relocation, List.map_id]
  rfl

/-- Layout and encoding follow a program that has room to be moved. -/
theorem relocation_followed : (relocation count).Followed (Block.HasRoom count) where
  empty := rfl
  find? := SymbolTable.find?_moved count
  set := by
    intro symbols label address
    exact Dictionary.map_set (fun address => address.advance count) symbols label address
  label := by
    intro statement
    rw [relocation, Option.map_id]
    rfl
  advance := by
    intro address index
    exact Address.advance_comm address index count
  number := by
    intro rule address symbols statement
    simp only [relocation, id, Address.advance_add_one, Encoding.number_moved]
    cases Encoding.number rule (address + 1) symbols statement.instruction <;> rfl
  word := by
    intro number statement
    rfl
  overflow := by
    intro block hroom
    have hstop := hroom.stop_le
    rw [block_relocation, hroom.stop_moved]
    omega
  overlaps := by
    intro a b ha hb
    rw [block_relocation, block_relocation, ha.overlaps_moved hb]

theorem value_assemble_moved {program : Program} (config : Config)
    (hroom : ∀ block ∈ program.blocks, block.HasRoom count) :
    ((program.moved count).assemble config).value =
      ((program.assemble config).value.map (Assembled.moved count)).mapError
        (List.map (AssemblyError.moved count)) := by
  have hprogram : (relocation count).program program = program.moved count := by
    rw [Alteration.program, funext block_relocation]
    rfl
  have herror : (relocation count).error = AssemblyError.moved count := by
    funext error
    cases error <;> rfl
  rw [← hprogram, ← herror]
  exact relocation_followed.value_assemble hroom

end Program

/-- The addresses in the layout problems of a block are starts of blocks or addresses of statements,
of its own or of those before it. -/
theorem Block.mem_addresses_of_reported {config : Config} {earlier : List Block}
    {block : Block} {error : AssemblyError} {address : Address}
    (herror : error ∈ block.placementErrors config earlier ++ block.redefinitions earlier)
    (haddress : address ∈ error.addresses) :
    (∃ other ∈ earlier ++ [block], other.start = address) ∨
      ∃ site ∈ (earlier ++ [block]).flatMap Block.sites, site.address = address := by
  have hown : block ∈ earlier ++ [block] := by simp
  rw [placementErrors, List.mem_append, List.mem_append] at herror
  rcases herror with (hoverflow | hoverlap) | hduplicate
  · split at hoverflow
    · obtain rfl := List.mem_singleton.mp hoverflow
      obtain rfl := List.mem_singleton.mp haddress
      exact .inl ⟨block, hown, rfl⟩
    · cases hoverflow
  · split at hoverlap
    · cases hoverlap
    · obtain ⟨first, hfirst, rfl⟩ := Option.map_eq_some_iff.mp (Option.mem_toList.mp hoverlap)
      rcases List.mem_pair.mp haddress with rfl | rfl
      · exact .inl ⟨first, List.mem_append_left _ (List.mem_of_find?_eq_some hfirst), rfl⟩
      · exact .inl ⟨block, hown, rfl⟩
  · obtain ⟨site, hsite, hproblem⟩ := List.mem_filterMap.mp hduplicate
    obtain ⟨label, -, hlabel⟩ := Option.bind_eq_some_iff.mp hproblem
    obtain ⟨first, hfirst, rfl⟩ := Option.map_eq_some_iff.mp hlabel
    have hsites : ∀ other, other ∈ earlier.flatMap sites ++ block.sites →
        other ∈ (earlier ++ [block]).flatMap sites := by
      intro other hother
      simpa using hother
    rcases List.mem_pair.mp haddress with rfl | rfl
    · refine .inr ⟨first, hsites first ?_, rfl⟩
      rcases List.mem_append.mp (List.mem_of_find?_eq_some hfirst) with hbefore | hwithin
      · exact List.mem_append_left _ hbefore
      · exact List.mem_append_right _ (List.mem_of_mem_take hwithin)
    · exact .inr ⟨site, hsites site (List.mem_append_right _ hsite), rfl⟩

namespace Program

variable {count : Nat} {program : Program} {config : Config}

/-- The addresses in the problems of a program are starts of its blocks or addresses of its
statements. -/
theorem mem_addresses_of_problems {error : AssemblyError} {address : Address}
    (herror : error ∈ program.problems config) (haddress : address ∈ error.addresses) :
    (∃ block ∈ program.blocks, block.start = address) ∨
      ∃ site ∈ program.sites, site.address = address := by
  rw [problems_eq, List.mem_append] at herror
  rcases herror with hlayout | hencoding
  · rw [layout_errors_eq, List.mem_flatMap] at hlayout
    obtain ⟨⟨block, place⟩, hentry, hproblem⟩ := hlayout
    have hblock : block ∈ program.blocks := (List.mem_zipIdx' hentry).2 ▸ List.getElem_mem _
    have hsubset : ∀ other, other ∈ program.blocks.take place ++ [block] →
        other ∈ program.blocks := by
      intro other hother
      rcases List.mem_append.mp hother with hbefore | hsame
      · exact List.mem_of_mem_take hbefore
      · exact List.mem_singleton.mp hsame ▸ hblock
    rcases Block.mem_addresses_of_reported hproblem haddress with
      ⟨other, hother, hstart⟩ | ⟨site, hsite, hsame⟩
    · exact .inl ⟨other, hsubset other hother, hstart⟩
    · obtain ⟨other, hother, hwithin⟩ := List.mem_flatMap.mp hsite
      exact .inr ⟨site, List.mem_flatMap.mpr ⟨other, hsubset other hother, hwithin⟩, hsame⟩
  · obtain ⟨site, hsite, hproblem⟩ := List.mem_filterMap.mp hencoding
    obtain ⟨cause, -, rfl⟩ :=
      (site.encodingProblem?_eq_some_iff (program.knows_layout config)).mp hproblem
    exact .inr ⟨site, hsite, (List.mem_singleton.mp haddress).symm⟩

section Room

variable (hroom : ∀ block ∈ program.blocks, block.HasRoom count)
include hroom

/-- No statement of a program with room is moved past the end of memory. -/
theorem toNat_address_moved {site : Site} (hsite : site ∈ program.sites) :
    (site.address.advance count).toNat = site.address.toNat + count := by
  obtain ⟨place, hstands⟩ := mem_sites_iff.mp hsite
  have hblock := hroom site.block (List.mem_of_getElem? hstands.block_at)
  have hstop := hblock.stop
  have hindex := hstands.index_lt
  apply Address.toNat_advance
  rw [Site.address, Address.toNat_advance (by omega)]
  omega

theorem toNat_moved_of_problems {error : AssemblyError} {address : Address}
    (herror : error ∈ program.problems config) (haddress : address ∈ error.addresses) :
    (address.advance count).toNat = address.toNat + count := by
  rcases mem_addresses_of_problems herror haddress with
    ⟨block, hblock, rfl⟩ | ⟨site, hsite, rfl⟩
  · exact (hroom block hblock).toNat_start
  · exact toNat_address_moved hroom hsite

end Room

/-- Assembly does not depend on the position of a program.  Moved up inside memory, it has the same
words and the same problems, and every address in the answer is greater by as much. -/
theorem assembly_is_position_independent (program : Program) (config : Config) (count : Nat)
    (hroom : ∀ block ∈ program.blocks, block.HasRoom count) :
    ((∃ out, ((program.moved count).assemble config).value = .ok out) ↔
      ∃ out, (program.assemble config).value = .ok out) ∧
    (∀ out, (program.assemble config).value = .ok out →
      ((program.moved count).assemble config).value = .ok (out.moved count) ∧
      (∀ segment ∈ out.image.segments,
        (segment.moved count).origin.toNat = segment.origin.toNat + count) ∧
      ∀ label address, out.symbols.find? label = some address →
        (address.advance count).toNat = address.toNat + count) ∧
    ∀ errors, (program.assemble config).value = .error errors →
      ((program.moved count).assemble config).value =
        .error (errors.map (AssemblyError.moved count)) ∧
      ∀ error ∈ errors, ∀ address ∈ error.addresses,
        (address.advance count).toNat = address.toNat + count := by
  rw [value_assemble_moved config hroom]
  refine ⟨?_, ?_, ?_⟩
  · cases (program.assemble config).value <;> simp [Except.map, Except.mapError]
  · intro out hassemble
    refine ⟨by rw [hassemble]; rfl, ?_, ?_⟩
    · intro segment hsegment
      obtain ⟨-, hyields⟩ := assemble_eq_ok_iff.mp hassemble
      obtain ⟨place, hplace⟩ := List.mem_iff_getElem?.mp hsegment
      obtain ⟨block, hblock, hyield⟩ := forall₂_getElem? hyields.flip hplace
      have hstart := (hroom block (List.mem_of_getElem? hblock)).toNat_start
      rwa [Block.moved, ← hyield.origin] at hstart
    · intro label address hfind
      obtain ⟨place, index, block, statement, hstands, -, rfl⟩ :=
        (find?_symbols_iff hassemble).mp hfind
      have hsite : (⟨block, index, statement⟩ : Site) ∈ program.sites :=
        mem_sites_iff.mpr ⟨place, hstands⟩
      simpa only [Site.address] using toNat_address_moved hroom hsite
  · intro errors hassemble
    refine ⟨by rw [hassemble]; rfl, ?_⟩
    intro error herror address haddress
    obtain ⟨rfl, -⟩ := assemble_eq_error_iff.mp hassemble
    exact toNat_moved_of_problems hroom herror haddress

/-- Two blocks that refer to each other over the end of memory, the first just out of reach. -/
def acrossMemoryEnd : Program where
  blocks := [
    ⟨0x0000, [⟨some "LOW", .branch ⟨true, true, true⟩ (.label "TOP")⟩]⟩,
    ⟨0xFF00, [⟨some "TOP", .relative .ld .link (.label "LOW")⟩, ⟨none, .jump .link⟩]⟩]

/-- Moved up as far as memory goes, the branch is still just out of reach; if offsets wrap, both
blocks have the words they had. -/
theorem blocks_across_memory_end_moved :
    (∀ block ∈ acrossMemoryEnd.blocks, block.HasRoom 0xFE) ∧
      ((acrossMemoryEnd.moved 0xFE).assemble {}).value =
        .error [.encoding 0x00FE (.offsetOutOfRange "TOP" (-257) 9)] ∧
      ((acrossMemoryEnd.moved 0xFE).assemble ⟨.wrap, false⟩).value =
        .ok ⟨⟨[⟨0x00FE, [0x0EFF]⟩, ⟨0xFFFE, [0x2EFF, 0xC1C0]⟩]⟩,
          Dictionary.ofList [("LOW", 0x00FE), ("TOP", 0xFFFE)]⟩ := by
  have hroom : ∀ block ∈ acrossMemoryEnd.blocks, block.HasRoom 0xFE := by decide
  have hrefused : (acrossMemoryEnd.assemble {}).value =
      .error [.encoding 0x0000 (.offsetOutOfRange "TOP" (-257) 9)] := by decide
  have hassemble : (acrossMemoryEnd.assemble ⟨.wrap, false⟩).value =
      .ok ⟨⟨[⟨0x0000, [0x0EFF]⟩, ⟨0xFF00, [0x2EFF, 0xC1C0]⟩]⟩,
        Dictionary.ofList [("LOW", 0x0000), ("TOP", 0xFF00)]⟩ := by decide
  obtain ⟨-, -, herrors⟩ := assembly_is_position_independent _ {} _ hroom
  obtain ⟨-, hout, -⟩ := assembly_is_position_independent _ ⟨.wrap, false⟩ _ hroom
  refine ⟨hroom, (herrors _ hrefused).1, (hout _ hassemble).1.trans ?_⟩
  decide

end Program

end LittleComputer
