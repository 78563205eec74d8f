import LittleComputer.Proofs.Assembly.Success
import LittleComputer.Proofs.Instruction.Symbolic

/-!
Listings of assembled programs.  Blocks that are apart give every address to one statement, so the
table shows at an address the label of the statement there and no other.  With that a listing has
the source again, line by line.
-/
namespace LittleComputer

namespace Instruction

/-- A label operand comes last in the text, unless the instruction is shown as `NOP`. -/
theorem text_of_label {instruction : Instruction} {name : String}
    (hlabel : instruction.label? = some name)
    (hshown : instruction ≠ .branch .never (.label name)) :
    ∃ head, instruction.text = head ++ " " ++ name := by
  obtain ⟨width, htarget⟩ := label?_eq_some_iff.mp hlabel
  cases instruction with
  | branch condition target =>
      obtain ⟨rfl, -⟩ := Prod.mk.inj (Option.some.inj htarget)
      have hcondition : condition ≠ .never := fun heq => hshown (heq ▸ rfl)
      refine ⟨"BR" ++ condition.letters, ?_⟩
      simp [text, hcondition, Target.text, toString]
  | relative op register target =>
      obtain ⟨rfl, -⟩ := Prod.mk.inj (Option.some.inj htarget)
      refine ⟨op.opcode.mnemonic ++ " " ++ register.text ++ ",", ?_⟩
      have hcomma : (", " : String) = "," ++ " " := rfl
      simp [text, Target.text, toString, hcomma, String.append_assoc]
  | call callee =>
      cases callee with
      | register base => cases htarget
      | relative target =>
          obtain ⟨rfl, -⟩ := Prod.mk.inj (Option.some.inj htarget)
          refine ⟨"JSR", ?_⟩
          simp [text, Target.text, toString]
  | alu op dest source operand => cases htarget
  | jump base => cases htarget
  | indexed op register base offset => cases htarget
  | not dest source => cases htarget

end Instruction

/-- The lines of a listing do not depend on what was said while the words were decoded. -/
theorem value_listing (symbols : Option SymbolTable) (origin : Address)
    (decoded : List (Word × Logged (Except DecodeError Instruction))) :
    (listing symbols origin decoded).value =
      (decoded.map fun entry => (entry.1, entry.2.value)).zipIdx.map fun entry =>
        (Line.ofDecoded symbols (origin.advance entry.2) entry.1.1 entry.1.2).value := by
  rw [listing, Logged.all, List.zipIdx_map, List.map_map, List.map_map]
  rfl

theorem value_disassemble (symbols : Option SymbolTable) (origin : Address)
    (words : List Word) :
    (disassemble symbols origin words).value =
      words.zipIdx.map fun (word, index) =>
        (Line.ofDecoded symbols (origin.advance index) word (decode word)).value := by
  rw [disassemble, disassembleWith, value_listing, List.map_map, List.zipIdx_map, List.map_map]
  rfl

theorem map_word_disassemble (symbols : Option SymbolTable) (origin : Address)
    (words : List Word) :
    (disassemble symbols origin words).value.map Line.word = words := by
  have hword : ∀ (address : Address) (word : Word)
      (decoded : Except DecodeError Instruction),
      (Line.ofDecoded symbols address word decoded).value.word = word := by
    intro address word decoded
    cases decoded <;> rfl
  rw [value_disassemble, List.map_map]
  refine Eq.trans ?_ (List.zipIdx_map_fst 0 words)
  exact List.map_congr_left fun entry _ => hword _ entry.1 _

theorem Image.value_disassemble (image : Image) (symbols : Option SymbolTable) :
    (image.disassemble symbols).value =
      image.segments.flatMap fun segment =>
        (LittleComputer.disassemble symbols segment.origin segment.words).value := by
  rw [Image.disassemble, Logged.value_bind, Logged.all, List.map_map, List.flatMap_def]
  rfl

/-- A line that has the source of a statement again. -/
structure Site.Listed (symbols : SymbolTable) (site : Site) (line : Line) : Prop where
  /-- The address, without wrapping. -/
  address : line.address.toNat = site.block.start.toNat + site.index
  word : (site.statement.instruction.encode .strict (line.address + 1)
    symbols).run.value = .ok line.word
  label : line.label = site.statement.label
  text : line.text = (site.statement.instruction.symbolic (line.address + 1) symbols).text
  /-- A label operand is shown by its own name. -/
  operand : ∀ name, site.statement.instruction.label? = some name →
    site.statement.instruction ≠ .branch .never (.label name) →
      ∃ head, line.text = head ++ " " ++ name
  /-- A branch on no flag is the exception. -/
  never : ∀ name, site.statement.instruction = .branch .never (.label name) →
    line.text = "NOP"

/-- The lines of a block's segment: one for each statement, with its word. -/
theorem Block.Yields.forall₂_sites_lines {rule : OffsetRule} {symbols : SymbolTable}
    {block : Block} {segment : Segment} (hyields : block.Yields rule symbols segment) :
    List.Forall₂ (fun site line => ∃ word,
      (site.statement.instruction.encode rule (site.address + 1) symbols).run.value =
          .ok word ∧
        line = (Line.ofDecoded (some symbols) site.address word (decode word)).value)
      block.sites (disassemble (some symbols) segment.origin segment.words).value := by
  obtain ⟨hlength, hencode⟩ := List.forall₂_iff_get.mp hyields.forall₂_sites
  rw [value_disassemble, hyields.origin, List.forall₂_iff_get]
  refine ⟨by simpa using hlength, fun index hsite hline => ?_⟩
  have hword : index < segment.words.length := hlength ▸ hsite
  refine ⟨segment.words.get ⟨index, hword⟩, hencode index hsite hword, ?_⟩
  simp [sites, Site.address]

namespace Program

variable {program : Program} {config : Config} {out : Assembled}

/-- The table of an assembled program shows at an address the label of the statement there. -/
theorem labelAt?_of_stands (hassemble : (program.assemble config).value = .ok out)
    (hsmall : ∀ block ∈ program.blocks, block.length < 2 ^ 31)
    (hconfig : config.allowOverlap = false) {place index : Nat} {block : Block}
    {statement : Statement} (hstands : program.Stands place index block statement) :
    out.symbols.labelAt? (block.start.advance index) = statement.label := by
  -- Whatever is shown here is defined at this address, and only this statement stands there.
  have hown : ∀ name, out.symbols.labelAt? (block.start.advance index) = some name →
      statement.label = some name := by
    intro name hname
    obtain ⟨place', index', block', statement', hstands', hlabel', haddress⟩ :=
      (find?_symbols_iff hassemble).mp (SymbolTable.find?_of_labelAt? hname)
    obtain ⟨rfl, rfl⟩ := (wellPlaced_of_assemble hassemble).site_of_address hsmall hconfig
      hstands' hstands haddress
    rwa [← hstands'.statement_unique hstands]
  cases hlabel : statement.label with
  | none =>
      cases hshown : out.symbols.labelAt? (block.start.advance index) with
      | none => rfl
      | some name =>
          have hname := hown name hshown
          simp [hlabel] at hname
  | some label =>
      have hfind : out.symbols.find? label = some (block.start.advance index) :=
        (find?_symbols_iff hassemble).mpr ⟨_, _, _, _, hstands, hlabel, rfl⟩
      obtain ⟨name, hshown⟩ :=
        Option.isSome_iff_exists.mp (SymbolTable.labelAt?_isSome_of_find? hfind)
      rw [hshown, ← hown name hshown, hlabel]

/-- What a word of an assembled program decodes to is shown like its source. -/
theorem symbolic_of_encode (hassemble : (program.assemble config).value = .ok out)
    (hsmall : ∀ block ∈ program.blocks, block.length < 2 ^ 31)
    (hconfig : config.allowOverlap = false) {instruction : Instruction} {next : Address}
    {word : Word}
    (hencode : (instruction.encode .strict next out.symbols).run.value = .ok word) :
    ∃ decoded, decode word = .ok decoded ∧
      decoded.symbolic next out.symbols = instruction.symbolic next out.symbols := by
  cases hlabel : instruction.label? with
  | none => exact ⟨instruction, Encoding.decode_of_encode hencode hlabel, rfl⟩
  | some name =>
      obtain ⟨width, htarget⟩ := Instruction.label?_eq_some_iff.mp hlabel
      obtain ⟨address, decoded, hfind, hdecode, hdestination, hsource⟩ :=
        Encoding.destination?_of_encode_strict hencode htarget
      obtain ⟨_, _, _, _, hstands, hname, rfl⟩ := (find?_symbols_iff hassemble).mp hfind
      refine ⟨decoded, hdecode, ?_⟩
      rw [Instruction.symbolic_of_label hlabel, Instruction.symbolic, hdestination,
        Option.bind_some, labelAt?_of_stands hassemble hsmall hconfig hstands, hname]
      exact hsource

theorem listed_of_encode (hassemble : (program.assemble config).value = .ok out)
    (hsmall : ∀ block ∈ program.blocks, block.length < 2 ^ 31)
    (hconfig : config.allowOverlap = false) {site : Site} (hsite : site ∈ program.sites)
    {word : Word}
    (hencode : (site.statement.instruction.encode .strict (site.address + 1)
      out.symbols).run.value = .ok word) :
    site.Listed out.symbols
      (Line.ofDecoded (some out.symbols) site.address word (decode word)).value := by
  obtain ⟨place, hstands⟩ := mem_sites_iff.mp hsite
  have haddress := (wellPlaced_of_assemble hassemble).toNat_advance hsmall hstands
  obtain ⟨decoded, hdecode, hsymbolic⟩ := symbolic_of_encode hassemble hsmall hconfig hencode
  have hline : (Line.ofDecoded (some out.symbols) site.address word (decode word)).value =
      ⟨site.address, word, site.statement.label,
        (site.statement.instruction.symbolic (site.address + 1) out.symbols).text⟩ := by
    rw [hdecode, ← hsymbolic, ← labelAt?_of_stands hassemble hsmall hconfig hstands]
    rfl
  rw [hline]
  refine ⟨haddress, hencode, rfl, rfl, ?_, ?_⟩
  · intro name hlabel hshown
    rw [Instruction.symbolic_of_label hlabel]
    exact Instruction.text_of_label hlabel hshown
  · intro name hnever
    rw [hnever, Instruction.symbolic_of_label rfl]
    rfl

/-- The listing of an assembled program has its statements again, line by line. -/
theorem listing_of_assembled_program (program : Program) (out : Assembled)
    (hsmall : ∀ block ∈ program.blocks, block.length < 2 ^ 31)
    (hassemble : (program.assemble {}).value = .ok out) :
    List.Forall₂ (Site.Listed out.symbols) program.sites
        (out.image.disassemble (some out.symbols)).value ∧
      (out.image.disassemble (some out.symbols)).value.map Line.word =
        out.image.words := by
  obtain ⟨-, hyields⟩ := assemble_eq_ok_iff.mp hassemble
  constructor
  · have hlines : List.Forall₂ (fun site line => ∃ word,
        (site.statement.instruction.encode .strict (site.address + 1)
            out.symbols).run.value = .ok word ∧
          line = (Line.ofDecoded (some out.symbols) site.address word
            (decode word)).value)
        program.sites (out.image.disassemble (some out.symbols)).value := by
      rw [Image.value_disassemble]
      exact List.rel_flatMap hyields fun _ _ hyield => hyield.forall₂_sites_lines
    refine ((List.forall₂_and_left _ _).mpr ⟨fun _ hsite => hsite, hlines⟩).imp ?_
    rintro site line ⟨hsite, word, hencode, rfl⟩
    exact listed_of_encode hassemble hsmall rfl hsite hencode
  · rw [Image.value_disassemble, List.map_flatMap, Image.words]
    simp only [map_word_disassemble]

/-- The listing of a program over the end of memory, with a branch that is never taken. -/
theorem listing_over_memory_end :
    (overMemoryEnd.assemble {}).value = .ok overMemoryEndAssembled ∧
      List.Forall₂ (Site.Listed overMemoryEndAssembled.symbols) overMemoryEnd.sites
        [⟨0xFFFE, 0x0E02, some "TOP", "BRnzp LOW"⟩, ⟨0xFFFF, 0x01FE, none, "NOP"⟩,
          ⟨0x0000, 0x907F, none, "NOT R0, R1"⟩,
          ⟨0x0001, 0xE5FC, some "LOW", "LEA R2, TOP"⟩] := by
  have hassemble : (overMemoryEnd.assemble {}).value = .ok overMemoryEndAssembled := by
    decide
  have hlines : (overMemoryEndAssembled.image.disassemble
      (some overMemoryEndAssembled.symbols)).value =
        [⟨0xFFFE, 0x0E02, some "TOP", "BRnzp LOW"⟩, ⟨0xFFFF, 0x01FE, none, "NOP"⟩,
          ⟨0x0000, 0x907F, none, "NOT R0, R1"⟩,
          ⟨0x0001, 0xE5FC, some "LOW", "LEA R2, TOP"⟩] := by decide
  obtain ⟨hlisted, -⟩ := listing_of_assembled_program _ _ (by decide) hassemble
  rw [hlines] at hlisted
  exact ⟨hassemble, hlisted⟩

end Program

end LittleComputer
