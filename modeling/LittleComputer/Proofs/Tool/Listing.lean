import LittleComputer.Proofs.DecodeCache
import LittleComputer.Proofs.ImageFile
import LittleComputer.Proofs.Memory
import LittleComputer.Proofs.Tool.Assembling

/-!
The two commands together.  An image file has no origins, so the listing of an assembled file is
that of the program only if the program has one block and the user gives its start.
-/
namespace LittleComputer

/-- Through an empty cache an image is listed as without one. -/
theorem Image.value_disassembleSegments_empty (image : Image) (symbols : Option SymbolTable) :
    (DecodeCache.empty.disassembleSegments symbols image.segments).1.value =
      (image.disassemble symbols).value := by
  have hempty : DecodeCache.Remembers decode [] .empty :=
    DecodeCache.remembers_empty DecodeCache.not_askedSince_nil
  rw [hempty.value_disassembleSegments, image.value_disassemble]

/-- The image of a single block is loaded from its bytes at the block's start. -/
theorem Program.ofBytes_toBytes_assemble {block : Block} {config : Config} {out : Assembled}
    (hsmall : block.length < 2 ^ 31) (hout : (Program.assemble ⟨[block]⟩ config).value = .ok out) :
    Image.ofBytes block.start out.image.toBytes = .ok out.image := by
  obtain ⟨⟨segments⟩, symbols⟩ := out
  obtain ⟨-, hyields⟩ := assemble_eq_ok_iff.mp hout
  obtain ⟨segment, hyield, rfl⟩ : ∃ segment, block.Yields config.offsets symbols segment ∧
      segments = [segment] := by
    simpa [List.forall₂_cons_left_iff] using hyields
  have hsize : (Image.mk [segment]).size = block.length := by
    simp [Image.size, Image.words, hyield.length_words]
  have hinside : block.start.toNat + block.length ≤ memorySize := by
    rw [← Block.stop_eq hsmall]
    exact (wellPlaced_of_assemble hout).inside block List.mem_cons_self
  rw [Image.ofBytes_toBytes (by rwa [hsize]), ← hyield.origin]
  simp [Image.words]

namespace Tool

theorem runs_list {command : ListCommand} {files : FileTree} {origin : Address}
    {content : ByteArray} {image : Image} {symbols : Option SymbolTable}
    (horigin : Address.parse command.origin = .ok origin)
    (hcontent : files.read command.image = .ok content)
    (himage : Image.ofBytes origin content.data.toList = .ok image)
    (hsymbols : Runs command.readSymbols files (.ok symbols) files)
    (houtput : command.output = none) :
    Runs command.run files
      (.ok (ListCommand.listingText command.showWords (image.disassemble symbols).value))
      files := by
  rw [ListCommand.run, horigin]
  refine .bind (runs_readBytes hcontent) ?_
  rw [himage]
  refine .bind hsymbols ?_
  rw [houtput, ← image.value_disassembleSegments_empty symbols]
  exact .pure _

/-- A program of one block is listed from its image and symbol files as it was assembled.  The
start of the block is given anew, in any notation. -/
theorem listing_of_assembled_file (command : AssembleCommand) (files after : FileTree)
    (outcome : Outcome) (block : Block) (image symbols origin : String) (showWords : Bool)
    (hsmall : block.length < 2 ^ 31)
    (hprogram : files.Holds command.program (Program.mk [block]))
    (himage : command.output = some image) (hsymbols : command.symbols = some symbols)
    (hapart : files.locate symbols ≠ files.locate image)
    (hrun : (Command.assemble command).runOn files = (outcome, after))
    (hexit : outcome.exitCode = 0) (horigin : Address.parse origin = .ok block.start) :
    ∃ config out, command.Effective files config ∧
      (Program.assemble ⟨[block]⟩ config).value = .ok out ∧
      (Command.list { image, origin, symbols := some symbols, showWords }).runOn after =
        ({ exitCode := 0
           output := String.join ((out.image.disassemble (some out.symbols)).value.map fun line =>
             line.render showWords ++ "\n") }, after) := by
  obtain ⟨config, out, hconfig, hout, hwritten⟩ :=
    AssembleCommand.exists_assembled hprogram hrun hexit
  have hpath : command.outputPath = image := by
    rw [AssembleCommand.outputPath, himage, Option.getD_some]
  have hcontent : after.read image = .ok out.image.toBytes.toByteArray := by
    rw [← hpath] at hapart ⊢
    apply hwritten.image
    intro path hother
    rw [hsymbols, Option.some.injEq] at hother
    exact hother ▸ hapart
  have hload : Image.ofBytes block.start out.image.toBytes.toByteArray.data.toList =
      .ok out.image := by
    rw [List.toList_data_toByteArray, Program.ofBytes_toBytes_assemble hsmall hout]
  have hheld : after.Holds symbols out.symbols :=
    ⟨_, hwritten.symbols symbols hsymbols, Codec.ofText_pretty out.symbols⟩
  -- What the second command reads is now what the first one wrote.
  let listing : ListCommand := { image, origin, symbols := some symbols, showWords }
  have hread : Runs listing.readSymbols after (.ok (some out.symbols)) after :=
    .bind (runs_readJson hheld) (.pure _)
  have hruns : Runs listing.run after _ after := runs_list horigin hcontent hload hread rfl
  exact ⟨config, out, hconfig, hout, runOn_list hruns⟩

def assembleLastLoop : AssembleCommand where
  program := "loop.json"
  output := some "loop.bin"
  symbols := some "loop.sym"

def listLastLoop : ListCommand where
  image := "loop.bin"
  origin := " xFFFE"
  symbols := some "loop.sym"
  showWords := true

theorem last_loop_is_listed_from_its_file :
    lastLoopFiles.Holds "loop.json" (Program.mk [lastLoop]) ∧
    ∃ after, (Command.assemble assembleLastLoop).runOn lastLoopFiles = ({ exitCode := 0 }, after) ∧
      (Command.list listLastLoop).runOn after = ({
        exitCode := 0
        output := "xFFFE: 907F  TOP: NOT R0, R1\nxFFFF: 0FFE  BRnzp TOP\n" }, after) := by
  have hprogram : lastLoopFiles.Holds "loop.json" (Program.mk [lastLoop]) :=
    ⟨_, rfl, Codec.ofText_pretty _⟩
  have hconfig : assembleLastLoop.Effective lastLoopFiles {} :=
    ⟨{}, fun _ => rfl, nofun, rfl, rfl⟩
  have hassemble : (Program.assemble ⟨[lastLoop]⟩ {}).value = .ok lastLoopAssembled := by decide
  have hpaths : ∀ path ∈ assembleLastLoop.outputPaths,
      ∃ location, lastLoopFiles.WritableAt path location := by
    have himage : lastLoopFiles.WritableAt "loop.bin" ["work", "loop.bin"] :=
      ⟨by decide, rfl, rfl⟩
    have hsymbols : lastLoopFiles.WritableAt "loop.sym" ["work", "loop.sym"] :=
      ⟨by decide, rfl, rfl⟩
    exact List.forall_mem_cons.mpr ⟨⟨_, himage⟩, List.forall_mem_singleton.mpr ⟨_, hsymbols⟩⟩
  obtain ⟨after, hruns, -⟩ := AssembleCommand.exists_runs_ok hconfig hprogram hassemble hpaths
  obtain ⟨config, out, ⟨given, hgiven, -, hoffsets, hoverlap⟩, hout, hlist⟩ :=
    listing_of_assembled_file assembleLastLoop lastLoopFiles after _ lastLoop "loop.bin" "loop.sym"
      " xFFFE" true (by decide) hprogram rfl rfl (by decide) (runOn_assemble hruns) rfl rfl
  refine ⟨hprogram, after, runOn_assemble hruns, hlist.trans ?_⟩
  obtain rfl := hgiven rfl
  obtain rfl : config = {} := congrArg₂ Config.mk hoffsets hoverlap
  obtain rfl : out = lastLoopAssembled := Except.ok.inj (hout.symm.trans hassemble)
  have hlines : (lastLoopAssembled.image.disassemble (some lastLoopAssembled.symbols)).value =
      [⟨0xFFFE, 0x907F, some "TOP", "NOT R0, R1"⟩, ⟨0xFFFF, 0x0FFE, none, "BRnzp TOP"⟩] := by
    decide
  rw [hlines]
  rfl

end Tool

end LittleComputer
