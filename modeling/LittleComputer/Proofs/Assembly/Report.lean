import LittleComputer.Proofs.Assembly.Layout

/-!
What layout reports.  While the statements of a program are laid out one after the other, the table
knows the first carrier of every label met so far.  So the labels that are refused are those that an
earlier statement carries, and the problems of a layout can be told from the program alone.
-/
namespace LittleComputer

def Site.carries (label : String) (site : Site) : Bool :=
  site.statement.label == some label

def Site.definition? (site : Site) : Option (String × Address) :=
  site.statement.label.map fun label => (label, site.address)

/-- The problem of a statement whose label one of the statements `before` it carries. -/
def Site.redefinition? (before : List Site) (site : Site) : Option AssemblyError :=
  site.statement.label.bind fun label =>
    (before.find? (Site.carries label)).map fun first =>
      .duplicateLabel label first.address site.address

/-- The table has, for every label, the address of its first carrier. -/
def SymbolTable.Knows (symbols : SymbolTable) (sites : List Site) : Prop :=
  ∀ label, symbols.find? label = (sites.find? (Site.carries label)).map Site.address

theorem SymbolTable.knows_empty : SymbolTable.Knows .empty [] :=
  fun _ => rfl

/-- Among definitions in order, the first carrier of a label counts. -/
theorem lookup_definitions (label : String) (sites : List Site) :
    (sites.filterMap Site.definition?).lookup label =
      (sites.find? (Site.carries label)).map Site.address := by
  induction sites with
  | nil => rfl
  | cons site rest ih =>
      cases hlabel : site.statement.label with
      | none => simp [Site.definition?, Site.carries, hlabel, ih]
      | some own =>
          by_cases hown : own = label
          · subst hown
            simp [Site.definition?, Site.carries, hlabel]
          · have hne : label ≠ own := Ne.symm hown
            simp [Site.definition?, Site.carries, hlabel, hown, hne, Dictionary.lookup_cons, ih]

namespace SymbolTable.Knows

variable {symbols : SymbolTable} {before : List Site}

/-- After more statements the table knows those too, whether their labels were refused or not. -/
theorem defineAll (hknows : symbols.Knows before) (sites : List Site) :
    (symbols.defineAll (sites.filterMap Site.definition?)).1.Knows (before ++ sites) := by
  intro label
  rw [find?_defineAll, hknows label, lookup_definitions, List.find?_append, Option.map_or]

/-- A statement is refused exactly if an earlier one carries its label. -/
theorem errors_define (hknows : symbols.Knows before) (site : Site) :
    (symbols.defineAll site.definition?.toList).2 = (site.redefinition? before).toList := by
  cases hlabel : site.statement.label with
  | none => simp [Site.definition?, Site.redefinition?, hlabel, SymbolTable.defineAll]
  | some own =>
      have hown := hknows own
      cases hfirst : before.find? (Site.carries own) with
      | none =>
          rw [hfirst, Option.map_none] at hown
          simp [Site.definition?, Site.redefinition?, hlabel, SymbolTable.defineAll,
            define_of_none site.address hown, hfirst]
      | some first =>
          rw [hfirst, Option.map_some] at hown
          simp [Site.definition?, Site.redefinition?, hlabel, SymbolTable.defineAll,
            define_of_some site.address hown, hfirst]

/-- The statements that are refused in a run are those whose label is carried before them. -/
theorem errors_defineAll (hknows : symbols.Knows before) (sites : List Site) :
    (symbols.defineAll (sites.filterMap Site.definition?)).2 =
      sites.zipIdx.filterMap fun (site, index) =>
        site.redefinition? (before ++ sites.take index) := by
  -- `before` grows by the statement at the head, which `take` then has no more.
  induction sites generalizing symbols before with
  | nil => rfl
  | cons site rest ih =>
      have hhead : [site].filterMap Site.definition? = site.definition?.toList := by
        simp [List.filterMap_eq_flatMap_toList]
      have hsplit : (site :: rest).filterMap Site.definition? =
          site.definition?.toList ++ rest.filterMap Site.definition? := by
        simp [List.filterMap_eq_flatMap_toList]
      have hnext := hknows.defineAll [site]
      rw [hhead] at hnext
      rw [hsplit, defineAll_append, hknows.errors_define site, ih hnext,
        List.zipIdx_cons', List.filterMap_eq_flatMap_toList (l := _ :: _), List.flatMap_cons,
        ← List.filterMap_eq_flatMap_toList, List.filterMap_map]
      simp [Function.comp_def]

end SymbolTable.Knows

namespace Block

/-- Blocks that have an address in common.  A block without statements has no address. -/
def Meets (a b : Block) : Prop :=
  ∃ number, a.Covers number ∧ b.Covers number

theorem meets_iff {a b : Block} :
    a.Meets b ↔ 0 < a.length ∧ 0 < b.length ∧ a.start.toNat < b.start.toNat + b.length ∧
      b.start.toNat < a.start.toNat + a.length := by
  constructor
  · rintro ⟨number, ha, hb⟩
    rw [Covers] at ha hb
    omega
  · rintro ⟨ha, hb, hab, hba⟩
    refine ⟨max a.start.toNat b.start.toNat, ?_, ?_⟩ <;> rw [Covers] <;> omega

instance (a b : Block) : Decidable (a.Meets b) :=
  decidable_of_iff _ meets_iff.symm

theorem overlaps_iff_meets {a b : Block} (ha : a.length < 2 ^ 31) (hb : b.length < 2 ^ 31) :
    a.overlaps b = true ↔ a.Meets b := by
  rw [overlaps_iff, meets_iff, stop_eq ha, stop_eq hb]

/-- The problems of the statements of a block whose labels are carried before them. -/
def redefinitions (earlier : List Block) (block : Block) : List AssemblyError :=
  block.sites.filterMap fun site =>
    site.redefinition? (earlier.flatMap sites ++ block.sites.take site.index)

/-- The layout problems of a block, as the blocks before it and its own statements have them. -/
def layoutProblems (config : Config) (earlier : List Block) (block : Block) :
    List AssemblyError :=
  (if memorySize < block.start.toNat + block.length then
      [.blockOverflow block.start block.length] else []) ++
    (if config.allowOverlap then []
      else ((earlier.find? fun other => block.Meets other).map fun first =>
        .overlappingBlocks first.start block.start).toList) ++
    block.redefinitions earlier

/-- Where no block has `2 ^ 31` statements, what is reported is what the addresses give. -/
theorem placementErrors_append_redefinitions {config : Config} {earlier : List Block}
    {block : Block} (hsmall : block.length < 2 ^ 31)
    (hearlier : ∀ other ∈ earlier, other.length < 2 ^ 31) :
    block.placementErrors config earlier ++ block.redefinitions earlier =
      block.layoutProblems config earlier := by
  have hfilter : earlier.filter block.overlaps =
      earlier.filter fun other => decide (block.Meets other) := by
    apply List.filter_congr
    intro other hother
    rw [Bool.eq_iff_iff, overlaps_iff_meets hsmall (hearlier other hother), decide_eq_true_eq]
  have hfind : earlier.find? block.overlaps =
      earlier.find? fun other => decide (block.Meets other) := by
    rw [← List.head?_filter, hfilter, List.head?_filter]
  rw [placementErrors, layoutProblems, hfind, stop_eq hsmall]

theorem zipIdx_sites (block : Block) :
    block.sites.zipIdx = block.sites.map fun site => (site, site.index) := by
  apply List.ext_getElem?
  intro index
  rw [List.getElem?_zipIdx, List.getElem?_map, getElem?_sites, Nat.zero_add]
  cases block.statements[index]? <;> rfl

/-- A block that is laid out after `earlier` has its redefinitions reported, and its statements are
known to the table. -/
theorem defineAll_definitions {earlier : List Block} {symbols : SymbolTable}
    (hknows : symbols.Knows (earlier.flatMap sites)) (block : Block) :
    (symbols.defineAll block.definitions).1.Knows ((earlier ++ [block]).flatMap sites) ∧
      (symbols.defineAll block.definitions).2 = block.redefinitions earlier := by
  have hdefinitions : block.definitions = block.sites.filterMap Site.definition? :=
    block.definitions_eq_filterMap_sites
  rw [hdefinitions]
  constructor
  · have hnext := hknows.defineAll block.sites
    simpa using hnext
  · rw [hknows.errors_defineAll, zipIdx_sites, List.filterMap_map]
    rfl

end Block

namespace Program

/-- From a table that knows the blocks before, layout comes to know the blocks that follow, and
reports the problems of each. -/
theorem layoutFrom_spec (config : Config) {earlier : List Block} {symbols : SymbolTable}
    (hknows : symbols.Knows (earlier.flatMap Block.sites)) (blocks : List Block) :
    (layoutFrom config earlier symbols blocks).1.Knows
        ((earlier ++ blocks).flatMap Block.sites) ∧
      (layoutFrom config earlier symbols blocks).2 =
        blocks.zipIdx.flatMap fun entry =>
          entry.1.placementErrors config (earlier ++ blocks.take entry.2) ++
            entry.1.redefinitions (earlier ++ blocks.take entry.2) := by
  induction blocks generalizing earlier symbols with
  | nil => simpa [layoutFrom] using hknows
  | cons block rest ih =>
      obtain ⟨hnext, hproblems⟩ := block.defineAll_definitions hknows
      obtain ⟨hlast, herrors⟩ := ih hnext
      constructor
      · simpa [layoutFrom] using hlast
      · simp only [layoutFrom]
        rw [hproblems, herrors, List.zipIdx_cons', List.flatMap_cons, List.flatMap_map]
        simp

theorem knows_layout (program : Program) (config : Config) :
    (program.layout config).1.Knows program.sites :=
  (@layoutFrom_spec config [] .empty SymbolTable.knows_empty program.blocks).1

theorem layout_errors_eq (program : Program) (config : Config) :
    (program.layout config).2 = program.blocks.zipIdx.flatMap fun entry =>
      entry.1.placementErrors config (program.blocks.take entry.2) ++
        entry.1.redefinitions (program.blocks.take entry.2) :=
  (@layoutFrom_spec config [] .empty SymbolTable.knows_empty program.blocks).2

/-- The table of a program does not depend on the config. -/
theorem layout_symbols_eq (program : Program) (config other : Config) :
    (program.layout config).1 = (program.layout other).1 := by
  rw [layout, layout, layoutFrom_symbols, layoutFrom_symbols]

/-- Layout gives every label the address of its first carrier, whatever the config, and reports
the problems of every block in order. -/
theorem layout_reports_every_problem (program : Program) (config : Config) :
    (∀ label, (program.layout config).1.find? label =
      (program.sites.find? (Site.carries label)).map Site.address) ∧
    (∀ other : Config, (program.layout other).1 = (program.layout config).1) ∧
    ((∀ block ∈ program.blocks, block.length < 2 ^ 31) →
      (program.layout config).2 = program.blocks.zipIdx.flatMap fun (block, place) =>
        block.layoutProblems config (program.blocks.take place)) := by
  refine ⟨program.knows_layout config, ?_, ?_⟩
  · intro other
    exact program.layout_symbols_eq other config
  · intro hsmall
    rw [layout_errors_eq]
    apply List.flatMap_congr
    rintro ⟨block, place⟩ hentry
    have hblock : block ∈ program.blocks := (List.mem_zipIdx' hentry).2 ▸ List.getElem_mem _
    exact Block.placementErrors_append_redefinitions (hsmall block hblock)
      fun other hother => hsmall other (List.mem_of_mem_take hother)

/-- Three blocks with every kind of problem.  The second starts inside the first and carries its
label again, and the last goes on over the end of memory. -/
def tangled : Program where
  blocks := [
    ⟨0x3000, [
      ⟨some "A", .branch ⟨true, true, true⟩ (.label "FAR")⟩,
      ⟨none, .alu .add .link .link (.immediate 16)⟩]⟩,
    ⟨0x3001, [⟨some "A", .relative .ld .link (.label "NOWHERE")⟩]⟩,
    ⟨0xFFFF, [⟨some "FAR", .not .link .link⟩, ⟨none, .jump .link⟩]⟩]

/-- The first definition of a label stays, and each block is reported with its own problems. -/
theorem tangled_layout_is_reported :
    (tangled.layout {}).1.find? "A" = some 0x3000 ∧
      (tangled.layout {}).2 = [.overlappingBlocks 0x3000 0x3001,
        .duplicateLabel "A" 0x3000 0x3001, .blockOverflow 0xFFFF 2] := by
  obtain ⟨hfind, -, herrors⟩ := layout_reports_every_problem tangled {}
  exact ⟨(hfind "A").trans (by decide), (herrors (by decide)).trans (by decide)⟩

end Program

end LittleComputer
