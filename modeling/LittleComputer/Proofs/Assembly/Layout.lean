import LittleComputer.Assembly
import LittleComputer.Proofs.Symbols
import Mathlib.Data.List.Basic

/-!
Layout, seen from the statements of a program.  A layout has no problems exactly if every block ends
inside memory, no two blocks share an address unless that is allowed, and no label is defined twice.
Then a label or an address belongs to one statement, and the table has the addresses of all labels.
-/
namespace LittleComputer

/-- Where two items of a list are not related either way round, they are one item. -/
theorem index_eq_of_pairwise {α : Type} {R : α → α → Prop} {items : List α}
    {i j : Nat} {a b : α} (hpairs : items.Pairwise R) (hi : items[i]? = some a)
    (hj : items[j]? = some b) (hab : ¬ R a b) (hba : ¬ R b a) : i = j := by
  obtain ⟨hilt, rfl⟩ := List.getElem?_eq_some_iff.mp hi
  obtain ⟨hjlt, rfl⟩ := List.getElem?_eq_some_iff.mp hj
  rw [List.pairwise_iff_getElem] at hpairs
  rcases Nat.lt_trichotomy i j with hlt | heq | hlt
  · exact absurd (hpairs i j hilt hjlt hlt) hab
  · exact heq
  · exact absurd (hpairs j i hjlt hilt hlt) hba

/-- A statement with its block and its number there. -/
structure Site where
  block : Block
  index : Nat
  statement : Statement

/-- The address of a statement.  It wraps at the end of memory. -/
def Site.address (site : Site) : Address :=
  site.block.start.advance site.index

namespace Block

/-- A block of less than `2 ^ 31` statements ends where counting on from its start leads. -/
theorem stop_eq {block : Block} (hsmall : block.length < 2 ^ 31) :
    block.stop = block.start.toNat + block.length := by
  have hstart := block.start.isLt
  rw [stop, BitVec.toNat_add, BitVec.toNat_setWidth, BitVec.toNat_ofNat]
  omega

theorem overlaps_iff {a b : Block} :
    a.overlaps b = true ↔
      0 < a.length ∧ 0 < b.length ∧ a.start.toNat < b.stop ∧
        b.start.toNat < a.stop := by
  simp only [overlaps, length, Bool.and_eq_true, Bool.not_eq_eq_eq_not, Bool.not_true,
    List.isEmpty_eq_false_iff, List.length_pos_iff, decide_eq_true_eq, and_assoc]

/-- The address of one of the block's statements, as a number without wrapping. -/
def Covers (block : Block) (number : Nat) : Prop :=
  block.start.toNat ≤ number ∧ number < block.start.toNat + block.length

theorem overlaps_of_covers {a b : Block} {number : Nat} (hsmall : a.length < 2 ^ 31)
    (hsmall' : b.length < 2 ^ 31) (ha : a.Covers number) (hb : b.Covers number) :
    a.overlaps b = true := by
  rw [Covers] at ha hb
  rw [overlaps_iff, stop_eq hsmall, stop_eq hsmall']
  omega

def sites (block : Block) : List Site :=
  block.statements.zipIdx.map fun (statement, index) => ⟨block, index, statement⟩

theorem length_sites (block : Block) : block.sites.length = block.length := by
  rw [sites, List.length_map, List.length_zipIdx, length]

theorem getElem?_sites (block : Block) (index : Nat) :
    block.sites[index]? =
      block.statements[index]?.map fun statement => ⟨block, index, statement⟩ := by
  simp only [sites, List.getElem?_map, List.getElem?_zipIdx, Option.map_map, Nat.zero_add]
  rfl

theorem located_eq_map_sites (block : Block) :
    block.located = block.sites.map fun site => (site.address, site.statement) := by
  rw [located, sites, List.map_map]
  rfl

/-- The cursor that walks over the statements is at the address of each of them. -/
theorem definitionsFrom_eq (start : Address) (count : Nat) (statements : List Statement) :
    definitionsFrom (start.advance count) statements =
      (statements.zipIdx count).filterMap fun entry =>
        entry.1.label.map fun label => (label, start.advance entry.2) := by
  induction statements generalizing count with
  | nil => rfl
  | cons statement rest ih =>
      rw [definitionsFrom, ← Address.advance_succ, ih, List.zipIdx_cons, List.filterMap_cons]
      cases statement.label <;> rfl

/-- Labels are defined at the addresses at which their statements are encoded. -/
theorem definitions_eq_filterMap_located (block : Block) :
    block.definitions = block.located.filterMap fun entry =>
      entry.2.label.map fun label => (label, entry.1) := by
  rw [definitions, ← block.start.advance_zero, definitionsFrom_eq, located, List.filterMap_map]
  rfl

theorem definitions_eq_filterMap_sites (block : Block) :
    block.definitions = block.sites.filterMap fun site =>
      site.statement.label.map fun label => (label, site.address) := by
  rw [definitions_eq_filterMap_located, located_eq_map_sites, List.filterMap_map]
  rfl

theorem map_fst_definitions (block : Block) :
    block.definitions.map Prod.fst = block.statements.filterMap Statement.label := by
  have hsites : block.sites.map Site.statement = block.statements := by
    rw [sites, List.map_map]
    exact List.zipIdx_map_fst 0 block.statements
  have hlabel : ∀ site : Site,
      (site.statement.label.map fun label => (label, site.address)).map Prod.fst =
        site.statement.label := by
    intro site
    cases site.statement.label <;> rfl
  calc block.definitions.map Prod.fst
      = block.sites.filterMap fun site => site.statement.label := by
        rw [definitions_eq_filterMap_sites, List.map_filterMap]
        exact congrArg (List.filterMap · block.sites) (funext hlabel)
    _ = block.statements.filterMap Statement.label := by
        rw [← hsites, List.filterMap_map]
        rfl

theorem placementErrors_eq_nil_iff {config : Config} {earlier : List Block}
    {block : Block} :
    block.placementErrors config earlier = [] ↔
      block.stop ≤ memorySize ∧
        (config.allowOverlap = false →
          ∀ other ∈ earlier, block.overlaps other = false) := by
  simp only [placementErrors, List.append_eq_nil_iff]
  apply and_congr
  · split
    · rename_i hover
      simpa using hover
    · rename_i hinside
      simpa using hinside
  · cases config.allowOverlap with
    | true => simp
    | false => simp

end Block

namespace Program

def definitions (program : Program) : List (String × Address) :=
  program.blocks.flatMap Block.definitions

/-- `statement` is number `index` of `block`, which is number `place` of the program. -/
structure Stands (program : Program) (place index : Nat) (block : Block)
    (statement : Statement) : Prop where
  block_at : program.blocks[place]? = some block
  statement_at : block.statements[index]? = some statement

/-- A program whose layout is without problems. -/
structure WellPlaced (program : Program) (config : Config) : Prop where
  /-- Every block ends inside memory. -/
  inside : ∀ block ∈ program.blocks, block.stop ≤ memorySize
  /-- No two blocks share an address, unless that is allowed. -/
  apart : config.allowOverlap = false →
    program.blocks.Pairwise fun first second => second.overlaps first = false
  /-- No label is defined twice. -/
  distinct : (program.definitions.map Prod.fst).Nodup

theorem layoutFrom_symbols (config : Config) (earlier : List Block)
    (symbols : SymbolTable) (blocks : List Block) :
    (layoutFrom config earlier symbols blocks).1 =
      (symbols.defineAll (blocks.flatMap Block.definitions)).1 := by
  induction blocks generalizing earlier symbols with
  | nil => rfl
  | cons block rest ih =>
      simp only [layoutFrom, List.flatMap_cons, SymbolTable.defineAll_append, ih]

theorem layoutFrom_errors_eq_nil_iff (config : Config) (earlier : List Block)
    (symbols : SymbolTable) (blocks : List Block) :
    (layoutFrom config earlier symbols blocks).2 = [] ↔
      (∀ block ∈ blocks, block.stop ≤ memorySize) ∧
      (config.allowOverlap = false →
        (∀ block ∈ blocks, ∀ other ∈ earlier, block.overlaps other = false) ∧
          blocks.Pairwise fun first second => second.overlaps first = false) ∧
      (symbols.defineAll (blocks.flatMap Block.definitions)).2 = [] := by
  -- A block is compared with those before it only, so `earlier` grows along the induction and
  -- the pairs of later blocks come from its rest.
  induction blocks generalizing earlier symbols with
  | nil => simp [layoutFrom, SymbolTable.defineAll]
  | cons block rest ih =>
      simp only [layoutFrom, List.flatMap_cons, SymbolTable.defineAll_append,
        List.append_eq_nil_iff, Block.placementErrors_eq_nil_iff, ih,
        List.forall_mem_cons, List.pairwise_cons, List.mem_append,
        List.mem_singleton]
      constructor
      · rintro ⟨⟨⟨hstop, hearlier⟩, hduplicates⟩, hinside, hapart, hrest⟩
        refine ⟨⟨hstop, hinside⟩, fun hconfig => ?_, hduplicates, hrest⟩
        obtain ⟨hbefore, hpairs⟩ := hapart hconfig
        refine ⟨⟨hearlier hconfig, fun other hother => ?_⟩, fun other hother => ?_,
          hpairs⟩
        · exact fun old hold => hbefore other hother old (.inl hold)
        · exact hbefore other hother block (.inr rfl)
      · rintro ⟨⟨hstop, hinside⟩, hapart, hduplicates, hrest⟩
        refine ⟨⟨⟨hstop, fun hconfig => (hapart hconfig).1.1⟩, hduplicates⟩,
          hinside, fun hconfig => ?_, hrest⟩
        obtain ⟨⟨-, hbefore⟩, hblock, hpairs⟩ := hapart hconfig
        refine ⟨fun other hother old hold => ?_, hpairs⟩
        rcases hold with hold | rfl
        · exact hbefore other hother old hold
        · exact hblock other hother

theorem layout_errors_eq_nil_iff (program : Program) (config : Config) :
    (program.layout config).2 = [] ↔ program.WellPlaced config := by
  rw [layout, layoutFrom_errors_eq_nil_iff, SymbolTable.defineAll_errors_eq_nil_iff]
  constructor
  · rintro ⟨hinside, hapart, hdistinct, -⟩
    exact ⟨hinside, fun hconfig => (hapart hconfig).2, hdistinct⟩
  · rintro ⟨hinside, hapart, hdistinct⟩
    refine ⟨hinside, fun hconfig => ⟨by simp, hapart hconfig⟩, hdistinct, ?_⟩
    simp

theorem find?_layout (program : Program) (config : Config) (label : String) :
    (program.layout config).1.find? label = program.definitions.lookup label := by
  rw [layout, layoutFrom_symbols, SymbolTable.find?_defineAll,
    Dictionary.find?_empty, Option.none_or, definitions]

def sites (program : Program) : List Site :=
  program.blocks.flatMap Block.sites

theorem mem_sites_iff {program : Program} {site : Site} :
    site ∈ program.sites ↔
      ∃ place, program.Stands place site.index site.block site.statement := by
  rw [sites, List.mem_flatMap]
  constructor
  · rintro ⟨block, hblock, hsite⟩
    obtain ⟨place, hplace⟩ := List.mem_iff_getElem?.mp hblock
    obtain ⟨index, hindex⟩ := List.mem_iff_getElem?.mp hsite
    rw [Block.getElem?_sites] at hindex
    obtain ⟨statement, hstatement, rfl⟩ := Option.map_eq_some_iff.mp hindex
    exact ⟨place, hplace, hstatement⟩
  · rintro ⟨place, hblock, hstatement⟩
    refine ⟨site.block, List.mem_of_getElem? hblock, ?_⟩
    apply List.mem_of_getElem?
    rw [Block.getElem?_sites, hstatement, Option.map_some]

theorem definitions_eq_filterMap_sites (program : Program) :
    program.definitions = program.sites.filterMap fun site =>
      site.statement.label.map fun label => (label, site.address) := by
  rw [definitions, sites, List.filterMap_flatMap]
  exact congrArg program.blocks.flatMap (funext Block.definitions_eq_filterMap_sites)

theorem mem_definitions_iff {program : Program} {label : String} {address : Address} :
    (label, address) ∈ program.definitions ↔
      ∃ place index block statement, program.Stands place index block statement ∧
        statement.label = some label ∧ block.start.advance index = address := by
  simp only [definitions_eq_filterMap_sites, List.mem_filterMap, mem_sites_iff,
    Option.map_eq_some_iff, Prod.mk.injEq]
  constructor
  · rintro ⟨site, ⟨place, hstands⟩, _, hlabel, rfl, rfl⟩
    exact ⟨place, site.index, site.block, site.statement, hstands, hlabel, rfl⟩
  · rintro ⟨place, index, block, statement, hstands, hlabel, rfl⟩
    exact ⟨⟨block, index, statement⟩, ⟨place, hstands⟩, label, hlabel, rfl, rfl⟩

theorem Stands.index_lt {program : Program} {place index : Nat} {block : Block}
    {statement : Statement} (hstands : program.Stands place index block statement) :
    index < block.length :=
  (List.getElem?_eq_some_iff.mp hstands.statement_at).1

theorem Stands.block_unique {program : Program} {place index index' : Nat}
    {block block' : Block} {statement statement' : Statement}
    (hfirst : program.Stands place index block statement)
    (hsecond : program.Stands place index' block' statement') : block = block' :=
  Option.some.inj (hfirst.block_at.symm.trans hsecond.block_at)

theorem Stands.statement_unique {program : Program} {place index : Nat}
    {block block' : Block} {statement statement' : Statement}
    (hfirst : program.Stands place index block statement)
    (hsecond : program.Stands place index block' statement') : statement = statement' := by
  obtain rfl := hfirst.block_unique hsecond
  exact Option.some.inj (hfirst.statement_at.symm.trans hsecond.statement_at)

namespace WellPlaced

variable {program : Program} {config : Config}

/-- The table of a well placed program has exactly the labels of its statements. -/
theorem find?_layout_iff (hplaced : program.WellPlaced config) {label : String}
    {address : Address} :
    (program.layout config).1.find? label = some address ↔
      ∃ place index block statement, program.Stands place index block statement ∧
        statement.label = some label ∧ block.start.advance index = address := by
  rw [find?_layout, Dictionary.lookup_eq_some_iff hplaced.distinct,
    mem_definitions_iff]

section Sites

variable {place place' index index' : Nat} {block block' : Block}
variable {statement statement' : Statement}

/-- A label belongs to one statement. -/
theorem site_of_label (hplaced : program.WellPlaced config) {label : String}
    (hfirst : program.Stands place index block statement)
    (hsecond : program.Stands place' index' block' statement')
    (hlabel : statement.label = some label)
    (hlabel' : statement'.label = some label) :
    place = place' ∧ index = index' := by
  have hdistinct := hplaced.distinct
  rw [definitions, List.map_flatMap] at hdistinct
  simp only [Block.map_fst_definitions] at hdistinct
  obtain ⟨hwithin, hbetween⟩ := List.nodup_flatMap.mp hdistinct
  have hmem : label ∈ block.statements.filterMap Statement.label :=
    List.mem_filterMap.mpr
      ⟨statement, List.mem_of_getElem? hfirst.statement_at, hlabel⟩
  have hmem' : label ∈ block'.statements.filterMap Statement.label :=
    List.mem_filterMap.mpr
      ⟨statement', List.mem_of_getElem? hsecond.statement_at, hlabel'⟩
  have hplace : place = place' :=
    index_eq_of_pairwise hbetween hfirst.block_at hsecond.block_at
      (fun hdisjoint => hdisjoint hmem hmem') (fun hdisjoint => hdisjoint hmem' hmem)
  subst hplace
  obtain rfl := hfirst.block_unique hsecond
  have hlabels := hwithin block (List.mem_of_getElem? hfirst.block_at)
  rw [List.Nodup, List.pairwise_filterMap] at hlabels
  refine ⟨rfl, index_eq_of_pairwise hlabels hfirst.statement_at
    hsecond.statement_at (fun hne => ?_) (fun hne => ?_)⟩
  · exact hne label hlabel label hlabel' rfl
  · exact hne label hlabel' label hlabel rfl

theorem end_le (hplaced : program.WellPlaced config)
    (hsmall : ∀ block ∈ program.blocks, block.length < 2 ^ 31) (hblock : block ∈ program.blocks) :
    block.start.toNat + block.length ≤ memorySize := by
  rw [← Block.stop_eq (hsmall block hblock)]
  exact hplaced.inside block hblock

/-- The address of a statement does not wrap. -/
theorem toNat_advance (hplaced : program.WellPlaced config)
    (hsmall : ∀ block ∈ program.blocks, block.length < 2 ^ 31)
    (hstands : program.Stands place index block statement) :
    (block.start.advance index).toNat = block.start.toNat + index := by
  have hend := hplaced.end_le hsmall (List.mem_of_getElem? hstands.block_at)
  have hindex := hstands.index_lt
  exact Address.toNat_advance (by omega)

theorem covers (hplaced : program.WellPlaced config)
    (hsmall : ∀ block ∈ program.blocks, block.length < 2 ^ 31)
    (hstands : program.Stands place index block statement) :
    block.Covers (block.start.advance index).toNat := by
  have hindex := hstands.index_lt
  rw [hplaced.toNat_advance hsmall hstands, Block.Covers]
  omega

/-- An address belongs to one statement, unless blocks may overlap. -/
theorem site_of_address (hplaced : program.WellPlaced config)
    (hsmall : ∀ block ∈ program.blocks, block.length < 2 ^ 31)
    (hconfig : config.allowOverlap = false)
    (hfirst : program.Stands place index block statement)
    (hsecond : program.Stands place' index' block' statement')
    (haddress : block.start.advance index = block'.start.advance index') :
    place = place' ∧ index = index' := by
  have hnumber := hplaced.toNat_advance hsmall hfirst
  have hnumber' := hplaced.toNat_advance hsmall hsecond
  have hcovers := hplaced.covers hsmall hfirst
  have hcovers' := hplaced.covers hsmall hsecond
  rw [← haddress] at hnumber' hcovers'
  have hlength := hsmall block (List.mem_of_getElem? hfirst.block_at)
  have hlength' := hsmall block' (List.mem_of_getElem? hsecond.block_at)
  have hoverlap := Block.overlaps_of_covers hlength hlength' hcovers hcovers'
  have hoverlap' := Block.overlaps_of_covers hlength' hlength hcovers' hcovers
  have hplace : place = place' :=
    index_eq_of_pairwise (hplaced.apart hconfig) hfirst.block_at hsecond.block_at
      (by simp [hoverlap']) (by simp [hoverlap])
  subst hplace
  obtain rfl := hfirst.block_unique hsecond
  exact ⟨rfl, by omega⟩

end Sites

end WellPlaced

end Program

end LittleComputer
