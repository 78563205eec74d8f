import LittleComputer.Proofs.Memory
import Mathlib.Data.List.FinRange

/-!
The order of blocks.  Layout compares a block with earlier ones only, the first definition of a
label counts, and the first segment that has a word for an address is read.  Where layout finds no
problem none of this shows: no two blocks are in each other's way in either order, every label has
one definition, and every address has one word.
-/
namespace LittleComputer

/-- Where at most one item of a list has an answer, it is found in every order. -/
theorem findSome?_eq_of_perm {α β : Type} {f : α → Option β} {first second : List α}
    (hperm : first.Perm second) (hsingle : second.Pairwise fun a b => ¬ (f a).isSome ∨
      ¬ (f b).isSome) : first.findSome? f = second.findSome? f := by
  cases hfound : first.findSome? f with
  | none =>
      symm
      rw [List.findSome?_eq_none_iff] at hfound ⊢
      intro item hitem
      exact hfound item (hperm.mem_iff.mpr hitem)
  | some answer =>
      obtain ⟨item, hitem, hanswer⟩ := List.exists_of_findSome?_eq_some hfound
      exact (findSome?_eq_of_pairwise hsingle (hperm.mem_iff.mp hitem) hanswer).symm

theorem Block.overlaps_comm (a b : Block) : a.overlaps b = b.overlaps a := by
  rw [Bool.eq_iff_iff, overlaps_iff, overlaps_iff]
  tauto

namespace Program

def reordered (program : Program) (order : Equiv.Perm (Fin program.blocks.length)) : Program :=
  ⟨List.ofFn fun place => program.blocks.get (order place)⟩

section Reordered

variable {program again : Program} {config : Config} {out out' : Assembled}

theorem blocks_reordered_perm (program : Program)
    (order : Equiv.Perm (Fin program.blocks.length)) :
    (program.reordered order).blocks.Perm program.blocks := by
  have hperm := order.ofFn_comp_perm program.blocks.get
  rwa [List.ofFn_get] at hperm

theorem getElem?_blocks_reordered (program : Program)
    (order : Equiv.Perm (Fin program.blocks.length)) (place : Fin program.blocks.length) :
    (program.reordered order).blocks[place.val]? = program.blocks[(order place).val]? := by
  simp [reordered]

theorem definitions_perm (hperm : again.blocks.Perm program.blocks) :
    again.definitions.Perm program.definitions :=
  hperm.flatMap_right Block.definitions

/-- A program that can be laid out can be laid out in every order of its blocks. -/
theorem WellPlaced.of_perm (hperm : again.blocks.Perm program.blocks)
    (hplaced : program.WellPlaced config) : again.WellPlaced config where
  inside := by
    intro block hblock
    exact hplaced.inside block (hperm.mem_iff.mp hblock)
  apart := by
    intro hconfig
    refine (hperm.pairwise_iff ?_).mpr (hplaced.apart hconfig)
    intro first second hapart
    rw [Block.overlaps_comm, hapart]
  distinct := ((definitions_perm hperm).map Prod.fst).nodup_iff.mpr hplaced.distinct

/-- Where every label has one definition, the table has it in every order of the blocks. -/
theorem WellPlaced.layout_eq_of_perm (hperm : again.blocks.Perm program.blocks)
    (hplaced : program.WellPlaced config) : again.layout config = program.layout config := by
  have hplaced' := hplaced.of_perm hperm
  have hsymbols : (again.layout config).1 = (program.layout config).1 := by
    -- A table is sorted by label, so that its lookups determine it.
    apply Dictionary.eq_of_find?_eq
    intro label
    apply Option.ext
    intro address
    rw [find?_layout, find?_layout, Dictionary.lookup_eq_some_iff hplaced'.distinct,
      Dictionary.lookup_eq_some_iff hplaced.distinct, (definitions_perm hperm).mem_iff]
  refine Prod.ext hsymbols ?_
  rw [(layout_errors_eq_nil_iff _ _).mpr hplaced', (layout_errors_eq_nil_iff _ _).mpr hplaced]

theorem segments_eq_map (hassemble : (program.assemble config).value = .ok out) :
    out.image.segments = program.blocks.map (Block.segment config.offsets out.symbols) :=
  (Block.forall₂_yields_iff.mp (assemble_eq_ok_iff.mp hassemble).2).2.symm

/-- In another order of its blocks, an assembled program has the same table and each block its
segment. -/
theorem assemble_of_perm (hperm : again.blocks.Perm program.blocks)
    (hassemble : (program.assemble config).value = .ok out) :
    (again.assemble config).value =
      .ok ⟨⟨again.blocks.map (Block.segment config.offsets out.symbols)⟩, out.symbols⟩ := by
  obtain ⟨hlayout, hyields⟩ := assemble_eq_ok_iff.mp hassemble
  obtain ⟨haccepted, -⟩ := Block.forall₂_yields_iff.mp hyields
  refine assemble_eq_ok_iff.mpr ⟨?_, Block.forall₂_yields_iff.mpr ⟨?_, rfl⟩⟩
  · rw [(wellPlaced_of_assemble hassemble).layout_eq_of_perm hperm, hlayout]
  · intro block hblock
    exact haccepted block (hperm.mem_iff.mp hblock)

/-- Unless blocks overlap, the order of the segments cannot be told from what is read. -/
theorem read?_eq_of_perm (hsmall : ∀ block ∈ program.blocks, block.length < 2 ^ 31)
    (hconfig : config.allowOverlap = false)
    (hperm : out'.image.segments.Perm out.image.segments)
    (hassemble : (program.assemble config).value = .ok out) (address : Address) :
    out'.image.read? address = out.image.read? address :=
  findSome?_eq_of_perm hperm (pairwise_isSome_read? hassemble hsmall hconfig address)

end Reordered

/-- The order of blocks does not matter to a program that is assembled.  In every other order it is
assembled too, to the same table and to the same segments in that order; unless blocks may overlap,
the same words are read. -/
theorem block_order_does_not_matter (program : Program) (config : Config)
    (order : Equiv.Perm (Fin program.blocks.length)) (out : Assembled)
    (hassemble : (program.assemble config).value = .ok out) :
    ∃ again, ((program.reordered order).assemble config).value = .ok again ∧
      again.symbols = out.symbols ∧
      again.image.segments.length = program.blocks.length ∧
      (∀ place : Fin program.blocks.length,
        again.image.segments[place.val]? = out.image.segments[(order place).val]?) ∧
      (config.allowOverlap = false → (∀ block ∈ program.blocks, block.length < 2 ^ 31) →
        ∀ address, again.image.read? address = out.image.read? address) := by
  have hperm := program.blocks_reordered_perm order
  have hsegments := segments_eq_map hassemble
  refine ⟨_, assemble_of_perm hperm hassemble, rfl, ?_, ?_, ?_⟩
  · rw [List.length_map, hperm.length_eq]
  · intro place
    rw [hsegments, List.getElem?_map, List.getElem?_map, getElem?_blocks_reordered]
  · intro hconfig hsmall address
    apply read?_eq_of_perm hsmall hconfig ?_ hassemble
    rw [hsegments]
    exact hperm.map _

/-- With its blocks swapped, a program over the end of memory has its segments swapped, and the word
before the end of memory is where it was. -/
theorem blocks_over_memory_end_swapped :
    (overMemoryEnd.assemble {}).value = .ok overMemoryEndAssembled ∧
      ∃ again, ((overMemoryEnd.reordered
          (Equiv.swap ⟨0, by decide⟩ ⟨1, by decide⟩)).assemble {}).value = .ok again ∧
        again.symbols = overMemoryEndAssembled.symbols ∧
        again.image.segments[0]? = some ⟨0x0000, [0x907F, 0xE5FC]⟩ ∧
        again.image.read? 0xFFFF = some 0x01FE := by
  have hassemble : (overMemoryEnd.assemble {}).value = .ok overMemoryEndAssembled := by
    decide
  obtain ⟨again, hagain, hsymbols, -, hsegments, hread⟩ := block_order_does_not_matter _ _
    (Equiv.swap ⟨0, by decide⟩ ⟨1, by decide⟩) _ hassemble
  exact ⟨hassemble, again, hagain, hsymbols, hsegments ⟨0, by decide⟩, hread rfl (by decide) 0xFFFF⟩

end Program

end LittleComputer
