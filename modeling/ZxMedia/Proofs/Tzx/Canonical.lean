import ZxMedia.Proofs.Tzx.Fits

/-!
# The canonical form of a TZX file

Of one and the same tape there are many files. The header may have any minor version and
may stand in the middle of a file again, there may be octets behind the items of a list,
and some blocks have bodies that say nothing. All of this is passed over when a file is
read, and a tape is written in one way only: that is the canonical form of every file
that is read as the tape.
-/

namespace ZxMedia.Tzx

open Scan (Reads)

variable {tape back : Tape} {blocks : List Block}

/-- Whatever is read as a block can be written and read again. -/
theorem fits_blocks {pieces : List (List UInt8)} {items : List Item}
    (each : List.Forall₂ scanItem.Reads pieces items) :
    ∀ block ∈ items.filterMap Item.block?, block.FitsFields ∧ block.WellKept := by
  refine forall_blocks_of_reads (ensures_scanItem ?_ ?_) each
  · intro id unknown
    exact fits_scanKept (.inr (.inr (.inr (.inr unknown))))
  · intro id known part scan identified body
    exact fits_scanBody identified body

/-- The pieces that are written of blocks are read as these blocks, with the line ends
of a file. -/
theorem reads_pieces {pieces : List (List UInt8)}
    (each : List.Forall₂ (fun block piece => encodeBlock block = .ok piece.toArray) blocks pieces)
    (kept : ∀ block ∈ blocks, block.WellKept) :
    List.Forall₂ scanItem.Reads pieces ((blocks.map Block.withLineEnds).map Item.block) := by
  induction each with
  | nil => exact .nil
  | cons written _ ih =>
      rw [List.forall_mem_cons] at kept
      exact .cons (scanItem_reads kept.1 written) (ih kept.2)

/-- A tape is written with the line ends of a file, so that they do not matter to what
is written. -/
theorem write_withLineEnds (same : back.blocks = tape.blocks.map Block.withLineEnds) :
    write back = write tape := by
  simp only [write, same, List.foldlM_map, encodeBlock_withLineEnds]

/-- Every file that can be read has a canonical form: the file that is written of its
tape. It is read as the same blocks, with the line ends of a file, and is its own
canonical form. -/
theorem read_write_canonical {file : Octets} (succeeded : (read file).result = .ok tape) :
    ∃ canonical back, write tape = .ok canonical ∧ (read canonical).result = .ok back ∧
      back.blocks = tape.blocks.map Block.withLineEnds ∧ write back = .ok canonical := by
  obtain ⟨minor, pieces, items, -, each, rfl⟩ := read_ok_iff.mp succeeded
  have fits := fits_blocks each
  generalize items.filterMap Item.block? = blocks at fits
  have encoded : ∀ block ∈ blocks, ∃ piece, encodeBlock block = .ok piece :=
    fun block member => encodeBlock_of_fits (fits block member).1
  obtain ⟨canonical, written⟩ := appendAll_of_encoded encoded header
  obtain ⟨pieces, pieced, whole⟩ := appendAll_ok.mp written
  have reads := reads_pieces pieced fun block member => (fits block member).2
  have same : write (.ofBlocks blocks) = .ok canonical := by
    rw [write, Tape.blocks_ofBlocks]
    exact written
  have lined : (Tape.ofBlocks (blocks.map Block.withLineEnds)).blocks =
      (Tape.ofBlocks blocks).blocks.map Block.withLineEnds := by
    rw [Tape.blocks_ofBlocks, Tape.blocks_ofBlocks]
  exact ⟨canonical, _, same, read_flatten whole reads, lined,
    (write_withLineEnds lined).trans same⟩

/-- A file of an older version with the header of another one in the middle: a group
with a name of two lines, a block that is not known and one that is not in use any more,
a choice and a remark with octets behind them, and two bodies that are longer than what
they say. -/
def cluttered : Octets :=
  (headerOf 13).toArray ++ #[0x21, 3, 65, 10, 66] ++ (headerOf 12).toArray ++
    #[0x77, 2, 0, 0, 0, 10, 7, 0x16, 1, 0, 0, 0, 10, 0x28, 7, 0, 1, 0xFF, 0xFF, 1, 10, 9, 9,
      0x32, 5, 0, 1, 3, 1, 10, 9, 0x2A, 2, 0, 0, 0, 1, 2, 0x2B, 3, 0, 0, 0, 2, 9, 9, 0x22]

theorem read_write_canonical_cluttered :
    ∃ tape canonical back, (read cluttered).result = .ok tape ∧
      write tape = .ok canonical ∧
      (read canonical).result = .ok back ∧ write back = .ok canonical ∧
      back.blocks = [.groupStart ⟨#[65, 13, 66]⟩, .unsupported 0x77 #[2, 0, 0, 0, 10, 7],
        .unsupported 0x16 #[1, 0, 0, 0, 10], .select #[⟨-1, ⟨#[13]⟩⟩], .archiveInfo #[⟨3, ⟨#[13]⟩⟩],
        .stopIf48k, .setSignalLevel true, .groupEnd] := by
  have succeeded : (read cluttered).result =
      .ok (.ofBlocks [.groupStart ⟨#[65, 10, 66]⟩, .unsupported 0x77 #[2, 0, 0, 0, 10, 7],
        .unsupported 0x16 #[1, 0, 0, 0, 10], .select #[⟨-1, ⟨#[10]⟩⟩], .archiveInfo #[⟨3, ⟨#[10]⟩⟩],
        .stopIf48k, .setSignalLevel true, .groupEnd]) := rfl
  obtain ⟨canonical, back, written, reads, blocks, again⟩ :=
    read_write_canonical succeeded
  refine ⟨_, canonical, back, succeeded, written, reads, again, blocks.trans ?_⟩
  simp [Tape.blocks_ofBlocks, Block.withLineEnds, SelectItem.withLineEnds,
    ArchiveItem.withLineEnds, TapeText.withLineEnds]

end ZxMedia.Tzx
