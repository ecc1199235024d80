import ZxMedia.Proofs.Tzx.BlockCodec
import ZxMedia.Tzx.File

/-!
# TZX files are read back

A tape that was written is read back block for block, whatever had been played of it.
Only the line feeds of its texts differ, which are carriage returns in a file. The tape
that was read gives the same file when it is written again.
-/

namespace ZxMedia.Tzx

open Scan (Reads)

/-- The header of a file with some minor version. -/
def headerOf (minor : UInt8) : List UInt8 :=
  signature ++ [majorVersion, minor]

theorem reads_headerOf (minor : UInt8) :
    scanHeader.Reads (headerOf minor) (majorVersion, minor) :=
  .bind ((Reads.tag signature).within _) (.within _ ((Reads.byte _).bind ((Reads.byte _).last _)))

theorem ne_nil_of_reads {piece : List UInt8} {item : Item}
    (reads : scanItem.Reads piece item) :
    piece ≠ [] := by
  rintro rfl
  have answer := reads.fills
  cases answer

theorem itemsFrom_flatten {pieces : List (List UInt8)} {items : List Item}
    (each : List.Forall₂ scanItem.Reads pieces items) (file : List UInt8) {steps : Nat}
    (enough : pieces.flatten.length ≤ steps) (before : Array Item)
    (notices : Array Notice) :
    (itemsFrom file steps pieces.flatten before notices).items = before ++ items ∧
      (itemsFrom file steps pieces.flatten before notices).failure = none := by
  induction each generalizing steps before notices with
  | nil => cases steps <;> simp [itemsFrom]
  | @cons piece item pieces items reads each ih =>
      obtain ⟨octet, piece, rfl⟩ := List.exists_cons_of_ne_nil (ne_nil_of_reads reads)
      cases steps with
      | zero => simp at enough
      | succ steps =>
          have left : pieces.flatten.length ≤ steps := by
            simp only [List.flatten_cons, List.length_append, List.length_cons] at enough
            omega
          have first := reads pieces.flatten
          rw [List.cons_append] at first
          simp only [List.flatten_cons, List.cons_append, itemsFrom, first]
          refine ⟨(ih left (before.push item) _).1.trans ?_, (ih left _ _).2⟩
          simp

/-- A file of a header and pieces that are read as items is read as the tape of the
blocks among them. -/
theorem read_pieces {file : Octets} (minor : UInt8) {pieces : List (List UInt8)}
    {items : List Item} (whole : file.toList = headerOf minor ++ pieces.flatten)
    (each : List.Forall₂ scanItem.Reads pieces items) :
    (read file).result = .ok (.ofBlocks (items.filterMap Item.block?)) := by
  obtain ⟨found, failure⟩ := itemsFrom_flatten each file.toList (Nat.le_refl _) #[] #[]
  unfold read
  rw [whole] at found failure ⊢
  simp only [reads_headerOf minor pieces.flatten, if_true, found, failure]
  simp

/-- A file of a header and pieces that are read as blocks is read as the tape of these
blocks. -/
theorem read_flatten {file : Octets} {pieces : List (List UInt8)} {blocks : List Block}
    (whole : file.toList = header.toList ++ pieces.flatten)
    (each : List.Forall₂ scanItem.Reads pieces (blocks.map Item.block)) :
    (read file).result = .ok (.ofBlocks blocks) := by
  have kept : (blocks.map Item.block).filterMap Item.block? = blocks := by
    simp [List.filterMap_map, Function.comp_def, Item.block?]
  rw [← kept]
  exact read_pieces minorVersion whole each

/-- A tape is read back with the line ends of a file, and written as the same file
again. -/
theorem read_write_withLineEnds (tape : Tape) (file : Octets)
    (kept : ∀ block ∈ tape.blocks, block.WellKept) (written : write tape = .ok file) :
    ∃ back, (read file).result = .ok back ∧
      back.blocks = tape.blocks.map Block.withLineEnds ∧ write back = .ok file := by
  obtain ⟨pieces, each, whole⟩ := appendAll_ok.mp written
  have reads : List.Forall₂ scanItem.Reads pieces
      ((tape.blocks.map Block.withLineEnds).map Item.block) := by
    rw [List.map_map, List.forall₂_map_right_iff]
    refine (List.Forall₂.imp ?_ ((List.forall₂_and_left _ _).mpr ⟨kept, each⟩)).flip
    rintro block piece ⟨keptBlock, writtenBlock⟩
    exact scanItem_reads keptBlock writtenBlock
  refine ⟨_, read_flatten whole reads, Tape.blocks_ofBlocks _, ?_⟩
  unfold write at written ⊢
  rw [Tape.blocks_ofBlocks, List.foldlM_map]
  simpa only [encodeBlock_withLineEnds] using written

/-- Blocks with texts of two lines, and blocks that are kept as they were found. -/
def label : List Block :=
  [.groupStart ⟨#[65, 10, 66]⟩, .select #[⟨-1, ⟨#[10]⟩⟩, ⟨2, ⟨#[]⟩⟩],
    .unsupported 0x18 #[2, 0, 0, 0, 10, 7], .unsupported 0x34 #[1, 2, 3, 4, 5, 6, 7, 8],
    .unsupported 0x40 #[1, 1, 0, 0, 10], .unsupported 0x77 #[0, 0, 0, 0], .groupEnd]

theorem read_write_withLineEnds_label :
    ∃ file, write (.ofBlocks label) = .ok file ∧ ∃ back, (read file).result = .ok back ∧
      back.blocks = label.map Block.withLineEnds ∧ write back = .ok file := by
  have kept : ∀ block ∈ label, block.WellKept := by
    simp only [label, List.forall_mem_cons]
    refine ⟨trivial, trivial, .inl ⟨by decide, [10, 7], by decide, rfl⟩,
      .inr (.inl ⟨rfl, rfl⟩),
      .inr (.inr ⟨rfl, 1, [1, 0, 0, 10], rfl, [10], by decide, rfl⟩),
      .inl ⟨by decide, [], by decide, rfl⟩, trivial, ?_⟩
    exact List.forall_mem_nil _
  have isWritten : (write (.ofBlocks label)).toBool = true := by decide +kernel
  cases written : write (.ofBlocks label) with
  | error error =>
      rw [written] at isWritten
      cases isWritten
  | ok file =>
      have back :=
        read_write_withLineEnds (.ofBlocks label) file (by simpa using kept) written
      rw [Tape.blocks_ofBlocks] at back
      exact ⟨file, rfl, back⟩

end ZxMedia.Tzx
