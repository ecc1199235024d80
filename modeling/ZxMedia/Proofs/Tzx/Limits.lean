import ZxMedia.Proofs.Tzx.Fits
import ZxMedia.Tzx.File

/-!
# The tapes that a TZX file can hold

A tape is written exactly if each of its blocks fits its fields, and what can not be
written is refused as corrupt. No size and no number is ever cut to fit its field:
whatever is written of a block tells all of it (`Tells`), so that a reader that goes by
the sizes in the file finds every part of the block again and nothing else.
-/

namespace ZxMedia.Tzx

open Scan (Reads)

/-- A piece of a file tells all of a block: whatever follows the piece, the block is
read from it. A block that is kept as it was found is written as its identifier and its
body, and a size only stands in it if it is one of the body. -/
def Tells (piece : List UInt8) : Block → Prop
  | .unsupported id body => piece = id :: body.toList
  | block => scanItem.Reads piece (.block block.withLineEnds)

theorem tells_encodeBlock {block : Block} {piece : Octets}
    (written : encodeBlock block = .ok piece) : Tells piece.toList block := by
  simp only [encodeBlock, bind_ok, pure_ok] at written
  obtain ⟨body, writtenBody, rfl⟩ := written
  rw [Array.toList_append]
  by_cases known : block.kind = .unsupported
  · cases block with
    | unsupported id octets =>
        obtain rfl := Except.ok.inj writtenBody
        rfl
    | _ => cases known
  · have reads := (bodyReads_of_encodeBody writtenBody known).item
    cases block with
    | unsupported => exact absurd rfl known
    | _ => exact reads

/-- A tape is written exactly if all of its blocks fit their fields, and is refused as
corrupt otherwise. A file that was written is its header and a piece for each block that
tells all of it. -/
theorem write_ok_iff_fits (tape : Tape) :
    ((∃ file, write tape = .ok file) ↔ ∀ block ∈ tape.blocks, block.FitsFields) ∧
    (∀ error, write tape = .error error → ∃ cause, error = .corrupt cause) ∧
    ∀ file, write tape = .ok file → ∃ pieces : List (List UInt8),
      file.toList = header.toList ++ pieces.flatten ∧
      List.Forall₂ Tells pieces tape.blocks := by
  have settled := SucceedsIff.appendAll succeedsIff_encodeBlock tape.blocks header
  refine ⟨settled.exists_ok_iff, fun _ => settled.corrupt, ?_⟩
  intro file written
  obtain ⟨pieces, each, whole⟩ := appendAll_ok.mp written
  exact ⟨pieces, whole, (each.imp fun _ _ => tells_encodeBlock).flip⟩

/-- A choice between so many blocks, each with a description as long as a field can
hold. -/
def menu (count : Nat) : Block :=
  .select (Array.replicate count ⟨1, ⟨Array.replicate 255 32⟩⟩)

/-- A menu of 254 descriptions is written. One more of them could still be counted, and
each would fit its own field, but all of them together would not. -/
theorem write_ok_iff_fits_menu :
    (∃ file, write (.ofBlocks [menu 254]) = .ok file) ∧
      ∃ cause, write (.ofBlocks [menu 255]) = .error (.corrupt cause) := by
  have fits (count : Nat) :
      (menu count).FitsFields ↔ count < 2 ^ 8 ∧ 1 + count * 258 < 2 ^ 16 := by
    simp [menu, Block.FitsFields, TapeText.FitsField, SelectItem.extent, TapeText.extent]
  constructor
  · refine (write_ok_iff_fits _).1.mpr ?_
    simp [fits]
  · have refused := (write_ok_iff_fits (.ofBlocks [menu 255])).1
    cases written : write (.ofBlocks [menu 255]) with
    | ok file =>
        have fitting := refused.mp ⟨file, written⟩
        simp [fits] at fitting
    | error error =>
        obtain ⟨cause, rfl⟩ := (write_ok_iff_fits _).2.1 error written
        exact ⟨cause, rfl⟩

end ZxMedia.Tzx
