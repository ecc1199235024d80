import ZxMedia.Proofs.FileType.Packed
import ZxMedia.Proofs.Tap.File
import ZxMedia.Proofs.Tzx.File
import ZxMedia.Tape.Open

/-!
# Copies of a tape in either format

A tape of chunks with the machine's own timing can be kept in a TAP file or in a TZX
file, and is the same tape when it is opened again. For a TZX file the signature and the
extension agree, so what is in the chunks does not matter. A TAP file has no signature
of its own. Its octets begin with a size and a chunk, whatever that may be, and if they
happen to have the signature of another type, they are not taken for a TAP file any
more.
-/

namespace ZxMedia

open FileType (identify tapRivals)

/-! ## Opening -/

theorem identifyDeep_of_plain (layers : Nat) {file : Octets} {name : Option String}
    {type : FileType} (identified : identify file name = type) (notGz : type ≠ .gz)
    (notBz2 : type ≠ .bz2) :
    identifyDeep layers file name none = .ok { type, unpacked := none } :=
  identifyDeep_of_unpacked layers identified notGz notBz2

namespace Tape

theorem openFile_of_tap (layers : Nat) {file : Octets} {name : Option String}
    (identified : identify file name = .tap) :
    openFile layers file name = Tap.read file := by
  have found := identifyDeep_of_plain layers identified (by decide) (by decide)
  simp only [openFile, found, Option.getD_none]

theorem openFile_of_tzx (layers : Nat) {file : Octets} {name : Option String}
    (identified : identify file name = .tzx) :
    openFile layers file name = Tzx.read file := by
  have found := identifyDeep_of_plain layers identified (by decide) (by decide)
  simp only [openFile, found, Option.getD_none]

end Tape

/-! ## Copies -/

section

variable {tape : Tape} {payloads : List Octets}

theorem Tap.read_write_chunks (plain : tape.blocks = payloads.map chunkBlock)
    (fit : ∀ data ∈ payloads, data.size ≤ Chunk.maxSize) :
    ∃ file, (write tape).result = .ok file ∧
      (read file).result = .ok (.ofBlocks tape.blocks) := by
  have coded : tape.blocks.filterMap payload? = payloads := by
    rw [plain, payloads_chunkBlocks]
  refine ⟨(payloads.flatMap chunkOctets).toArray, ?_, ?_⟩
  · rw [write_ok_iff, coded]
    exact ⟨fit, rfl⟩
  · rw [read_ok_iff, plain]
    exact ⟨payloads, fit, rfl, rfl⟩

/-- A chunk is read back as it was from the block of a TZX file. -/
theorem Tzx.scanItem_undoes_chunk :
    scanItem.Undoes (fun data => encodeBlock (Tap.chunkBlock data))
      fun data => .block (Tap.chunkBlock data) := by
  intro data octets written
  have kept : (Tap.chunkBlock data).WellKept := trivial
  exact scanItem_reads kept written

theorem Tzx.read_write_chunks (plain : tape.blocks = payloads.map Tap.chunkBlock)
    (fit : ∀ data ∈ payloads, data.size ≤ Tap.Chunk.maxSize) :
    ∃ file rest, write tape = .ok file ∧ file.toList = signature ++ rest ∧
      (read file).result = .ok (.ofBlocks tape.blocks) := by
  have each :
      ∀ data ∈ payloads, ∃ piece, encodeBlock (Tap.chunkBlock data) = .ok piece := by
    intro data mem
    have fits := Tap.lt_capacity_iff.mpr (fit data mem)
    simp only [encodeBlock, encodeBody, Tap.chunkBlock, bind_ok, encodeSized_ok, pure_ok]
    exact ⟨_, _, ⟨_, ⟨fits, rfl⟩, rfl⟩, rfl⟩
  obtain ⟨file, written⟩ := appendAll_of_encoded each header
  obtain ⟨pieces, encoded, whole⟩ := appendAll_ok.mp written
  refine ⟨file, [majorVersion, minorVersion] ++ pieces.flatten, ?_, ?_, ?_⟩
  · rw [write, plain, List.foldlM_map]
    exact written
  · rw [whole, header, List.append_assoc]
  · apply read_flatten whole
    rw [plain, List.map_map]
    exact scanItem_undoes_chunk.pieces encoded

/-- A tape of chunks can be kept in a file of either format. It is the same tape when
the TZX file is opened, and when the TAP file is opened, unless the TAP file has a
signature that outscores its extension. -/
theorem Tape.openFile_copies (layers : Nat) {tapName tzxName : String}
    (plain : tape.blocks = payloads.map fun data => .rom { pause := 1000, data })
    (fit : ∀ data ∈ payloads, data.size ≤ 65535)
    (tapNamed : FileName.extension? tapName = some "tap")
    (tzxNamed : FileName.extension? tzxName = some "tzx") :
    ∃ tapFile tzxFile, (Tap.write tape).result = .ok tapFile ∧
      Tzx.write tape = .ok tzxFile ∧
      (∃ back, (openFile layers tzxFile (some tzxName)).result = .ok back ∧
        back.blocks = tape.blocks) ∧
      (identify tapFile (some tapName) = .tap ↔
        ∀ rival ∈ tapRivals, rival.matches tapFile = false) ∧
      ((∀ rival ∈ tapRivals, rival.matches tapFile = false) →
        ∃ back, (openFile layers tapFile (some tapName)).result = .ok back ∧
          back.blocks = tape.blocks) := by
  obtain ⟨tapFile, tapWritten, tapRead⟩ := Tap.read_write_chunks plain fit
  obtain ⟨tzxFile, rest, tzxWritten, begins, tzxRead⟩ := Tzx.read_write_chunks plain fit
  have isTap := @FileType.identify_tap tapFile (some tapName) tapNamed
  refine ⟨tapFile, tzxFile, tapWritten, tzxWritten, ?_, isTap, ?_⟩
  · have signed : FileType.tzxSignature.matches tzxFile = true :=
      FileType.Signature.matches_of_front rfl begins
    have isTzx : identify tzxFile (some tzxName) = .tzx :=
      FileType.identify_tzx tzxNamed signed
    rw [openFile_of_tzx layers isTzx]
    exact ⟨_, tzxRead, blocks_ofBlocks _⟩
  · intro absent
    rw [openFile_of_tap layers (isTap.mpr absent)]
    exact ⟨_, tapRead, blocks_ofBlocks _⟩

/-- A chunk of data and a chunk without any octets. -/
def twoChunks : List Octets := [#[0xFF, 7, 0xF8], #[]]

theorem Tape.openFile_copies_twoChunks :
    ∃ tape tapFile tzxFile, tape.blocks =
      twoChunks.map (fun data => .rom { pause := 1000, data }) ∧
      (Tap.write tape).result = .ok tapFile ∧ Tzx.write tape = .ok tzxFile ∧
      (∃ back, (openFile 1 tzxFile (some "x.tzx")).result = .ok back ∧
        back.blocks = tape.blocks) ∧
      ∃ back, (openFile 1 tapFile (some "x.tap")).result = .ok back ∧
        back.blocks = tape.blocks := by
  have plain := blocks_ofBlocks (twoChunks.map fun data => .rom { pause := 1000, data })
  have fit : ∀ data ∈ twoChunks, data.size ≤ 65535 := by decide
  have tapNamed : FileName.extension? "x.tap" = some "tap" := by decide +kernel
  have tzxNamed : FileName.extension? "x.tzx" = some "tzx" := by decide +kernel
  obtain ⟨tapFile, tzxFile, tapWritten, tzxWritten, opened, -, others⟩ :=
    openFile_copies 1 plain fit tapNamed tzxNamed
  refine ⟨_, tapFile, tzxFile, plain, tapWritten, tzxWritten, opened, others ?_⟩
  obtain rfl : #[3, 0, 0xFF, 7, 0xF8, 0, 0] = tapFile := Except.ok.inj tapWritten
  decide

/-- A chunk of ten octets that are all 0xFF. -/
def blankChunk : Octets := Array.replicate 10 0xFF

/-- The TAP file of a tape with a blank chunk is taken for a file of another type and
not opened. -/
theorem Tape.openFile_blankChunk :
    (ofBlocks [.rom { pause := 1000, data := blankChunk }]).blocks =
        [.rom { pause := 1000, data := blankChunk }] ∧
      (Tap.write (ofBlocks [.rom { pause := 1000, data := blankChunk }])).result =
        .ok (#[10, 0] ++ blankChunk) ∧
      ∀ layers, (openFile layers (#[10, 0] ++ blankChunk) (some "x.tap")).result =
        .error (.unknown (.notATape .warajevoTap)) := by
  refine ⟨blocks_ofBlocks _, rfl, ?_⟩
  intro layers
  have identified : identify (#[10, 0] ++ blankChunk) (some "x.tap") = .warajevoTap := by
    decide +kernel
  have found := identifyDeep_of_plain layers identified (by decide) (by decide)
  simp only [openFile, found]

end

end ZxMedia
