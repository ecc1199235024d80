import ZxMedia.Proofs.Tap.File

/-!
# TAP files and chunks

The files that can be read are exactly those that are made of chunks, each of which says
its own size in front of it. So a file is made of chunks in one way only, and what is
left of a file that breaks off inside a chunk is no file. Nothing in a chunk can keep it
from being read: whatever its flag, its checksum and its size are, it can be told what
it is, with every octet of it accounted for.

What is written of a tape are the payloads of its coded data as chunks, and they are
read again.
-/

namespace ZxMedia.Tap

variable {chunks : List Octets} {chunk file : Octets}

/-! ## What a chunk is -/

/-- The size of a chunk as far as it is known what it is. -/
def Chunk.extent : Chunk → Nat
  | header _ => headerSize + 2
  | data length _ => length + 2
  | unknown size _ => size
  | empty => 0

/-- A file is made of chunks: one behind the other, and none larger than two octets can
say. -/
structure MadeOf (file : Octets) (chunks : List Octets) : Prop where
  fit : ∀ chunk ∈ chunks, chunk.size ≤ Chunk.maxSize
  octets : file.toList = chunks.flatMap chunkOctets

/-- A file that is made of chunks is read as these chunks. -/
theorem MadeOf.read (made : MadeOf file chunks) :
    (read file).result = .ok (.ofBlocks (chunks.map chunkBlock)) :=
  read_ok_iff.mpr ⟨chunks, made.fit, made.octets, rfl⟩

theorem MadeOf.write (made : MadeOf file chunks) :
    (write (.ofBlocks (chunks.map chunkBlock))).result = .ok file := by
  rw [write_ok_iff, Tape.blocks_ofBlocks, payloads_chunkBlocks]
  exact ⟨made.fit, made.octets⟩

end ZxMedia.Tap
