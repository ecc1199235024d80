import Mathlib
import ZxMedia.Packing.Deflate
import ZxMedia.Proofs.Packing.Zlib

/-!
# Gzip files are unpacked again

As with zlib streams, the packed form is read before it is taken, and stored blocks are
taken if it does not give the data back. Behind the header of a file that is written
here its deflated data begins, and behind that stand the checksum and the size.
-/

namespace ZxMedia.Packing.Gzip

open LittleEndian (decode_encode length_encode)

theorem crc32_lt (data : Octets) : crc32 data < UInt32.size :=
  UInt32.toNat_lt _

theorem skipHeader_file (data : Octets) (body : List UInt8) :
    skipHeader (file data body) =
      .ok (body ++ (LittleEndian.encode 4 (crc32 data) ++
        LittleEndian.encode 4 (data.size % UInt32.size))) := by
  simp only [file, List.cons_append, List.nil_append, List.append_assoc]
  rfl

theorem decode_file_store (data : Octets) :
    decode (file data (store data)) = .ok data := by
  have fits : crc32 data < LittleEndian.capacity 4 := crc32_lt data
  have inside : data.size % UInt32.size < LittleEndian.capacity 4 :=
    Nat.mod_lt _ (by decide)
  have sum := decode_encode fits
  have size := decode_encode inside
  have sumWidth := length_encode 4 (crc32 data)
  have sizeWidth := length_encode 4 (data.size % UInt32.size)
  unfold decode
  rw [skipHeader_file]
  generalize LittleEndian.encode 4 (crc32 data) = sumOctets at sum sumWidth
  generalize LittleEndian.encode 4 (data.size % UInt32.size) = sizeOctets at size sizeWidth
  match sumOctets, sumWidth, sizeOctets, sizeWidth with
  | [_, _, _, _], _, [_, _, _, _], _ =>
      simp only [ok_bind, inflate_store, BitSource.align,
        BitSource.ofOctets, List.cons_append,
        List.nil_append, sum, size, and_self, if_true]
      rfl

/-- Whatever is packed as a gzip file is unpacked again. -/
theorem inflate_deflate (data : Octets) : inflate (deflate data) = .ok data := by
  have stored : inflate (file data (store data)).toArray = .ok data := by
    simp only [inflate, decode_file_store]
  unfold deflate
  dsimp only
  split
  next content read =>
    split
    next same =>
      subst same
      simp only [inflate, read]
    next => exact stored
  next => exact stored

theorem signature_prefix_deflate (data : Octets) :
    [0x1F, 0x8B] <+: (deflate data).toList := by
  have begins (body : List UInt8) : [0x1F, 0x8B] <+: file data body := ⟨_, rfl⟩
  unfold deflate
  dsimp only
  split
  next =>
    split
    all_goals exact begins _
  next => exact begins _

end ZxMedia.Packing.Gzip
