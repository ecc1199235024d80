import ZxMedia.Error
import ZxMedia.Packing.Checksum
import ZxMedia.Packing.Inflate

/-!
# Gzip files

A gzip file is a header, deflated data, the CRC-32 of the content and its size. The
header has fixed fields and optional ones: extra octets, a name, a comment and a check
of the header itself. Only the first member of a file is read.
-/

namespace ZxMedia.Packing.Gzip

/-- A reader of a part of the header. -/
abbrev Reader (α : Type) := List UInt8 → Except GzipFault (α × List UInt8)

/-- Skips `count` octets. -/
def skip (count : Nat) : Reader Unit :=
  fun ahead => if count ≤ ahead.length then .ok ((), ahead.drop count) else .error .endOfFile

/-- Skips the extra octets, which follow their number. -/
def skipExtra : Reader Unit
  | low :: high :: ahead => skip (LittleEndian.decode [low, high]) ahead
  | _ => .error .endOfFile

/-- Skips a text and the zero octet that ends it. -/
def skipText : Reader Unit
  | [] => .error .endOfFile
  | octet :: ahead => if octet = 0 then .ok ((), ahead) else skipText ahead

/-- Compares the check of the header with the header in front of it. -/
def checkHeader (file : List UInt8) : Reader Unit
  | ahead@(low :: high :: rest) =>
    let header := file.take (file.length - ahead.length)
    if LittleEndian.decode [low, high] = crc32 header.toArray % 65536 then .ok ((), rest)
    else .error .checksum
  | _ => .error .endOfFile

/-- Skips an optional field if its bit in the flags of the header is set. -/
def optional (flags : UInt8) (bit : UInt8) (field : Reader Unit) : Reader Unit :=
  fun ahead => if flags &&& bit = 0 then .ok ((), ahead) else field ahead

/-- Skips the header of a file. -/
def skipHeader (file : List UInt8) : Except GzipFault (List UInt8) :=
  match file with
  | first :: second :: method :: flags :: _ :: _ :: _ :: _ :: _ :: _ :: ahead =>
    if first ≠ 0x1F ∨ second ≠ 0x8B ∨ method ≠ 8 ∨ flags &&& 0xE0 ≠ 0 then .error .header
    else do
      let ((), ahead) ← optional flags 4 skipExtra ahead
      let ((), ahead) ← optional flags 8 skipText ahead
      let ((), ahead) ← optional flags 16 skipText ahead
      let ((), ahead) ← optional flags 2 (checkHeader file) ahead
      return ahead
  | _ => .error .endOfFile

/-- The content of the first member of a file. -/
def decode (file : List UInt8) : Except GzipFault Octets := do
  let body ← skipHeader file
  let content := inflate body
  match content.ending with
  | .error .incomplete => throw .incomplete
  | .error .invalid => throw .broken
  | .ok source => match source.align.octets with
    | c0 :: c1 :: c2 :: c3 :: s0 :: s1 :: s2 :: s3 :: _ =>
      if LittleEndian.decode [c0, c1, c2, c3] = crc32 content.output ∧
          LittleEndian.decode [s0, s1, s2, s3] = content.output.size % UInt32.size then
        return content.output
      else throw .checksum
    | _ => throw .endOfFile

/-- The content of a file. -/
def inflate (file : Octets) : Except Error Octets :=
  match decode file.toList with
  | .ok content => .ok content
  | .error fault => .error (.corrupt (.gzip fault))

end ZxMedia.Packing.Gzip
