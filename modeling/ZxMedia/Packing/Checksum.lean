import ZxMedia.Octets

/-!
# Checksums of compressed data

A zlib stream ends with the Adler-32 sum of its content and a gzip file with the CRC-32
of it.
-/

namespace ZxMedia.Packing

/-- The modulus of the Adler-32 sums, the largest prime below 2¹⁶. -/
def adlerModulus : Nat := 65521

/-- The two running sums of Adler-32 after one more octet. -/
def adlerStep (sums : Nat × Nat) (octet : UInt8) : Nat × Nat :=
  let low := (sums.1 + octet.toNat) % adlerModulus
  (low, (sums.2 + low) % adlerModulus)

/-- The Adler-32 sum of a string of octets. -/
def adler32 (octets : Octets) : Nat :=
  let sums := octets.foldl adlerStep (1, 0)
  sums.2 * 65536 + sums.1

/-- The remainder of a register shifted by one bit, for the reversed CRC-32
polynomial. -/
def crcShift (register : UInt32) : UInt32 :=
  if register &&& 1 = 1 then (register >>> 1) ^^^ 0xEDB88320 else register >>> 1

/-- The register after eight shifts. -/
def crcEntry (octet : Nat) : UInt32 :=
  crcShift <| crcShift <| crcShift <| crcShift <| crcShift <| crcShift <| crcShift <| crcShift <|
    UInt32.ofNat octet

/-- The registers after eight shifts, by the octet that was shifted out. -/
def crcTable : Array UInt32 :=
  (Array.range 256).map crcEntry

/-- The CRC-32 register after one more octet. -/
def crcStep (register : UInt32) (octet : UInt8) : UInt32 :=
  let index := (register.toUInt8 ^^^ octet).toNat
  crcTable.getD index 0 ^^^ (register >>> 8)

/-- The CRC-32 of a string of octets. -/
def crc32 (octets : Octets) : Nat :=
  ((octets.foldl crcStep 0xFFFFFFFF) ^^^ 0xFFFFFFFF).toNat

end ZxMedia.Packing
