import ZxMedia.Packing.Deflate

/-!
# Packers

A container that holds packed data does not depend on how the data is packed, only on
getting it back. A packer is a pair of such functions. Unpacking may be told the size of
the content, and refuses content of any other size.
-/

namespace ZxMedia.Packing

/-- A way to pack data and to unpack it, with the size of the content if it is known. -/
structure Packer where
  deflate : Octets → Octets
  inflate : Octets → Option Nat → Except Error Octets

/-- What is packed is unpacked again, whether its size is told or not. -/
structure Packer.Restores (packer : Packer) : Prop where
  unsized : ∀ data, packer.inflate (packer.deflate data) none = .ok data
  sized : ∀ data, packer.inflate (packer.deflate data) (some data.size) = .ok data

/-- Packing as a zlib stream. -/
def Zlib.packer : Packer where
  deflate := Zlib.deflate
  inflate := Zlib.inflate

end ZxMedia.Packing
