import ZxMedia.Octets

/-!
# Streams of bits

Compressed data is a stream of bits, each octet giving its bits from the lowest to the
highest. A source keeps the bits of the octet it is inside of apart from the octets
ahead, so that it can also be read octet by octet from the next boundary on.
-/

namespace ZxMedia.Packing

/-- The bits of an octet from the lowest to the highest. -/
def octetBits (octet : UInt8) : List Bool :=
  (List.range 8).map octet.toNat.testBit

/-- A number from its bits, the lowest first. -/
def bitsValue : List Bool → Nat
  | [] => 0
  | bit :: bits => bit.toNat + 2 * bitsValue bits

/-- The low `width` bits of a number, the lowest first. -/
def numberBits : Nat → Nat → List Bool
  | 0, _ => []
  | width + 1, number => (number % 2 == 1) :: numberBits width (number / 2)

/-- Bits ahead: those of the octet that was begun, and whole octets after it. -/
structure BitSource where
  pending : List Bool
  octets : List UInt8

namespace BitSource

/-- The source at the start of a string of octets. -/
def ofOctets (octets : List UInt8) : BitSource :=
  ⟨[], octets⟩

/-- Takes one bit, if there is one. -/
def next? (source : BitSource) : Option (Bool × BitSource) :=
  match source.pending, source.octets with
  | bit :: pending, octets => some (bit, ⟨pending, octets⟩)
  | [], octet :: octets =>
    match octetBits octet with
    | bit :: pending => some (bit, ⟨pending, octets⟩)
    | [] => none
  | [], [] => none

/-- Takes a number of `width` bits, the lowest first, if there are so many. -/
def number? : Nat → BitSource → Option (Nat × BitSource)
  | 0, source => some (0, source)
  | width + 1, source => do
    let (bit, source) ← source.next?
    let (rest, source) ← number? width source
    return (bit.toNat + 2 * rest, source)

/-- Drops what is left of the octet that was begun. -/
def align (source : BitSource) : BitSource :=
  ⟨[], source.octets⟩

end BitSource

end ZxMedia.Packing
