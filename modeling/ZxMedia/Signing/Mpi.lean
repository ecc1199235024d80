import ZxMedia.Error
import ZxMedia.Signing.Modular

/-!
# Integers of any size as octets

A multi-precision integer is the number of its significant bits in two octets, the most
significant first, followed by just as many octets as hold these bits. The count leaves
no choice, so an integer has one encoding only.
-/

namespace ZxMedia.Signing

/-- The number that octets denote, the most significant first. -/
def ofBigEndian (octets : List UInt8) : Nat :=
  LittleEndian.decode octets.reverse

/-- The fewest octets that denote a number, the most significant first; zero takes
one. -/
def bigEndian (number : Nat) : List UInt8 :=
  (LittleEndian.encode (max 1 ((bitLength number + 7) / 8)) number).reverse

/-- The encoding of an integer. -/
def encodeMpi (number : Nat) : Except Error (List UInt8) :=
  let bits := bitLength number
  if bits < UInt16.size then .ok ((LittleEndian.encode 2 bits).reverse ++ bigEndian number)
  else .error (.logic .integerTooLarge)

/-- Reads an integer, and what follows it. -/
def decodeMpi? (octets : List UInt8) : Option (Nat × List UInt8) :=
  match octets with
  | high :: low :: ahead =>
    let bits := LittleEndian.decode [low, high]
    let size := (bits + 7) / 8
    match Scan.split? size ahead with
    | none => none
    | some (digits, rest) =>
      let number := ofBigEndian digits
      if bitLength number = bits then some (number, rest) else none
  | _ => none

end ZxMedia.Signing
