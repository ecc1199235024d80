/-!
# Octets and little-endian numbers

Every format of this library is a string of octets. A number occupies a fixed count of
them, the least significant first. `encode` and `decode` are inverse to each other:
`decode_encode` for the numbers that fit, and `encode_decode` for every string of
octets.
-/

namespace ZxMedia

/-- A string of octets: the content of a file, the payload of a block. -/
abbrev Octets := Array UInt8

namespace LittleEndian

/-- The `width` low octets of a number, the least significant first. -/
def encode : Nat → Nat → List UInt8
  | 0, _ => []
  | width + 1, number => UInt8.ofNat number :: encode width (number / 256)

/-- The number of strings of `width` octets, which is the first number that does not fit
them. -/
def capacity : Nat → Nat
  | 0 => 1
  | width + 1 => 256 * capacity width

/-- The number that a string of octets denotes, the least significant octet first. -/
def decode : List UInt8 → Nat
  | [] => 0
  | octet :: octets => octet.toNat + 256 * decode octets

@[simp] theorem length_encode (width number : Nat) :
    (encode width number).length = width := by
  induction width generalizing number with
  | zero => rfl
  | succ width ih => simp [encode, ih]

/-- A string of octets denotes a number that fits them. -/
theorem decode_lt (octets : List UInt8) : decode octets < capacity octets.length := by
  induction octets with
  | nil => simp [decode, capacity]
  | cons octet octets ih =>
    have bound := octet.toNat_lt
    simp only [decode, List.length_cons, capacity]
    omega

theorem decode_encode_mod (width number : Nat) :
    decode (encode width number) = number % capacity width := by
  induction width generalizing number with
  | zero => simp [encode, decode, capacity, Nat.mod_one]
  | succ width ih =>
    simp only [encode, decode, ih, capacity, UInt8.toNat_ofNat']
    rw [Nat.mod_mul]

/-- A number that fits its width is read back. -/
theorem decode_encode {width number : Nat} (fits : number < capacity width) :
    decode (encode width number) = number := by
  rw [decode_encode_mod, Nat.mod_eq_of_lt fits]

/-- Every string of octets is the encoding of the number it denotes. -/
theorem encode_decode (octets : List UInt8) :
    encode octets.length (decode octets) = octets := by
  induction octets with
  | nil => rfl
  | cons octet octets ih =>
    have bound := octet.toNat_lt
    have high : (octet.toNat + 256 * decode octets) / 256 = decode octets := by omega
    have low : UInt8.ofNat (octet.toNat + 256 * decode octets) = octet := by
      apply UInt8.toNat_inj.mp
      simp only [UInt8.toNat_ofNat']
      omega
    simp [encode, decode, high, low, ih]

end LittleEndian

end ZxMedia
