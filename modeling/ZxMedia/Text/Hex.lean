/-!
# Hexadecimal digits

Messages show identifiers as two lowercase digits and code points without leading zeros.
-/

namespace ZxMedia.Text

/-- The lowercase hexadecimal digits of a number, without leading zeros. -/
def hex (number : Nat) : String :=
  String.ofList (Nat.toDigits 16 number)

/-- The two lowercase hexadecimal digits of an octet. -/
def hexByte (octet : UInt8) : String :=
  String.ofList [Nat.digitChar (octet.toNat / 16), Nat.digitChar (octet.toNat % 16)]

end ZxMedia.Text
