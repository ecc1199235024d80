import ZxMedia.Octets

/-!
# Reading octets as text

Names inside files should be text but may hold any octets. `decodeLossy` reads the
longest valid encodings it can and puts one replacement character for each maximal
invalid part, so that every string of octets has a text.
-/

namespace ZxMedia.Text.Utf8

/-- The character shown in place of octets that encode none. -/
def replacement : Char := '\uFFFD'

/-- Whether an octet continues a character. -/
def isContinuation (octet : UInt8) : Bool :=
  0x80 ≤ octet && octet ≤ 0xBF

/-- The six bits that a continuation octet carries. -/
def payload (octet : UInt8) : Nat :=
  octet.toNat % 64

/-- Whether `second` may follow `lead` in a character of three octets: shorter encodings
of the same character and the surrogates are excluded. -/
def opensThree (lead second : UInt8) : Bool :=
  (lead == 0xE0 && 0xA0 ≤ second && second ≤ 0xBF) ||
  (0xE1 ≤ lead && lead ≤ 0xEC && isContinuation second) ||
  (lead == 0xED && 0x80 ≤ second && second ≤ 0x9F) ||
  (0xEE ≤ lead && lead ≤ 0xEF && isContinuation second)

/-- Whether `second` may follow `lead` in a character of four octets: shorter encodings
of the same character and the code points past the last one are excluded. -/
def opensFour (lead second : UInt8) : Bool :=
  (lead == 0xF0 && 0x90 ≤ second && second ≤ 0xBF) ||
  (0xF1 ≤ lead && lead ≤ 0xF3 && isContinuation second) ||
  (lead == 0xF4 && 0x80 ≤ second && second ≤ 0x8F)

/-- Reads the rest of a character of three octets: the character and how many octets
follow the first one. -/
def three (lead second : UInt8) : List UInt8 → Char × Nat
  | third :: _ =>
    if isContinuation third then
      (Char.ofNat (lead.toNat % 16 * 4096 + payload second * 64 + payload third), 2)
    else (replacement, 1)
  | [] => (replacement, 1)

/-- Reads the rest of a character of four octets. -/
def four (lead second : UInt8) : List UInt8 → Char × Nat
  | third :: fourth :: _ =>
    if isContinuation third then
      if isContinuation fourth then
        (Char.ofNat (lead.toNat % 8 * 262144 + payload second * 4096 + payload third * 64
          + payload fourth), 3)
      else (replacement, 2)
    else (replacement, 1)
  | [third] => (replacement, if isContinuation third then 2 else 1)
  | [] => (replacement, 1)

/-- The character that starts with `lead`, and how many of the following octets belong
to it. -/
def character (lead : UInt8) (rest : List UInt8) : Char × Nat :=
  if lead < 0x80 then (Char.ofNat lead.toNat, 0)
  else match rest with
    | [] => (replacement, 0)
    | second :: rest =>
      if 0xC2 ≤ lead && lead ≤ 0xDF then
        if isContinuation second then (Char.ofNat (lead.toNat % 32 * 64 + payload second), 1)
        else (replacement, 0)
      else if opensThree lead second then three lead second rest
      else if opensFour lead second then four lead second rest
      else (replacement, 0)

/-- Reads characters, after skipping the octets that belong to one already read. -/
def decodeFrom : Nat → List UInt8 → List Char
  | _, [] => []
  | skipped + 1, _ :: rest => decodeFrom skipped rest
  | 0, lead :: rest =>
    let (c, following) := character lead rest
    c :: decodeFrom following rest

/-- The text of a string of octets. -/
def decodeLossy (octets : List UInt8) : String :=
  String.ofList (decodeFrom 0 octets)

/-- A text of ASCII characters is read back. -/
theorem decodeFrom_ascii {octets : List UInt8} (ascii : ∀ octet ∈ octets, octet < 0x80) :
    decodeFrom 0 octets = octets.map fun octet => Char.ofNat octet.toNat := by
  induction octets with
  | nil => rfl
  | cons lead rest ih =>
    have first : lead < 0x80 := ascii lead (by simp)
    simp [decodeFrom, character, first, ih fun octet h => ascii octet (by simp [h])]

end ZxMedia.Text.Utf8
