import ZxMedia.Octets

/-!
# SHA-1

The digest of a string of octets: the string is filled up to whole blocks of 64 octets,
and each block stirs five registers of 32 bits in 80 rounds. Numbers have their most
significant octet first.
-/

namespace ZxMedia.Signing.Sha1

/-- The size of a block in octets. -/
def blockSize : Nat := 64

/-- The size of a digest in octets. -/
def digestSize : Nat := 20

/-- A message filled up to whole blocks: one bit, zeros, and the number of bits of the
message. -/
def pad (message : List UInt8) : List UInt8 :=
  let zeros := (119 - message.length % blockSize) % blockSize
  message ++ 0x80 :: List.replicate zeros 0
    ++ (LittleEndian.encode 8 (8 * message.length)).reverse

/-- The words of four octets each. -/
def words : List UInt8 → List UInt32
  | a :: b :: c :: d :: rest => UInt32.ofNat (LittleEndian.decode [d, c, b, a]) :: words rest
  | _ => []

/-- A word turned left by some bits. -/
def rotate (bits : UInt32) (word : UInt32) : UInt32 :=
  word <<< bits ||| word >>> (32 - bits)

/-- The five registers. -/
structure Registers where
  a : UInt32
  b : UInt32
  c : UInt32
  d : UInt32
  e : UInt32

/-- The registers before the first block. -/
def initial : Registers :=
  ⟨0x67452301, 0xEFCDAB89, 0x98BADCFE, 0x10325476, 0xC3D2E1F0⟩

/-- Extends the sixteen words of a block by `count` more. The last word is in front. -/
def schedule : Nat → List UInt32 → List UInt32
  | 0, words => words
  | count + 1, words =>
    let word (back : Nat) := words.getD (back - 1) 0
    schedule count (rotate 1 (word 3 ^^^ word 8 ^^^ word 14 ^^^ word 16) :: words)

/-- The mixture of three registers and the constant of a round. -/
def mixture (round : Nat) (r : Registers) : UInt32 × UInt32 :=
  if round < 20 then ((r.b &&& r.c) ||| (~~~r.b &&& r.d), 0x5A827999)
  else if round < 40 then (r.b ^^^ r.c ^^^ r.d, 0x6ED9EBA1)
  else if round < 60 then ((r.b &&& r.c) ||| (r.b &&& r.d) ||| (r.c &&& r.d), 0x8F1BBCDC)
  else (r.b ^^^ r.c ^^^ r.d, 0xCA62C1D6)

/-- One round with the word scheduled for it. -/
def round (r : Registers) (step : UInt32 × Nat) : Registers :=
  let (mixed, constant) := mixture step.2 r
  ⟨rotate 5 r.a + mixed + r.e + constant + step.1, r.a, rotate 30 r.b, r.c, r.d⟩

/-- Stirs one block of words into the registers. -/
def block (start : Registers) (words : List UInt32) : Registers :=
  let r := ((schedule 64 words.reverse).reverse.zipIdx).foldl round start
  ⟨start.a + r.a, start.b + r.b, start.c + r.c, start.d + r.d, start.e + r.e⟩

/-- Stirs blocks of sixteen words, at most `count` of them, into the registers. -/
def blocks : Nat → List UInt32 → Registers → Registers
  | 0, _, registers => registers
  | _ + 1, [], registers => registers
  | count + 1, words, registers => blocks count (words.drop 16) (block registers (words.take 16))

/-- The octets of a word. -/
def wordOctets (word : UInt32) : List UInt8 :=
  (LittleEndian.encode 4 word.toNat).reverse

/-- The digest of a message. -/
def digest (message : List UInt8) : List UInt8 :=
  let words := words (pad message)
  let r := blocks words.length words initial
  [r.a, r.b, r.c, r.d, r.e].flatMap wordOctets

end ZxMedia.Signing.Sha1
