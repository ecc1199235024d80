import ZxMedia.Signing.Sha1

/-!
# Nonces drawn from a seed

A signature needs a number that nobody can guess. It is drawn from a generator that is
seeded with the private key and the message, so that signing needs no source of
randomness and the same message always has the same signature. The generator keeps a key
and a value, both digests, and renews both after every draw.
-/

namespace ZxMedia.Signing

/-- The keyed digest of a message. -/
def hmac (key message : List UInt8) : List UInt8 :=
  let short := if Sha1.blockSize < key.length then Sha1.digest key else key
  let full := short ++ List.replicate (Sha1.blockSize - short.length) 0
  let inner := Sha1.digest (full.map (· ^^^ 0x36) ++ message)
  Sha1.digest (full.map (· ^^^ 0x5C) ++ inner)

/-- A generator of octets. -/
structure Generator where
  key : List UInt8
  value : List UInt8

namespace Generator

/-- Mixes octets into a generator. -/
def renew (generator : Generator) (octets : List UInt8) : Generator :=
  let key := hmac generator.key (generator.value ++ octets)
  ⟨key, hmac key generator.value⟩

/-- The generator for a seed. -/
def ofSeed (seed : List UInt8) : Generator :=
  let blank : Generator :=
    ⟨List.replicate Sha1.digestSize 0, List.replicate Sha1.digestSize 1⟩
  (blank.renew (0 :: seed)).renew (1 :: seed)

/-- Values one after another, at most `count` of them, until they hold `size` octets. -/
def stretch (key : List UInt8) (size : Nat) :
    Nat → List UInt8 → List UInt8 → List UInt8 × List UInt8
  | 0, value, drawn => (drawn, value)
  | count + 1, value, drawn =>
    if size ≤ drawn.length then (drawn, value)
    else
      let value := hmac key value
      stretch key size count value (drawn ++ value)

/-- Draws `size` octets and renews the generator. -/
def draw (generator : Generator) (size : Nat) : List UInt8 × Generator :=
  let (drawn, value) := stretch generator.key size size generator.value []
  (drawn.take size, renew ⟨generator.key, value⟩ [0])

end Generator

end ZxMedia.Signing
