import ZxMedia.Signing.Mpi
import ZxMedia.Signing.Nonce

/-!
# DSA signatures

A recording can be signed to attest that it has not been changed. A key is made of a
modulus `p`, an order `q`, a generator `g` of that order, and the public value `y`, the
power of the generator with the private exponent `x`. A signature is a pair of numbers
below `q`, stored as two multi-precision integers.
-/

namespace ZxMedia.Signing

/-- A key that verifies signatures. -/
structure PublicKey where
  p : Nat
  q : Nat
  g : Nat
  y : Nat
  two_le_p : 2 ≤ p
  two_le_q : 2 ≤ q
  g_pos : 0 < g
  g_le_p : g ≤ p
  two_le_y : 2 ≤ y
  /-- The public value has the order of the generator. -/
  y_order : powMod y q p = 1
deriving DecidableEq

/-- A key that makes signatures. -/
structure PrivateKey where
  publicKey : PublicKey
  x : Nat
  x_pos : 0 < x
  x_le_q : x ≤ publicKey.q
deriving DecidableEq

/-- The key of four numbers, if they can be those of a key. -/
def PublicKey.ofNumbers (p q g y : Nat) : Except Error PublicKey :=
  if h : 2 ≤ p ∧ 2 ≤ q ∧ 0 < g ∧ g ≤ p ∧ 2 ≤ y ∧ powMod y q p = 1 then
    .ok ⟨p, q, g, y, h.1, h.2.1, h.2.2.1, h.2.2.2.1, h.2.2.2.2.1, h.2.2.2.2.2⟩
  else .error (.corrupt .keyParameters)

/-- The key of five numbers, if they can be those of a key. -/
def PrivateKey.ofNumbers (p q g y x : Nat) : Except Error PrivateKey := do
  let publicKey ← PublicKey.ofNumbers p q g y
  if h : 0 < x ∧ x ≤ publicKey.q then return ⟨publicKey, x, h.1, h.2⟩
  else throw (.corrupt .keyParameters)

/-- The key of four numbers in octets, the most significant first. -/
def PublicKey.ofOctets (p q g y : List UInt8) : Except Error PublicKey :=
  ofNumbers (ofBigEndian p) (ofBigEndian q) (ofBigEndian g) (ofBigEndian y)

/-- The key of five numbers in octets, the most significant first. -/
def PrivateKey.ofOctets (p q g y x : List UInt8) : Except Error PrivateKey :=
  ofNumbers (ofBigEndian p) (ofBigEndian q) (ofBigEndian g) (ofBigEndian y) (ofBigEndian x)

/-- A description that shows the size of a key only. -/
def PublicKey.describe (key : PublicKey) : String :=
  s!"PublicKey \x7b {bitLength key.p} bits \x7d"

/-- A description that shows nothing of a key. -/
def PrivateKey.describe (_key : PrivateKey) : String :=
  "PrivateKey \x7b .. \x7d"

namespace PublicKey

/-- The number of whole octets in the bits of the order. -/
def orderSize (key : PublicKey) : Nat :=
  bitLength key.q / 8

/-- The number that stands for a digest: the front of it, as much as the order takes. -/
def digestNumber (key : PublicKey) (digest : List UInt8) : Nat :=
  ofBigEndian (digest.take (min key.orderSize Sha1.digestSize))

/-- Whether a pair of numbers is a signature of a digest by this key. -/
def accepts (key : PublicKey) (digest : List UInt8) (r s : Nat) : Bool :=
  if 0 < r ∧ r < key.q ∧ 0 < s ∧ s < key.q then
    match inverse? s key.q with
    | none => false
    | some w =>
      let u := key.digestNumber digest * w % key.q
      let v := r * w % key.q
      powMod key.g u key.p * powMod key.y v key.p % key.p % key.q == r
  else false

end PublicKey

namespace PrivateKey

/-- The octets that the generator of nonces is seeded with. -/
def nonceSeed (key : PrivateKey) (digest : List UInt8) : List UInt8 :=
  let number := key.publicKey.digestNumber digest % key.publicKey.q
  bigEndian key.x ++ (LittleEndian.encode key.publicKey.orderSize number).reverse

/-- Draws numbers until one can be inverted modulo the order, at most as often as given:
the number and its inverse. -/
def drawNonce? (key : PrivateKey) : Nat → Generator → Option (Nat × Nat)
  | 0, _ => none
  | draws + 1, generator =>
    let (octets, generator) := generator.draw key.publicKey.orderSize
    let nonce := ofBigEndian octets
    if 0 < nonce ∧ nonce < key.publicKey.q then
      match inverse? nonce key.publicKey.q with
      | some inverse => some (nonce, inverse)
      | none => drawNonce? key draws generator
    else drawNonce? key draws generator

/-- How many numbers are drawn for a nonce at most. Half of all draws or more succeed
for the orders of real keys. -/
def maxDraws : Nat := 4096

/-- The pair of numbers that signs a digest. -/
def signaturePair (key : PrivateKey) (digest : List UInt8) : Except Error (Nat × Nat) :=
  match key.drawNonce? maxDraws (.ofSeed (key.nonceSeed digest)) with
  | none => .error .endless
  | some (nonce, inverse) =>
    let q := key.publicKey.q
    let r := powMod key.publicKey.g nonce key.publicKey.p % q
    let s := inverse * (key.publicKey.digestNumber digest + key.x * r) % q
    if r = 0 ∨ s = 0 then .error (.logic .signingFailed) else .ok (r, s)

end PrivateKey

/-- The arithmetic of signatures: the pair of numbers that signs a digest with a key,
and whether a pair of numbers is a signature of a digest. -/
structure Scheme where
  pair : PrivateKey → List UInt8 → Except Error (Nat × Nat)
  accepts : PublicKey → List UInt8 → Nat → Nat → Bool

/-- The arithmetic whose nonces are drawn from a seed. -/
def Scheme.seeded : Scheme :=
  ⟨PrivateKey.signaturePair, PublicKey.accepts⟩

/-- The stored signature of a message. Its nonce is drawn from a seed unless another
scheme is given. -/
def sign (message : Octets) (key : PrivateKey) (scheme : Scheme := .seeded) :
    Except Error Octets := do
  let (r, s) ← scheme.pair key (Sha1.digest message.toList)
  return ((← encodeMpi r) ++ (← encodeMpi s)).toArray

/-- Verifies a stored signature of a message. -/
def verify (signature message : Octets) (key : PublicKey) (scheme : Scheme := .seeded) :
    Except Error Unit :=
  match decodeMpi? signature.toList with
  | none => .error (.corrupt (.signatureInteger "r"))
  | some (r, ahead) => match decodeMpi? ahead with
    | none => .error (.corrupt (.signatureInteger "s"))
    | some (s, []) =>
      if scheme.accepts key (Sha1.digest message.toList) r s then .ok () else .error .signature
    | some (_, rest) => .error (.corrupt (.signatureJunk rest.length))

end ZxMedia.Signing
