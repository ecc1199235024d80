import Mathlib
import ZxMedia.Proofs.Encoding
import ZxMedia.Proofs.Signing.Mpi
import ZxMedia.Signing.Dsa

/-!
# Signatures are verified

A key is proper when its numbers are what they are meant to be: the order is prime, the
power of the generator with the order is one, and the public value is the power with the
private exponent. With such a key exponents count modulo the order, and whatever is
signed is verified: the exponents that the verification computes add up to the nonce.

None of this depends on where the nonces come from, nor on how a digest is made a
number. What a scheme has to do is `Scheme.Follows`, and the scheme whose nonces are
drawn from a seed does it.
-/

namespace ZxMedia.Signing

/-! ## Arithmetic modulo a number -/

theorem mul_inverse?_modEq {number modulus inverse : Nat} (positive : 0 < modulus)
    (found : inverse? number modulus = some inverse) :
    number * inverse ≡ 1 [MOD modulus] := by
  unfold inverse? at found
  split at found
  next coprime =>
    obtain rfl := Option.some.inj found
    have bounded : 0 ≤ (bezout number modulus).1 % modulus :=
      Int.emod_nonneg _ (by exact_mod_cast Nat.ne_of_gt positive)
    have combined := congrArg (Int.cast : Int → ZMod modulus) (bezout_spec number modulus)
    rw [coprime] at combined
    rw [← ZMod.natCast_eq_natCast_iff, Nat.cast_mul,
      ← Int.cast_natCast (((bezout number modulus).1 % modulus).toNat),
      Int.toNat_of_nonneg bounded]
    simpa using combined
  next => cases found

/-- Modulo a prime every number below it but zero has an inverse. -/
theorem exists_inverse {number modulus : Nat} (prime : modulus.Prime)
    (nonzero : number ≠ 0)
    (small : number < modulus) : ∃ inverse, number * inverse ≡ 1 [MOD modulus] := by
  have coprime : Nat.Coprime number modulus :=
    (Nat.coprime_of_lt_prime nonzero small prime).symm
  obtain ⟨inverse, -, one⟩ := Nat.exists_mul_mod_eq_one_of_coprime coprime prime.one_lt
  exact ⟨inverse, one.trans (Nat.mod_eq_of_lt prime.one_lt).symm⟩

/-- A number that can be inverted has its inverse found. -/
theorem inverse?_isSome {number modulus inverse : Nat}
    (one : number * inverse ≡ 1 [MOD modulus]) :
    ∃ found, inverse? number modulus = some found := by
  have coprime : Nat.gcd number modulus = 1 := Nat.coprime_of_mul_modEq_one inverse one
  unfold inverse?
  rw [if_pos coprime]
  exact ⟨_, rfl⟩

theorem inverse_unique {number modulus first second : Nat}
    (one : number * first ≡ 1 [MOD modulus])
    (another : number * second ≡ 1 [MOD modulus]) :
    first ≡ second [MOD modulus] := by
  have coprime : Nat.gcd modulus number = 1 :=
    (Nat.coprime_of_mul_modEq_one first one).symm
  exact (one.trans another.symm).cancel_left_of_coprime coprime

/-- Exponents of a number count modulo an exponent that gives one. -/
theorem pow_modEq_pow {base modulus order first second : Nat}
    (one : base ^ order ≡ 1 [MOD modulus]) (same : first ≡ second [MOD order]) :
    base ^ first ≡ base ^ second [MOD modulus] := by
  have reduced (exponent : Nat) :
      base ^ exponent ≡ base ^ (exponent % order) [MOD modulus] := by
    conv_lhs => rw [← Nat.mod_add_div exponent order, pow_add, pow_mul]
    simpa using (one.pow (exponent / order)).mul_left (base ^ (exponent % order))
  calc base ^ first
      ≡ base ^ (first % order) [MOD modulus] := reduced first
    _ = base ^ (second % order) := by rw [same]
    _ ≡ base ^ second [MOD modulus] := (reduced second).symm

/-- The exponents of a verification add up to the nonce. -/
theorem exponents_modEq {q nonce inverse digest x r s w : Nat}
    (inverted : nonce * inverse ≡ 1 [MOD q]) (second : s = inverse * (digest + x * r) % q)
    (found : s * w ≡ 1 [MOD q]) : digest * w % q + x * (r * w % q) ≡ nonce [MOD q] := by
  have one := (ZMod.natCast_eq_natCast_iff _ _ _).mpr inverted
  have verified := (ZMod.natCast_eq_natCast_iff _ _ _).mpr found
  have signed : (s : ZMod q) = inverse * (digest + x * r) := by
    rw [second]
    simp
  rw [← ZMod.natCast_eq_natCast_iff]
  push_cast [ZMod.natCast_mod] at one verified ⊢
  calc (digest * w + x * (r * w) : ZMod q)
      = (digest + x * r) * w := by ring
    _ = nonce * inverse * (digest + x * r) * w := by rw [one, one_mul]
    _ = nonce * (s * w) := by rw [signed]; ring
    _ = nonce := by rw [verified, mul_one]

/-- The powers of a verification are the power with the nonce. -/
theorem pow_mul_pow_modEq {p q g y x u v nonce : Nat} (order : g ^ q ≡ 1 [MOD p])
    (value : y ≡ g ^ x [MOD p]) (exponents : u + x * v ≡ nonce [MOD q]) :
    g ^ u * y ^ v ≡ g ^ nonce [MOD p] :=
  calc g ^ u * y ^ v
      ≡ g ^ u * (g ^ x) ^ v [MOD p] := (value.pow v).mul_left _
    _ = g ^ (u + x * v) := by rw [← pow_mul, ← pow_add]
    _ ≡ g ^ nonce [MOD p] := pow_modEq_pow order exponents

/-! ## What a scheme does -/

/-- A pair of numbers is made of a nonce, a digest being the number `z`. -/
def PrivateKey.Makes (key : PrivateKey) (z r s : Nat) : Prop :=
  ∃ nonce inverse, 0 < nonce ∧ nonce < key.publicKey.q ∧
    nonce * inverse ≡ 1 [MOD key.publicKey.q] ∧
    r = key.publicKey.g ^ nonce % key.publicKey.p % key.publicKey.q ∧
    s = inverse * (z + key.x * r) % key.publicKey.q

/-- A pair of numbers meets the equation of a key, a digest being the number `z`. -/
def PublicKey.Meets (key : PublicKey) (z r s : Nat) : Prop :=
  ∃ inverse, s * inverse ≡ 1 [MOD key.q] ∧
    key.g ^ (z * inverse % key.q) * key.y ^ (r * inverse % key.q) % key.p % key.q = r

theorem PrivateKey.Makes.lt {key : PrivateKey} {z r s : Nat} (made : key.Makes z r s)
    (positive : 0 < key.publicKey.q) : r < key.publicKey.q ∧ s < key.publicKey.q := by
  obtain ⟨_, _, -, -, -, rfl, rfl⟩ := made
  exact ⟨Nat.mod_lt _ positive, Nat.mod_lt _ positive⟩

/-- A scheme makes pairs of nonces, never with a zero, and accepts just the pairs that
are in range and meet the equation of the key. A digest is the same number for both. -/
structure Scheme.Follows (scheme : Scheme)
    (number : PublicKey → List UInt8 → Nat) : Prop where
  made : ∀ {key digest r s}, scheme.pair key digest = .ok (r, s) →
    key.Makes (number key.publicKey digest) r s ∧ r ≠ 0 ∧ s ≠ 0
  accepts_iff : ∀ {key digest r s}, scheme.accepts key digest r s = true ↔
    0 < r ∧ r < key.q ∧ 0 < s ∧ s < key.q ∧ key.Meets (number key digest) r s

variable {scheme : Scheme} {number : PublicKey → List UInt8 → Nat}

/-! ## Proper keys -/

namespace PrivateKey

/-- The numbers of a key are what they are meant to be. -/
structure Proper (key : PrivateKey) : Prop where
  prime : key.publicKey.q.Prime
  order : key.publicKey.g ^ key.publicKey.q ≡ 1 [MOD key.publicKey.p]
  value : key.publicKey.y ≡ key.publicKey.g ^ key.x [MOD key.publicKey.p]

variable {key : PrivateKey}

theorem Proper.meets (proper : key.Proper) {z r s : Nat} (made : key.Makes z r s)
    (nonzero : s ≠ 0) :
    key.publicKey.Meets z r s := by
  obtain ⟨nonce, inverse, -, -, inverted, first, second⟩ := made
  have small : s < key.publicKey.q := second ▸ Nat.mod_lt _ proper.prime.pos
  obtain ⟨w, found⟩ := exists_inverse proper.prime nonzero small
  refine ⟨w, found, ?_⟩
  rw [pow_mul_pow_modEq proper.order proper.value (exponents_modEq inverted second found), first]

/-- What is signed with a proper key is verified with its public key, whatever the
scheme. -/
theorem Proper.verify_sign_of_follows (proper : key.Proper)
    (follows : scheme.Follows number)
    {message signature : Octets} (signed : sign message key scheme = .ok signature) :
    verify signature message key.publicKey scheme = .ok () := by
  obtain ⟨⟨r, s⟩, pair, written⟩ := bind_ok.mp signed
  obtain ⟨front, writtenR, written⟩ := bind_ok.mp written
  obtain ⟨back, writtenS, same⟩ := bind_ok.mp written
  obtain rfl := pure_ok.mp same
  obtain ⟨made, rNonzero, sNonzero⟩ := follows.made pair
  have rPositive := Nat.pos_of_ne_zero rNonzero
  have sPositive := Nat.pos_of_ne_zero sNonzero
  have readR := decodeMpi?_encodeMpi rPositive writtenR back
  have readS := decodeMpi?_encodeMpi sPositive writtenS []
  rw [List.append_nil] at readS
  have accepted :
      scheme.accepts key.publicKey (Sha1.digest message.toList) r s = true := by
    obtain ⟨rSmall, sSmall⟩ := made.lt proper.prime.pos
    exact follows.accepts_iff.mpr
      ⟨rPositive, rSmall, sPositive, sSmall, proper.meets made sNonzero⟩
  simp only [verify, readR, readS, accepted, if_true]

end PrivateKey

/-! ## Nonces drawn from a seed -/

namespace PrivateKey

variable {key : PrivateKey} {digest : List UInt8} {nonce inverse r s : Nat}

/-- A nonce that is drawn is in range and has an inverse modulo the order. -/
theorem drawNonce?_some {draws : Nat} {generator : Generator}
    (drawn : key.drawNonce? draws generator = some (nonce, inverse)) :
    0 < nonce ∧ nonce < key.publicKey.q ∧
    inverse? nonce key.publicKey.q = some inverse := by
  induction draws generalizing generator with
  | zero => cases drawn
  | succ draws ih =>
      simp only [drawNonce?] at drawn
      split at drawn
      next inRange =>
        split at drawn
        next found =>
          cases drawn
          exact ⟨inRange.1, inRange.2, found⟩
        next => exact ih drawn
      next => exact ih drawn

theorem signaturePair_ok (signed : key.signaturePair digest = .ok (r, s)) :
    key.Makes (key.publicKey.digestNumber digest) r s ∧ r ≠ 0 ∧ s ≠ 0 := by
  unfold signaturePair at signed
  split at signed
  next => cases signed
  next nonce inverse drawn =>
    obtain ⟨positive, small, found⟩ := drawNonce?_some drawn
    have inverted := mul_inverse?_modEq (Nat.lt_trans positive small) found
    dsimp only at signed
    rw [powMod_eq] at signed
    split at signed
    next => cases signed
    next nonzero =>
      obtain ⟨rfl, rfl⟩ := Prod.mk.inj (Except.ok.inj signed)
      rw [not_or] at nonzero
      exact ⟨⟨nonce, inverse, positive, small, inverted, rfl, rfl⟩, nonzero⟩

end PrivateKey

/-- Which of the inverses is found does not matter: powers are taken of exponents that
are the same for all of them. -/
theorem PublicKey.accepts_iff {key : PublicKey} {digest : List UInt8} {r s : Nat} :
    key.accepts digest r s = true ↔
      0 < r ∧ r < key.q ∧ 0 < s ∧ s < key.q ∧
      key.Meets (key.digestNumber digest) r s := by
  have positive : 0 < key.q := Nat.zero_lt_of_lt key.two_le_q
  unfold accepts Meets
  constructor
  · intro accepted
    split at accepted
    next inRange =>
      split at accepted
      next => cases accepted
      next w found =>
        refine ⟨inRange.1, inRange.2.1, inRange.2.2.1, inRange.2.2.2, w,
          mul_inverse?_modEq positive found, ?_⟩
        simpa only [powMod_eq, Nat.pow_eq, ← Nat.mul_mod, beq_iff_eq] using accepted
    next => cases accepted
  · rintro ⟨rPositive, rSmall, sPositive, sSmall, inverse, one, equation⟩
    obtain ⟨w, found⟩ := inverse?_isSome one
    have same : w ≡ inverse [MOD key.q] :=
      inverse_unique (mul_inverse?_modEq positive found) one
    have exponent (z : Nat) : z * w % key.q = z * inverse % key.q := same.mul_left z
    simp only [rPositive, rSmall, sPositive, sSmall, and_self, if_true, found,
      exponent, powMod_eq, Nat.pow_eq, ← Nat.mul_mod, equation, beq_self_eq_true]

theorem Scheme.seeded_follows : Scheme.seeded.Follows PublicKey.digestNumber where
  made := PrivateKey.signaturePair_ok
  accepts_iff := PublicKey.accepts_iff

/-- What is signed with a proper key is verified with its public key. -/
theorem PrivateKey.Proper.verify_sign {key : PrivateKey} (proper : key.Proper)
    {message signature : Octets} (signed : sign message key = .ok signature) :
    verify signature message key.publicKey = .ok () :=
  proper.verify_sign_of_follows Scheme.seeded_follows signed

/-! ## Keys of octets -/

theorem PrivateKey.ofOctets_ok {p q g y x : List UInt8} {key : PrivateKey}
    (accepted : PrivateKey.ofOctets p q g y x = .ok key) :
    key.publicKey.p = ofBigEndian p ∧ key.publicKey.q = ofBigEndian q ∧
      key.publicKey.g = ofBigEndian g ∧ key.publicKey.y = ofBigEndian y ∧
      key.x = ofBigEndian x := by
  obtain ⟨publicKey, made, accepted⟩ := bind_ok.mp accepted
  unfold PublicKey.ofNumbers at made
  split at made
  next =>
    obtain rfl := Except.ok.inj made
    split at accepted
    next =>
      obtain rfl := pure_ok.mp accepted
      exact ⟨rfl, rfl, rfl, rfl, rfl⟩
    next => cases accepted
  next => cases made

/-- What is signed with a key of five numbers in octets is verified with its public
part, if the order is prime, the generator has it, and the public value is the power
with the private exponent. It does not matter which nonce signs. -/
theorem verify_sign_ofOctets (follows : scheme.Follows number) {p q g y x : List UInt8}
    {key : PrivateKey} (accepted : PrivateKey.ofOctets p q g y x = .ok key)
    (prime : (ofBigEndian q).Prime)
    (order : ofBigEndian g ^ ofBigEndian q ≡ 1 [MOD ofBigEndian p])
    (value : ofBigEndian y ≡ ofBigEndian g ^ ofBigEndian x [MOD ofBigEndian p])
    {message signature : Octets} (signed : sign message key scheme = .ok signature) :
    verify signature message key.publicKey scheme = .ok () := by
  obtain ⟨pSame, qSame, gSame, ySame, xSame⟩ := PrivateKey.ofOctets_ok accepted
  rw [← pSame, ← gSame] at order value
  rw [← qSame] at prime order
  rw [← ySame, ← xSame] at value
  exact PrivateKey.Proper.verify_sign_of_follows ⟨prime, order, value⟩ follows signed

/-- Both numbers of this signature are shorter than the order. -/
theorem verify_sign_ofOctets_short :
    ∃ key, PrivateKey.ofOctets [0x0C, 0xC3, 0x95] [0xEF] [0xF8, 0xB5] [0x0C, 0x5B, 0x20] [0x87] =
        .ok key ∧
      sign #[14] key = .ok #[0, 7, 74, 0, 4, 9] ∧
      verify #[0, 7, 74, 0, 4, 9] #[14] key.publicKey = .ok () := by
  have made : (do
      let key ← PrivateKey.ofOctets [0x0C, 0xC3, 0x95] [0xEF] [0xF8, 0xB5] [0x0C, 0x5B, 0x20] [0x87]
      sign #[14] key) = .ok #[0, 7, 74, 0, 4, 9] := by
    decide +kernel
  obtain ⟨key, accepted, signed⟩ := bind_ok.mp made
  have prime : (ofBigEndian [0xEF]).Prime := by
    change Nat.Prime 239
    norm_num
  refine ⟨key, accepted, signed, ?_⟩
  exact verify_sign_ofOctets Scheme.seeded_follows accepted prime (by decide +kernel)
    (by decide +kernel) signed

end ZxMedia.Signing
