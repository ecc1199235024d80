/-!
# Arithmetic modulo a number

Powers by repeated squaring and inverses by the extended Euclidean algorithm.
`powMod_eq` and `bezout_spec` tie both to the plain operations.
-/

namespace ZxMedia.Signing

/-- The number of significant bits of a number. -/
def bitLength (number : Nat) : Nat :=
  if number = 0 then 0 else number.log2 + 1

/-- A power modulo a number, by repeated squaring. -/
def powMod (base exponent modulus : Nat) : Nat :=
  if exponent = 0 then 1 % modulus
  else
    let half := powMod (base * base % modulus) (exponent / 2) modulus
    if exponent % 2 = 1 then half * base % modulus else half
termination_by exponent
decreasing_by omega

theorem powMod_eq (base exponent modulus : Nat) :
    powMod base exponent modulus = base.pow exponent % modulus := by
  simp only [Nat.pow_eq]
  induction exponent using Nat.strongRecOn generalizing base with
  | _ exponent ih =>
    unfold powMod
    split
    · simp_all
    · next nonzero =>
      have square : base ^ (2 * (exponent / 2)) = (base * base) ^ (exponent / 2) := by
        rw [Nat.pow_mul, Nat.pow_two]
      simp only [ih (exponent / 2) (by omega), ← Nat.pow_mod]
      split
      · next odd =>
        have whole : exponent = 2 * (exponent / 2) + 1 := by omega
        conv => rhs; rw [whole, Nat.pow_succ, square]
        simp [Nat.mul_mod]
      · next even =>
        have whole : exponent = 2 * (exponent / 2) := by omega
        conv => rhs; rw [whole, square]

/-- Two factors whose combination of two numbers is their greatest common divisor. -/
def bezout (first second : Nat) : Int × Int :=
  if first = 0 then (0, 1)
  else
    let (s, t) := bezout (second % first) first
    (t - (second / first : Nat) * s, s)
termination_by first
decreasing_by exact Nat.mod_lt _ (by omega)

theorem bezout_spec (first second : Nat) :
    first * (bezout first second).1 + second * (bezout first second).2
      = (Nat.gcd first second : Int) := by
  induction first using Nat.strongRecOn generalizing second with
  | _ first ih =>
    unfold bezout
    split
    · next zero => simp [zero]
    · next nonzero =>
      have smaller := ih (second % first) (Nat.mod_lt _ (by omega)) first
      rw [Nat.gcd_rec first second, ← smaller]
      have split :
          (second : Int) = first * (second / first : Nat) + (second % first : Nat) := by
        exact_mod_cast (Nat.div_add_mod second first).symm
      simp only
      conv => lhs; rw [split]
      simp only [Int.mul_sub, Int.add_mul, Int.mul_assoc]
      omega

/-- The inverse of a number modulo another, if they have no common divisor. -/
def inverse? (number modulus : Nat) : Option Nat :=
  if Nat.gcd number modulus = 1 then
    some (((bezout number modulus).1 % modulus).toNat)
  else none

end ZxMedia.Signing
