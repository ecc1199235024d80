import ZxMedia.Proofs.Scan
import ZxMedia.Signing.Mpi

/-!
# Integers as octets are read back

The octets of an integer are as many as its bits take, so no bit is lost, and the count
of the bits in front of them tells where they end. Only zero is not read back: it is
written as an octet, though it has no bits.
-/

namespace ZxMedia

/-- Each octet gives eight bits. -/
theorem LittleEndian.capacity_eq (width : Nat) : capacity width = 2 ^ (8 * width) := by
  induction width with
  | zero => rfl
  | succ width ih => rw [capacity, ih, Nat.mul_succ, Nat.pow_add, Nat.mul_comm]

namespace Signing

open LittleEndian (capacity decode encode)

variable {number : Nat} {octets : List UInt8}

theorem lt_two_pow_bitLength (number : Nat) : number < 2 ^ bitLength number := by
  unfold bitLength
  split
  next zero =>
    subst zero
    exact Nat.zero_lt_one
  next => exact Nat.lt_log2_self

theorem bitLength_pos (positive : 0 < number) : 0 < bitLength number := by
  unfold bitLength
  rw [if_neg (Nat.ne_of_gt positive)]
  exact Nat.succ_pos _

theorem length_bigEndian (positive : 0 < number) :
    (bigEndian number).length = (bitLength number + 7) / 8 := by
  have bits := bitLength_pos positive
  rw [bigEndian, List.length_reverse, LittleEndian.length_encode]
  omega

/-- The octets of a number hold all of its bits. -/
theorem ofBigEndian_bigEndian (number : Nat) :
    ofBigEndian (bigEndian number) = number := by
  unfold ofBigEndian bigEndian
  rw [List.reverse_reverse]
  apply LittleEndian.decode_encode
  rw [LittleEndian.capacity_eq]
  refine Nat.lt_of_lt_of_le (lt_two_pow_bitLength number) (Nat.pow_le_pow_right Nat.two_pos ?_)
  omega

/-- An integer that is written is read back, whatever follows it. -/
theorem decodeMpi?_encodeMpi (positive : 0 < number)
    (written : encodeMpi number = .ok octets)
    (rest : List UInt8) : decodeMpi? (octets ++ rest) = some (number, rest) := by
  unfold encodeMpi at written
  dsimp only at written
  split at written
  next few =>
    have count : decode (encode 2 (bitLength number)) = bitLength number :=
      LittleEndian.decode_encode few
    obtain ⟨low, high, halves⟩ : ∃ low high, encode 2 (bitLength number) = [low, high] :=
      ⟨_, _, rfl⟩
    have digits := Scan.split?_append (bigEndian number) rest
    rw [halves] at count
    rw [length_bigEndian positive] at digits
    obtain rfl := Except.ok.inj written
    simp only [halves, List.reverse_cons, List.reverse_nil,
      List.nil_append, List.cons_append,
      decodeMpi?, count, digits, ofBigEndian_bigEndian, if_true]
  next => cases written

end Signing

end ZxMedia
