import ZxMedia.Proofs.Signing.Mpi
import ZxMedia.Signing.Dsa

/-!
# One encoding for each integer

A frame of an integer is a count of bits and as many octets as these bits take. The
octets leave a choice of the count, as there may be bits without a one in front of the
number. Only the frame that counts the significant bits is read, so a pair of positive
integers has one stored form, the one that is written. A signature in any other frames,
or with anything behind them, is corrupt, whatever the key and the message are.
-/

namespace ZxMedia.Signing

open LittleEndian (capacity decode encode)

/-- The octets are a count of bits, the most significant octet first, and behind it the
number in as many octets as these bits take. -/
def Frames (count number : Nat) (octets : List UInt8) : Prop :=
  count < UInt16.size ∧ ∃ digits, digits.length = (count + 7) / 8 ∧ ofBigEndian digits = number ∧
    octets = (encode 2 count).reverse ++ digits

variable {count number : Nat} {octets first second rest : List UInt8}

/-! ## Reading -/

/-- Of a frame a number is read if the significant bits are counted. -/
theorem Frames.decodeMpi? (framed : Frames count number octets) (rest : List UInt8) :
    decodeMpi? (octets ++ rest) =
      if bitLength number = count then some (number, rest) else none := by
  obtain ⟨few, digits, long, same, rfl⟩ := framed
  have counted : decode (encode 2 count) = count := LittleEndian.decode_encode few
  obtain ⟨low, high, halves⟩ : ∃ low high, encode 2 count = [low, high] := ⟨_, _, rfl⟩
  have split := Scan.split?_append digits rest
  rw [halves] at counted
  rw [long] at split
  simp only [halves, List.reverse_cons, List.reverse_nil,
    List.nil_append, List.cons_append, Signing.decodeMpi?, counted, split, same]

/-- What is read is a frame that counts the significant bits. -/
theorem frames_of_decodeMpi? (read : decodeMpi? octets = some (number, rest)) :
    ∃ piece, Frames (bitLength number) number piece ∧ octets = piece ++ rest := by
  unfold decodeMpi? at read
  split at read
  next high low ahead =>
    dsimp only at read
    split at read
    next => cases read
    next digits behind split =>
      split at read
      next counted =>
        cases read
        obtain ⟨long, rfl⟩ := Scan.split?_some split
        have halves : encode 2 (bitLength (ofBigEndian digits)) = [low, high] := by
          rw [counted]
          exact LittleEndian.encode_decode [low, high]
        refine ⟨high :: low :: digits, ⟨?_, digits, ?_, rfl, ?_⟩, rfl⟩
        · rw [counted]
          exact LittleEndian.decode_lt [low, high]
        · rw [counted]
          exact long
        · rw [halves]
          rfl
      next => cases read
  next => cases read

/-! ## Writing -/

/-- Octets without a zero in front are those of the number that they denote. -/
theorem bigEndian_ofBigEndian {digits : List UInt8}
    (long : digits.length = (bitLength (ofBigEndian digits) + 7) / 8)
    (positive : 0 < ofBigEndian digits) : bigEndian (ofBigEndian digits) = digits := by
  have bits := bitLength_pos positive
  have width :
      max 1 ((bitLength (ofBigEndian digits) + 7) / 8) = digits.reverse.length := by
    rw [List.length_reverse, long]
    omega
  unfold bigEndian
  rw [width, ofBigEndian, LittleEndian.encode_decode, List.reverse_reverse]

/-- A positive integer is written in the frame that counts its significant bits. -/
theorem encodeMpi_ok_iff (positive : 0 < number) :
    encodeMpi number = .ok octets ↔ Frames (bitLength number) number octets := by
  unfold encodeMpi
  dsimp only
  constructor
  · intro written
    split at written
    next few =>
      cases written
      exact ⟨few, bigEndian number, length_bigEndian positive,
        ofBigEndian_bigEndian number, rfl⟩
    next => cases written
  · rintro ⟨few, digits, long, rfl, rfl⟩
    rw [if_pos few, bigEndian_ofBigEndian long positive]

/-- The count of a frame stands in its octets. -/
theorem Frames.count_unique {other : Nat} (framed : Frames count number octets)
    (again : Frames other number octets) : count = other := by
  obtain ⟨few, digits, -, -, rfl⟩ := framed
  obtain ⟨others, tail, -, -, same⟩ := again
  have heads := List.append_inj_left same (by simp only [List.length_reverse,
    LittleEndian.length_encode])
  have denoted := congrArg decode (List.reverse_inj.mp heads)
  rwa [LittleEndian.decode_encode few, LittleEndian.decode_encode others] at denoted

/-- A frame is the written one if it counts the significant bits. -/
theorem Frames.encodeMpi_ok_iff (framed : Frames count number octets)
    (positive : 0 < number) :
    encodeMpi number = .ok octets ↔ bitLength number = count := by
  rw [Signing.encodeMpi_ok_iff positive]
  constructor
  · exact fun written => written.count_unique framed
  · rintro rfl
    exact framed

theorem bitLength_lt_iff (positive : 0 < number) {bits : Nat} :
    bitLength number < bits + 1 ↔ number < 2 ^ bits := by
  unfold bitLength
  rw [if_neg (Nat.ne_of_gt positive), Nat.add_lt_add_iff_right]
  exact Nat.log2_lt (Nat.ne_of_gt positive)

/-- The positive integers that can be written are those of at most 65535 bits. -/
theorem exists_encodeMpi_iff (positive : 0 < number) :
    (∃ octets, encodeMpi number = .ok octets) ↔ number < 2 ^ 65535 := by
  rw [← bitLength_lt_iff positive]
  constructor
  · rintro ⟨octets, written⟩
    exact ((encodeMpi_ok_iff positive).mp written).1
  · intro few
    refine ⟨_, (encodeMpi_ok_iff positive).mpr ⟨few, bigEndian number, ?_, ?_, rfl⟩⟩
    · exact length_bigEndian positive
    · exact ofBigEndian_bigEndian number

theorem decodeMpi?_eq_some_iff (positive : 0 < number) :
    decodeMpi? octets = some (number, rest) ↔
      ∃ written, encodeMpi number = .ok written ∧ octets = written ++ rest := by
  constructor
  · intro read
    obtain ⟨piece, framed, same⟩ := frames_of_decodeMpi? read
    exact ⟨piece, (encodeMpi_ok_iff positive).mpr framed, same⟩
  · rintro ⟨written, done, rfl⟩
    exact decodeMpi?_encodeMpi positive done rest

/-! ## Signatures -/

/-- What is said of a signature made of two frames, whatever comes behind them. -/
theorem verify_frames {countR countS r s : Nat} {junk : List UInt8}
    (framedR : Frames countR r first) (framedS : Frames countS s second)
    {signature : Octets} (made : signature.toList = first ++ (second ++ junk))
    (message : Octets)
    (key : PublicKey) (scheme : Scheme) :
    verify signature message key scheme =
      if bitLength r ≠ countR then .error (.corrupt (.signatureInteger "r"))
      else if bitLength s ≠ countS then .error (.corrupt (.signatureInteger "s"))
      else if junk ≠ [] then .error (.corrupt (.signatureJunk junk.length))
      else if scheme.accepts key (Sha1.digest message.toList) r s then .ok ()
      else .error .signature := by
  unfold verify
  rw [made, framedR.decodeMpi?]
  by_cases countedR : bitLength r = countR
  · rw [if_pos countedR, if_neg (not_not.mpr countedR)]
    dsimp only
    rw [framedS.decodeMpi?]
    by_cases countedS : bitLength s = countS
    · rw [if_pos countedS, if_neg (not_not.mpr countedS)]
      cases junk with
      | nil => rfl
      | cons octet junk => rfl
    · rw [if_neg countedS, if_pos countedS]
  · rw [if_neg countedR, if_pos countedR]

/-- A pair of positive integers below the power of two with the exponent 65535 is
written, and it is read back, whatever follows it. Only what was written is read as the
pair. If a signature holds the pair in any other frames, or something follows them, it
is corrupt. -/
theorem pair_framed_once {r s : Nat} (positiveR : 0 < r) (positiveS : 0 < s) :
    (r < 2 ^ 65535 → s < 2 ^ 65535 → ∃ first second,
      encodeMpi r = .ok first ∧ encodeMpi s = .ok second ∧ ∀ rest,
        decodeMpi? (first ++ second ++ rest) = some (r, second ++ rest) ∧
        decodeMpi? (second ++ rest) = some (s, rest)) ∧
    (∀ octets behind rest,
      decodeMpi? octets = some (r, behind) → decodeMpi? behind = some (s, rest) →
      ∃ first second, encodeMpi r = .ok first ∧ encodeMpi s = .ok second ∧
        octets = first ++ second ++ rest) ∧
    ∀ countR countS first second junk, Frames countR r first → Frames countS s second →
      ∀ (signature message : Octets) (key : PublicKey) (scheme : Scheme),
        signature.toList = first ++ second ++ junk →
        ((∃ cause, verify signature message key scheme = .error (.corrupt cause)) ↔
          ¬(encodeMpi r = .ok first ∧ encodeMpi s = .ok second ∧ junk = [])) := by
  refine ⟨?_, ?_, ?_⟩
  · intro smallR smallS
    obtain ⟨first, writtenR⟩ := (exists_encodeMpi_iff positiveR).mpr smallR
    obtain ⟨second, writtenS⟩ := (exists_encodeMpi_iff positiveS).mpr smallS
    refine ⟨first, second, writtenR, writtenS, fun rest => ⟨?_, ?_⟩⟩
    · rw [List.append_assoc]
      exact decodeMpi?_encodeMpi positiveR writtenR _
    · exact decodeMpi?_encodeMpi positiveS writtenS rest
  · intro octets behind rest readR readS
    obtain ⟨first, writtenR, rfl⟩ := (decodeMpi?_eq_some_iff positiveR).mp readR
    obtain ⟨second, writtenS, rfl⟩ := (decodeMpi?_eq_some_iff positiveS).mp readS
    exact ⟨first, second, writtenR, writtenS, (List.append_assoc first second rest).symm⟩
  · intro countR countS first second junk framedR framedS signature message key scheme made
    rw [List.append_assoc] at made
    rw [verify_frames framedR framedS made, framedR.encodeMpi_ok_iff positiveR,
      framedS.encodeMpi_ok_iff positiveS]
    by_cases whole : bitLength r = countR ∧ bitLength s = countS ∧ junk = []
    · obtain ⟨countedR, countedS, alone⟩ := whole
      simp only [countedR, countedS, alone, ne_eq, not_true_eq_false, if_false,
        and_self, iff_false]
      rintro ⟨cause, corrupt⟩
      split at corrupt <;> cases corrupt
    · simp only [whole, not_false_eq_true, iff_true]
      split
      next => exact ⟨_, rfl⟩
      next countedR =>
        split
        next => exact ⟨_, rfl⟩
        next countedS =>
          split
          next => exact ⟨_, rfl⟩
          next alone =>
            exact absurd ⟨not_not.mp countedR, not_not.mp countedS, not_not.mp alone⟩ whole

/-- The integer 255 fills an octet and 511 takes a bit of another one. The pair is read
in its written form, and is corrupt if a bit more is counted of the first integer. -/
theorem pair_framed_once_wholeOctet :
    decodeMpi? [0, 8, 255, 0, 9, 1, 255, 7] = some (255, [0, 9, 1, 255, 7]) ∧
    (∃ first second, encodeMpi 255 = .ok first ∧ encodeMpi 511 = .ok second ∧
      [0, 8, 255, 0, 9, 1, 255, 7] = first ++ second ++ [7]) ∧
    ∀ (message : Octets) (key : PublicKey) (scheme : Scheme),
      ∃ cause, verify #[0, 9, 0, 255, 0, 9, 1, 255] message key scheme =
        .error (.corrupt cause) := by
  have positiveR : 0 < 255 := by decide
  have positiveS : 0 < 511 := by decide
  have writtenR : encodeMpi 255 = .ok [0, 8, 255] := by decide +kernel
  have writtenS : encodeMpi 511 = .ok [0, 9, 1, 255] := by decide +kernel
  have framedR : Frames 9 255 [0, 9, 0, 255] := ⟨by decide, [0, 255], by decide⟩
  have framedS : Frames 9 511 [0, 9, 1, 255] := ⟨by decide, [1, 255], by decide⟩
  obtain ⟨writes, reads, corrupts⟩ := pair_framed_once positiveR positiveS
  have smallR := (exists_encodeMpi_iff positiveR).mp ⟨_, writtenR⟩
  have smallS := (exists_encodeMpi_iff positiveS).mp ⟨_, writtenS⟩
  obtain ⟨first, second, sameR, sameS, isRead⟩ := writes smallR smallS
  obtain rfl : [0, 8, 255] = first := Except.ok.inj (writtenR.symm.trans sameR)
  obtain rfl : [0, 9, 1, 255] = second := Except.ok.inj (writtenS.symm.trans sameS)
  obtain ⟨readR, readS⟩ := isRead [7]
  refine ⟨readR, reads _ _ _ readR readS, ?_⟩
  intro message key scheme
  apply (corrupts 9 9 _ _ [] framedR framedS _ message key scheme rfl).mpr
  rintro ⟨other, -⟩
  rw [writtenR] at other
  cases other

end ZxMedia.Signing
