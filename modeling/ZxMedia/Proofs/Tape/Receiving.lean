import Mathlib
import ZxMedia.Proofs.Tape.Recorder
import ZxMedia.Proofs.Tape.Signal

/-!
# Receiving a transfer

A recorder that receives a transfer takes in one pulse after another
(`Recorder.Receives`): a tone that is long enough, two synchronization pulses, and two
pulses for every bit. The pulses need not have the lengths of the machine's own routines
as long as they are in the ranges that the recorder allows. After whole octets the
recorder holds them and waits for the next one.
-/

namespace ZxMedia.Recorder

/-- The recorder takes in these pulses, and none of them ends the transfer. -/
inductive Receives : Recorder → List Nat → Recorder → Prop where
  | nil (recorder : Recorder) : Receives recorder [] recorder
  | cons {recorder middle after : Recorder} {tstates : Nat} {pulses : List Nat}
      (first : recorder.take tstates = .more middle) (later : Receives middle pulses after) :
      Receives recorder (tstates :: pulses) after

theorem Receives.append {recorder middle after : Recorder} {front back : List Nat}
    (first : recorder.Receives front middle) (later : middle.Receives back after) :
    recorder.Receives (front ++ back) after := by
  induction first with
  | nil => exact later
  | cons taken _ ih => exact .cons taken (ih later)

/-! ## Bits -/

/-- A pulse that a recorder takes for one half of a bit. -/
structure Codes (bit : Bool) (tstates : Nat) : Prop where
  inRange : isDataPulse tstates = true
  value : pulseBit tstates = bit.toUInt8

/-- Pulses that a recorder takes for bits, two for each of them. -/
inductive CodesAll : List Bool → List Nat → Prop where
  | nil : CodesAll [] []
  | cons {bit : Bool} {bits : List Bool} {first second : Nat} {pulses : List Nat}
      (one : Codes bit first) (two : Codes bit second) (rest : CodesAll bits pulses) :
      CodesAll (bit :: bits) (first :: second :: pulses)

theorem CodesAll.append_left {front back : List Bool} {pulses : List Nat}
    (coded : CodesAll (front ++ back) pulses) :
    ∃ first later, pulses = first ++ later ∧ CodesAll front first ∧
      CodesAll back later := by
  induction front generalizing pulses with
  | nil => exact ⟨[], pulses, rfl, .nil, coded⟩
  | cons bit front ih =>
      cases coded with
      | cons one two rest =>
          obtain ⟨first, later, rfl, coded, others⟩ := ih rest
          exact ⟨_, later, rfl, .cons one two coded, others⟩

/-- The bits of an octet with one more behind them. -/
def addBit (bits : UInt8) (bit : Bool) : UInt8 :=
  bits <<< 1 ||| bit.toUInt8

theorem addBit_mod (bits : UInt8) (bit : Bool) : addBit bits bit % 2 = bit.toUInt8 := by
  revert bits bit
  decide +kernel

/-- The bits of an octet, one behind the other, are the octet. -/
theorem foldl_addBit (octet : UInt8) : (octetBits 8 octet).foldl addBit 0 = octet := by
  revert octet
  decide +kernel

variable {data : Octets} {pause : UInt16} {bits : UInt8} {bit : Bool}
    {count tstates : Nat}
variable {ahead : List Bool} {pulses : List Nat}

theorem take_first (coded : Codes bit tstates) :
    take { state := .data bits (2 * count), data, pause } tstates =
      .more { state := .data (addBit bits bit) (2 * count + 1), data, pause } := by
  unfold take intake takeData
  simp [coded.inRange, coded.value, addBit]

theorem take_second (few : count < 7) (coded : Codes bit tstates) :
    take { state := .data (addBit bits bit) (2 * count + 1), data, pause } tstates =
      .more { state := .data (addBit bits bit) (2 * (count + 1)), data, pause } := by
  have odd : (2 * count + 1) % 2 = 1 := by omega
  have partly : ¬2 * count + 1 = 15 := by omega
  have small : ¬255 ≤ 2 * count + 1 := by omega
  have next : 2 * (count + 1) = 2 * count + 1 + 1 := by omega
  unfold take intake takeData
  simp [coded.inRange, coded.value, odd, partly, small, next, addBit_mod]

theorem take_sixteenth (coded : Codes bit tstates) :
    take { state := .data (addBit bits bit) 15, data, pause } tstates =
      .more { state := .data 0 0, data := data.push (addBit bits bit), pause } := by
  unfold take intake takeData
  simp [coded.inRange, coded.value, addBit_mod]

theorem receives_bits (coded : CodesAll ahead pulses) (few : count + ahead.length < 8) :
    Receives { state := .data bits (2 * count), data, pause } pulses
      { state := .data (ahead.foldl addBit bits) (2 * (count + ahead.length)), data, pause } := by
  induction coded generalizing bits count with
  | nil => exact .nil _
  | @cons bit ahead first second pulses one two rest ih =>
      rw [List.length_cons] at few ⊢
      have later := @ih (addBit bits bit) (count + 1) (by omega)
      rw [Nat.add_right_comm, Nat.add_assoc] at later
      exact .cons (take_first one) (.cons (take_second (by omega) two) later)

theorem receives_octet {octet : UInt8} (coded : CodesAll (octetBits 8 octet) pulses) :
    Receives { state := .data 0 0, data, pause } pulses
      { state := .data 0 0, data := data.push octet, pause } := by
  -- The eighth bit is a case of its own: its second pulse completes the octet.
  obtain ⟨front, bit, split, seven⟩ :
      ∃ front bit, octetBits 8 octet = front ++ [bit] ∧ front.length = 7 :=
    ⟨(octetBits 8 octet).take 7, _, rfl, rfl⟩
  have whole : addBit (front.foldl addBit 0) bit = octet := by
    have added := foldl_addBit octet
    rwa [split, List.foldl_append] at added
  rw [split] at coded
  obtain ⟨first, later, rfl, begun, ending⟩ := coded.append_left
  have partly := @receives_bits data pause 0 0 _ _ begun (by omega)
  rw [Nat.zero_add, seven] at partly
  cases ending with
  | cons one two rest =>
      cases rest
      have last := @take_sixteenth data pause (front.foldl addBit 0) bit _ two
      rw [whole] at last
      refine partly.append (.cons (take_first one) (.cons ?_ (.nil _)))
      rw [whole]
      exact last

theorem receives_octets {octets : List UInt8}
    (coded : CodesAll (octets.flatMap (octetBits 8)) pulses) :
    Receives { state := .data 0 0, data, pause } pulses
      { state := .data 0 0, data := data ++ octets.toArray, pause } := by
  induction octets generalizing data pulses with
  | nil =>
      cases coded
      exact Array.append_empty ▸ .nil _
  | cons octet octets ih =>
      obtain ⟨first, later, rfl, begun, rest⟩ := CodesAll.append_left coded
      have whole := (receives_octet begun).append (@ih (data.push octet) later rest)
      rw [List.toArray_cons, ← Array.append_assoc]
      exact whole

/-! ## The tone and the synchronization pulses -/

/-- A tone is counted up to the largest number there is. -/
theorem receives_tone {tone : List Nat}
    (lead : ∀ tstates ∈ tone, isLeadPulse tstates = true) :
    Receives { state := .lead (min count maxTstates), data, pause } tone
      { state := .lead (min (count + tone.length) maxTstates), data, pause } := by
  induction tone generalizing count with
  | nil => exact .nil _
  | cons tstates tone ih =>
      have first := lead tstates List.mem_cons_self
      have other : isSync1Pulse tstates = false := by
        simp only [isLeadPulse, Bool.and_eq_true, decide_eq_true_eq] at first
        simp only [isSync1Pulse, Bool.and_eq_false_iff, decide_eq_false_iff_not]
        omega
      have counted :
          addTstates (min count maxTstates) 1 = min (count + 1) maxTstates := by
        unfold addTstates
        omega
      have later := @ih (count + 1)
        fun tstates member => lead tstates (List.mem_cons_of_mem _ member)
      rw [List.length_cons, Nat.add_comm tone.length, ← Nat.add_assoc]
      refine .cons ?_ later
      unfold take intake takeSync
      simp [first, other, counted]

theorem take_opening (coded : Codes bit tstates) :
    take { state := .sync2, data, pause } tstates =
      take { state := .data 0 0, data := #[], pause } tstates := by
  rw [@take_first #[] pause 0 bit 0 tstates coded]
  have alone : addBit 0 bit = bit.toUInt8 := by cases bit <;> rfl
  unfold take intake takeSync
  simp [coded.inRange, coded.value, alone]

/-- Data is received from its first pulse on as if an octet had been begun. -/
theorem receives_opening {after : Recorder} (coded : CodesAll ahead pulses)
    (some : ahead ≠ [])
    (received : Receives { state := .data 0 0, data := #[], pause } pulses after) :
    Receives { state := .sync2, pause } pulses after := by
  cases coded with
  | nil => exact absurd rfl some
  | cons one two rest =>
      cases received with
      | cons first later => exact .cons ((take_opening one).trans first) later

/-- What opens a transfer: a tone of at least sixteen pulses and two synchronization
pulses. -/
theorem receives_lead {tone : List Nat} {sync1 sync2 : Nat}
    (lead : ∀ tstates ∈ tone, isLeadPulse tstates = true) (long : minLead ≤ tone.length)
    (isSync1 : isSync1Pulse sync1 = true) (isSync2 : isSync2Pulse sync2 = true) :
    Receives { pause } (tone ++ [sync1, sync2]) { state := .sync2, pause } := by
  have tuned : Receives { pause } tone { state := .lead (min tone.length maxTstates), pause } := by
    cases tone with
    | nil => cases long
    | cons first tone =>
        have begun : take { pause } first = .more { state := .lead (min 1 maxTstates), pause } := by
          unfold take intake takeSync
          simp [lead first List.mem_cons_self, maxTstates, UInt32.size]
        have later := @receives_tone #[] pause 1 tone
          fun tstates member => lead tstates (List.mem_cons_of_mem _ member)
        rw [List.length_cons, Nat.add_comm]
        exact .cons begun later
  have enough : minLead ≤ min tone.length maxTstates := by
    unfold minLead maxTstates UInt32.size at *
    omega
  have first : take { state := .lead (min tone.length maxTstates), pause } sync1 =
      .more { state := .sync1, pause } := by
    unfold take intake takeSync
    simp [enough, isSync1]
  have second :
      take { state := .sync1, pause } sync2 = .more { state := .sync2, pause } := by
    unfold take intake takeSync
    simp [isSync2]
  exact tuned.append (.cons first (.cons second (.nil _)))

/-- A transfer of whole octets: a tone of at least sixteen pulses, two synchronization
pulses and the octets. -/
theorem receives_transfer {tone : List Nat} {sync1 sync2 : Nat} {octets : List UInt8}
    (lead : ∀ tstates ∈ tone, isLeadPulse tstates = true) (long : minLead ≤ tone.length)
    (isSync1 : isSync1Pulse sync1 = true) (isSync2 : isSync2Pulse sync2 = true)
    (coded : CodesAll (octets.flatMap (octetBits 8)) pulses) (some : octets ≠ []) :
    Receives { pause } (tone ++ [sync1, sync2] ++ pulses)
      { state := .data 0 0, data := octets.toArray, pause } := by
  have received := @receives_octets #[] pause _ _ coded
  rw [Array.empty_append] at received
  have filled : octets.flatMap (octetBits 8) ≠ [] := by
    cases octets with
    | nil => exact absurd rfl some
    | cons octet octets => exact List.cons_ne_nil _ _
  exact (receives_lead lead long isSync1 isSync2).append (receives_opening coded filled received)

end ZxMedia.Recorder
