import ZxMedia.Proofs.Tape.Recorder

/-!
# Recorders in any state

A recorder that came about by recording has received fewer than sixteen pulses of its
present octet. One that was restored may say that it has received more. As nothing but
its sixteenth pulse ends an octet, such a recorder counts pulses that fit until their
number outgrows its word.

So the recorders that answer every request are those inside an octet: `InOctet.askAll`
and `overflows_of_not_inOctet`. In any state the numbers stay in the range of their
words as long as a request is answered.
-/

namespace ZxMedia.Recorder

/-- Of the octet that is being received there are fewer than sixteen pulses. -/
def InOctet (recorder : Recorder) : Prop :=
  ∀ bits pulses, recorder.state = .data bits pulses → pulses ≤ 15

/-- The numbers of pulses are in the range of their words. -/
structure InWords (recorder : Recorder) : Prop where
  lead : ∀ count, recorder.state = .lead count → count < UInt32.size
  data : ∀ bits pulses, recorder.state = .data bits pulses → pulses < UInt8.size

/-- Something that is asked of a recorder. -/
inductive Request where
  | decode (pulses : List Nat)
  | finish

/-- The recorder after a request. -/
def ask (recorder : Recorder) : Request → Except Error Recorder
  | .decode pulses => do
    let (_, _, after) ← recorder.decode pulses
    return after
  | .finish => do
    let (_, after) ← recorder.finish
    return after

/-- The recorder after requests one after another. -/
def askAll (recorder : Recorder) (requests : List Request) : Except Error Recorder :=
  requests.foldlM ask recorder

variable {recorder after : Recorder} {tstates : Nat}

/-! ## Inside an octet -/

theorem isData_of_ne_data
    (other : ∀ bits pulses, recorder.state = .data bits pulses → False) :
    recorder.state.isData = false := by
  cases state : recorder.state with
  | data bits pulses => exact (other bits pulses state).elim
  | _ => rfl

/-- A recorder that waits for data counts a lead tone up to the largest duration, and
begins data with its first pulse. -/
theorem takeSync_counts (tstates : Nat) (waiting : recorder.state.isData = false) :
    (∀ count, (recorder.takeSync tstates).state = .lead count → count ≤ maxTstates) ∧
      ∀ bits pulses, (recorder.takeSync tstates).state = .data bits pulses →
        pulses = 1 := by
  unfold takeSync
  cases state : recorder.state with
  | idle =>
      dsimp only
      split
      · simp [maxTstates]
      · simp
  | lead count =>
      dsimp only
      split
      · simp
      · split
        · simp [addTstates]
        · simp
  | sync1 =>
      dsimp only
      split <;> simp
  | sync2 =>
      dsimp only
      split <;> simp
  | data bits pulses =>
      rw [state] at waiting
      cases waiting

theorem InOctet.intake (inside : recorder.InOctet) (tstates : Nat) :
    ∃ intake, recorder.intake tstates = .ok intake ∧
      ∀ after, intake = .more after → after.InOctet := by
  unfold Recorder.intake
  split
  next bits pulses state =>
    obtain ⟨intake, taken, keeps⟩ := takeData_ok (inside bits pulses state)
    exact ⟨intake, taken, fun after more => (keeps after more).inOctet⟩
  next other =>
    refine ⟨_, rfl, ?_⟩
    rintro _ ⟨⟩ bits pulses receiving
    rw [(takeSync_counts tstates (isData_of_ne_data other)).2 bits pulses receiving]
    decide

theorem inOctet_reset (recorder : Recorder) : recorder.reset.InOctet :=
  (sound_reset recorder).inOctet

theorem InOctet.decode (inside : recorder.InOctet) (pulses : List Nat) :
    ∃ block left after, recorder.decode pulses = .ok (block, left, after) ∧
      after.InOctet := by
  induction pulses generalizing recorder with
  | nil => exact ⟨none, [], recorder, rfl, inside⟩
  | cons tstates pulses ih =>
      obtain ⟨intake, taken, keeps⟩ := inside.intake tstates
      simp only [Recorder.decode, taken]
      cases intake with
      | more after => exact ih (keeps after rfl)
      | ends =>
          simp only [finish_of_inOctet inside]
          exact ⟨_, _, _, rfl, inOctet_reset recorder⟩

theorem InOctet.ask (inside : recorder.InOctet) (request : Request) :
    ∃ after, recorder.ask request = .ok after ∧ after.InOctet := by
  cases request with
  | decode pulses =>
      obtain ⟨_, _, after, decoded, keeps⟩ := inside.decode pulses
      refine ⟨after, ?_, keeps⟩
      rw [Recorder.ask, decoded]
      rfl
  | finish =>
      refine ⟨recorder.reset, ?_, inOctet_reset recorder⟩
      rw [Recorder.ask, finish_of_inOctet inside]
      rfl

theorem InOctet.askAll (inside : recorder.InOctet) (requests : List Request) :
    ∃ after, recorder.askAll requests = .ok after := by
  induction requests generalizing recorder with
  | nil => exact ⟨recorder, rfl⟩
  | cons request requests ih =>
      obtain ⟨next, asked, keeps⟩ := inside.ask request
      obtain ⟨after, rest⟩ := ih keeps
      refine ⟨after, ?_⟩
      rw [Recorder.askAll, List.foldlM_cons, asked]
      exact rest

/-! ## Beyond an octet -/

/-- A pulse of data that is like the first half of the bit received last. -/
def fittingPulse (bits : UInt8) : Nat :=
  if bits % 2 = 0 then 855 else 1710

theorem isDataPulse_fittingPulse (bits : UInt8) :
    isDataPulse (fittingPulse bits) = true := by
  unfold fittingPulse
  split <;> rfl

theorem pulseBit_fittingPulse (bits : UInt8) :
    pulseBit (fittingPulse bits) = bits % 2 := by
  have half : bits % 2 = 0 ∨ bits % 2 = 1 := by
    simp only [← UInt8.toNat_inj, UInt8.toNat_mod]
    exact Nat.mod_two_eq_zero_or_one bits.toNat
  unfold fittingPulse
  rcases half with even | odd
  · rw [even]
    rfl
  · rw [odd]
    rfl

/-- Beyond an octet a pulse that fits is only counted. -/
theorem takeData_fittingPulse (recorder : Recorder) (bits : UInt8) {pulses : Nat}
    (beyond : 15 < pulses) (short : pulses < 255) :
    ∃ register, recorder.takeData bits pulses (fittingPulse bits) =
      .ok (.more { recorder with state := .data register (pulses + 1) }) := by
  unfold takeData
  rw [isDataPulse_fittingPulse, pulseBit_fittingPulse]
  by_cases second : pulses % 2 = 1
  · have more : ¬pulses = 15 := by omega
    have small : ¬255 ≤ pulses := by omega
    exact ⟨bits, by simp [second, more, small]⟩
  · refine ⟨bits <<< 1 ||| bits % 2, ?_⟩
    simp [second]

theorem takeData_fittingPulse_last {bits : UInt8} :
    recorder.takeData bits 255 (fittingPulse bits) = .error .overflow := by
  unfold takeData
  rw [isDataPulse_fittingPulse, pulseBit_fittingPulse]
  simp

/-- A recorder beyond an octet fails at some request: it counts pulses that fit up to
the largest number. -/
theorem overflows_of_not_inOctet (words : recorder.InWords) (beyond : ¬recorder.InOctet) :
    ∃ requests, recorder.askAll requests = .error .overflow := by
  simp only [InOctet, not_forall, Nat.not_le] at beyond
  obtain ⟨bits, pulses, state, beyond⟩ := beyond
  have short : pulses ≤ 255 := Nat.le_of_lt_succ (words.data bits pulses state)
  obtain ⟨left, whole⟩ := Nat.exists_eq_add_of_le short
  suffices overflows : ∃ delivered, recorder.decode delivered = .error .overflow by
    obtain ⟨delivered, failed⟩ := overflows
    refine ⟨[.decode delivered], ?_⟩
    simp only [askAll, List.foldlM_cons, Recorder.ask, failed]
    rfl
  clear words
  induction left generalizing recorder bits pulses with
  | zero =>
      obtain rfl : pulses = 255 := by omega
      refine ⟨[fittingPulse bits], ?_⟩
      simp only [decode, Recorder.intake, state, takeData_fittingPulse_last]
  | succ left ih =>
      obtain ⟨register, taken⟩ := takeData_fittingPulse recorder bits beyond (by omega)
      obtain ⟨delivered, failed⟩ :=
        @ih { recorder with state := .data register (pulses + 1) }
        register (pulses + 1) rfl (by omega) (by omega) (by omega)
      refine ⟨fittingPulse bits :: delivered, ?_⟩
      simp only [decode, Recorder.intake, state, taken]
      exact failed

/-! ## Numbers in the range of their words -/

theorem inWords_reset (recorder : Recorder) : recorder.reset.InWords where
  lead _ state := by cases state
  data _ _ state := by cases state

theorem InWords.takeData {bits : UInt8} {pulses : Nat} (short : pulses < UInt8.size)
    (taken : recorder.takeData bits pulses tstates = .ok (.more after)) :
    after.InWords := by
  have counted {register : UInt8} {number : Nat} {data : Octets} (few : number < UInt8.size) :
      InWords { recorder with state := .data register number, data } := by
    constructor
    · intro _ state
      cases state
    · rintro _ _ ⟨⟩
      exact few
  unfold Recorder.takeData at taken
  split at taken
  next => cases taken
  next =>
    split at taken
    next second =>
      split at taken
      next => cases taken
      next =>
        split at taken
        next =>
          cases taken
          exact counted (Nat.zero_lt_succ _)
        next =>
          split at taken
          next => cases taken
          next small =>
            cases taken
            exact counted (Nat.succ_lt_succ (Nat.lt_of_not_le small))
    next first =>
      -- The largest number is odd, so there is one more behind an even one.
      cases taken
      apply counted
      change pulses < 256 at short
      change pulses + 1 < 256
      omega

theorem InWords.intake (words : recorder.InWords)
    (taken : recorder.intake tstates = .ok (.more after)) : after.InWords := by
  unfold Recorder.intake at taken
  split at taken
  next bits pulses state => exact .takeData (words.data bits pulses state) taken
  next other =>
    cases taken
    obtain ⟨lead, data⟩ := takeSync_counts tstates (isData_of_ne_data other)
    constructor
    · intro count state
      exact Nat.lt_of_le_of_lt (lead count state) (by decide)
    · intro bits pulses state
      rw [data bits pulses state]
      decide

theorem inWords_finish {block : Option Block}
    (finished : recorder.finish = .ok (block, after)) :
    after.InWords := by
  unfold finish at finished
  dsimp only at finished
  split at finished
  next => cases finished
  next =>
    cases finished
    exact inWords_reset recorder

theorem InWords.decode (words : recorder.InWords) {pulses left : List Nat}
    {block : Option Block}
    (decoded : recorder.decode pulses = .ok (block, left, after)) : after.InWords := by
  induction pulses generalizing recorder with
  | nil =>
      cases decoded
      exact words
  | cons tstates pulses ih =>
      simp only [Recorder.decode] at decoded
      split at decoded
      next => cases decoded
      next next taken => exact ih (words.intake taken) decoded
      next =>
        split at decoded
        next => cases decoded
        next finished =>
          cases decoded
          exact inWords_finish finished

theorem InWords.ask (words : recorder.InWords) {request : Request}
    (asked : recorder.ask request = .ok after) : after.InWords := by
  cases request with
  | decode pulses =>
      obtain ⟨⟨block, left, next⟩, decoded, same⟩ := bind_ok.mp asked
      cases same
      exact words.decode decoded
  | finish =>
      obtain ⟨⟨block, next⟩, finished, same⟩ := bind_ok.mp asked
      cases same
      exact inWords_finish finished

theorem InWords.askAll (words : recorder.InWords) {requests : List Request}
    (asked : recorder.askAll requests = .ok after) : after.InWords := by
  induction requests generalizing recorder with
  | nil =>
      cases asked
      exact words
  | cons request requests ih =>
      rw [Recorder.askAll, List.foldlM_cons] at asked
      obtain ⟨next, first, others⟩ := bind_ok.mp asked
      exact ih (words.ask first) others

end ZxMedia.Recorder
