import Mathlib
import ZxMedia.Tape.Signal

/-!
# Steps of blocks

A block that is played gives steps of which the last one ends it (`Track.Plays`). For
coded data the pulses that are left before the pause can be told from the state:
`DataState.remaining` takes the pilot tone, the synchronization pulses and the bits that
are still ahead together, and every step takes its first one away.
-/

namespace ZxMedia

/-- The block gives these steps one after another, and it ends with the last one. -/
inductive Track.Plays (config : PlaybackConfig) : Track → List Step → Track → Prop where
  | last {track after : Track} {step : Step} (played : track.step config = (step, after))
      (ends : step.ends = true) : Plays config track [step] after
  | more {track middle after : Track} {step : Step} {steps : List Step}
      (played : track.step config = (step, middle)) (goesOn : step.ends = false)
      (later : Plays config middle steps after) : Plays config track (step :: steps) after

/-! ## Bits of data -/

/-- The highest bits of an octet, the highest one first. -/
def octetBits (count : Nat) (octet : UInt8) : List Bool :=
  (List.range count).map fun place => octet.toNat.testBit (7 - place)

/-- The bits of octets, of the last of which so many are used. -/
def dataBits (used : Nat) : List UInt8 → List Bool
  | [] => []
  | octet :: octets =>
    octetBits (if octets.isEmpty then used else 8) octet ++ dataBits used octets

/-- The bits that leave a register when it is shifted to the left. -/
def shiftedBits : Nat → UInt8 → List Bool
  | 0, _ => []
  | count + 1, register => decide (0x80 ≤ register) :: shiftedBits count (register <<< 1)

/-- A shift to the left moves every bit one place up, and the highest one out. -/
theorem octetBits_succ {count : Nat} (few : count < 8) (octet : UInt8) :
    octetBits (count + 1) octet =
      decide (0x80 ≤ octet) :: octetBits count (octet <<< 1) := by
  have highest : octet.toNat.testBit 7 = decide (0x80 ≤ octet) := by
    revert octet
    decide +kernel
  have moved : ∀ place < count,
      octet.toNat.testBit (7 - (place + 1)) = (octet <<< 1).toNat.testBit (7 - place) := by
    intro place inside
    have high : 1 ≤ 7 - place := by omega
    have low : 7 - place < 8 := by omega
    rw [UInt8.toNat_shiftLeft, Nat.testBit_mod_two_pow]
    simp [Nat.testBit_shiftLeft, high, low, Nat.sub_sub]
  rw [octetBits, List.range_succ_eq_map, List.map_cons, List.map_map]
  exact congrArg₂ List.cons highest
    (List.map_congr_left fun place inside => moved place (List.mem_range.mp inside))

theorem shiftedBits_eq_octetBits {count : Nat} (few : count ≤ 8) (octet : UInt8) :
    shiftedBits count octet = octetBits count octet := by
  induction count generalizing octet with
  | zero => rfl
  | succ count ih => rw [octetBits_succ few, shiftedBits, ih (Nat.le_of_succ_le few)]

theorem lastBits_bounds (usedBits : UInt8) :
    1 ≤ lastBits usedBits ∧ lastBits usedBits ≤ 8 := by
  revert usedBits
  decide +kernel

/-! ## Coded data -/

namespace Coding

/-- The bits of coded data. -/
def bits (coding : Coding) : List Bool :=
  dataBits (lastBits coding.usedBits) coding.data.toList

/-- The length of both pulses of a bit. -/
def bitLength (coding : Coding) (bit : Bool) : Nat :=
  if bit then coding.bit1Length else coding.bit0Length

/-- The pulses of bits. -/
def bitPulses (coding : Coding) (bits : List Bool) : List Nat :=
  bits.flatMap fun bit => [coding.bitLength bit, coding.bitLength bit]

/-- The pulses of coded data. -/
def pulses (coding : Coding) : List Nat :=
  List.replicate coding.pilotPulses coding.pilotLength ++
    [coding.sync1Length, coding.sync2Length] ++ coding.bitPulses coding.bits

/-- The steps of some pulses with the pause after them. -/
def stepsOf (coding : Coding) (config : PlaybackConfig) (pulses : List Nat) : List Step :=
  pulses.map .pulse ++ [.pause coding.pause config]

end Coding

namespace DataState

/-- The bits that are still to be begun. -/
def bitsAhead (state : DataState) (coding : Coding) : List Bool :=
  shiftedBits state.bitsLeft state.register ++
    dataBits (lastBits coding.usedBits) (coding.data.toList.drop state.bytesBegun)

/-- The pulses that are still to be played before the pause. -/
def remaining (state : DataState) (coding : Coding) : List Nat :=
  let data := coding.bitPulses (state.bitsAhead coding)
  match state.phase with
  | .pilot =>
    -- A pulse is played in this phase even if none is left.
    List.replicate (max 1 state.pulsesLeft) coding.pilotLength ++
      [coding.sync1Length, coding.sync2Length] ++ data
  | .sync1 => [coding.sync1Length, coding.sync2Length] ++ data
  | .sync2 => [coding.sync2Length] ++ data
  | .data1 => [state.bitLength, state.bitLength] ++ data
  | .data2 => [state.bitLength] ++ data
  | .pause => []

variable {coding : Coding} {config : PlaybackConfig} {state : DataState}

theorem remaining_shift {count : Nat} (left : state.bitsLeft = count + 1) :
    (state.shift coding).remaining coding =
      coding.bitPulses (state.bitsAhead coding) := by
  simp [remaining, shift, bitsAhead, left, shiftedBits,
    Coding.bitPulses, Coding.bitLength]

/-- The bits that are ahead when an octet is over begin with the next octet. -/
theorem bitsAhead_of_none_left {octet : UInt8} (none : state.bitsLeft = 0)
    (next : coding.data[state.bytesBegun]? = some octet) :
    state.bitsAhead coding =
      octetBits (if state.bytesBegun + 1 = coding.data.size then lastBits coding.usedBits else 8)
          octet ++
        dataBits (lastBits coding.usedBits) (coding.data.toList.drop (state.bytesBegun + 1)) := by
  obtain ⟨inside, same⟩ := Array.getElem?_eq_some_iff.mp next
  have whole : coding.data.toList.drop state.bytesBegun =
      octet :: coding.data.toList.drop (state.bytesBegun + 1) := by
    rw [List.drop_eq_getElem_cons (by simpa using inside)]
    simp [same]
  have last : (coding.data.toList.drop (state.bytesBegun + 1)).isEmpty =
      decide (state.bytesBegun + 1 = coding.data.size) := by
    rw [Bool.eq_iff_iff, List.isEmpty_iff, List.drop_eq_nil_iff, decide_eq_true_eq,
      Array.length_toList]
    omega
  simp only [bitsAhead, none, shiftedBits, List.nil_append, whole, dataBits, last,
    decide_eq_true_eq]

/-- Moving to the next bit begins the first bit that is ahead, or the pause. -/
theorem remaining_nextBit (state : DataState) (coding : Coding) :
    (state.nextBit coding).remaining coding =
      coding.bitPulses (state.bitsAhead coding) := by
  unfold nextBit
  by_cases none : state.bitsLeft = 0
  · rw [if_pos none]
    split
    next beyond =>
      have empty : coding.data.toList.drop state.bytesBegun = [] := by
        simpa using Array.getElem?_eq_none_iff.mp beyond
      simp [remaining, bitsAhead, none, shiftedBits, empty, dataBits, Coding.bitPulses]
    next octet next =>
      rw [bitsAhead_of_none_left none next]
      dsimp only
      generalize bits : (if state.bytesBegun + 1 = coding.data.size then lastBits coding.usedBits
        else 8) = count
      have few : 1 ≤ count ∧ count ≤ 8 := by
        have bounds := lastBits_bounds coding.usedBits
        subst bits
        split <;> omega
      rw [remaining_shift (Nat.succ_pred_eq_of_pos few.1).symm, bitsAhead,
        shiftedBits_eq_octetBits few.2]
  · rw [if_neg none, remaining_shift (Nat.succ_pred_eq_of_pos (Nat.pos_of_ne_zero none)).symm]

/-- Every step takes away the first one of the pulses that remain, and the pause is
played when none are left. -/
theorem step_remaining (state : DataState) (coding : Coding) (config : PlaybackConfig) :
    state.remaining coding = [] ∧
        (state.step coding config).1 = .pause coding.pause config ∨
      ∃ tstates, (state.step coding config).1 = .pulse tstates ∧
        state.remaining coding =
          tstates :: (state.step coding config).2.remaining coding := by
  cases phase : state.phase with
  | pause =>
      left
      simp [step, remaining, phase]
  | pilot =>
      right
      by_cases last : state.pulsesLeft - 1 = 0
      · have one : max 1 state.pulsesLeft = 1 := by omega
        simp [step, remaining, phase, last, one, bitsAhead]
      · have many : max 1 state.pulsesLeft = max 1 (state.pulsesLeft - 1) + 1 := by omega
        simp [step, remaining, phase, last, many, bitsAhead, List.replicate_succ]
  | sync1 =>
      right
      simp [step, remaining, phase, bitsAhead]
  | sync2 =>
      right
      simp only [step, phase, remaining_nextBit]
      exact ⟨_, rfl, by simp [remaining, phase]⟩
  | data1 =>
      right
      simp [step, remaining, phase, bitsAhead]
  | data2 =>
      right
      simp only [step, phase, remaining_nextBit]
      exact ⟨_, rfl, by simp [remaining, phase]⟩

theorem remaining_start (coding : Coding) :
    (start coding).remaining coding = coding.pulses := by
  unfold start
  split
  next none => simp [remaining, Coding.pulses, none, bitsAhead, shiftedBits, Coding.bits]
  next some =>
    have many : max 1 coding.pilotPulses = coding.pilotPulses := by omega
    simp [remaining, Coding.pulses, many, bitsAhead, shiftedBits, Coding.bits]

theorem remaining_startData (coding : Coding) :
    (startData coding).remaining coding = coding.bitPulses coding.bits := by
  rw [startData, remaining_nextBit]
  simp [bitsAhead, shiftedBits, Coding.bits]

end DataState

theorem Step.ends_pause (milliseconds : UInt16) (config : PlaybackConfig) :
    (pause milliseconds config).ends = true := by
  unfold pause
  split <;> rfl

/-- A block plays the pulses that remain and a pause if every step takes away the first
one of them, and the pause is played when none are left. -/
theorem Track.plays_of_remaining {State : Type} {config : PlaybackConfig}
    {milliseconds : UInt16}
    {Valid : State → Prop} (track : State → Track) (remaining : State → List Nat)
    (advance : ∀ state, Valid state →
      (remaining state = [] ∧
        ∃ last, (track state).step config = (.pause milliseconds config, track last)) ∨
      ∃ tstates next, (track state).step config = (.pulse tstates, track next) ∧
        Valid next ∧
        remaining state = tstates :: remaining next)
    (state : State) (valid : Valid state) :
    ∃ last, (track state).Plays config
      ((remaining state).map .pulse ++ [.pause milliseconds config]) (track last) := by
  generalize left : remaining state = pulses
  induction pulses generalizing state with
  | nil =>
      rcases advance state valid with ⟨-, last, pause⟩ | ⟨tstates, next, -, -, same⟩
      · exact ⟨last, .last pause (Step.ends_pause milliseconds config)⟩
      · rw [left] at same
        cases same
  | cons tstates pulses ih =>
      rcases advance state valid with ⟨same, -⟩ | ⟨tstates, next, pulse, valid, same⟩
      · rw [left] at same
        cases same
      · rw [left] at same
        cases same
        obtain ⟨last, later⟩ := ih next valid rfl
        exact ⟨last, .more pulse rfl later⟩

/-- A block of coded data plays the pulses that remain and the pause, whatever kind of
block it is. -/
theorem Track.plays_remaining {coding : Coding} {config : PlaybackConfig}
    (track : DataState → Track)
    (coded : ∀ state, (track state).step config =
      ((state.step coding config).1, track (state.step coding config).2)) (state : DataState) :
    ∃ last, (track state).Plays config (coding.stepsOf config (state.remaining coding))
      (track last) := by
  refine @plays_of_remaining DataState config coding.pause (fun _ => True) track
    (fun state => state.remaining coding) ?_ state trivial
  intro state _
  have played := coded state
  rcases state.step_remaining coding config with ⟨same, pause⟩ | ⟨tstates, pulse, same⟩
  · rw [pause] at played
    exact .inl ⟨same, _, played⟩
  · rw [pulse] at played
    exact .inr ⟨tstates, _, played, trivial, same⟩

/-- The timing of a block of coded data, and the pulses before its pause. -/
def Block.signal? : Block → Option (Coding × List Nat)
  | rom block => some (block.coding, block.coding.pulses)
  | turbo block => some (block.coding, block.coding.pulses)
  | pureData block => some (block.coding, block.coding.bitPulses block.coding.bits)
  | _ => none

theorem Track.plays_cue {block : Block} {coding : Coding} {pulses : List Nat}
    (coded : block.signal? = some (coding, pulses)) (config : PlaybackConfig) :
    ∃ last : Track, last.block = block ∧
      Plays config (ofBlock block).cue (coding.stepsOf config pulses) last := by
  cases block with
  | rom block =>
      cases coded
      obtain ⟨last, plays⟩ := @plays_remaining block.coding config
        (fun state => ⟨.rom block, state⟩) (fun _ => rfl) (DataState.start block.coding)
      rw [DataState.remaining_start] at plays
      exact ⟨_, rfl, plays⟩
  | turbo block =>
      cases coded
      obtain ⟨last, plays⟩ := @plays_remaining block.coding config
        (fun state => ⟨.turbo block, state⟩) (fun _ => rfl) (DataState.start block.coding)
      rw [DataState.remaining_start] at plays
      exact ⟨_, rfl, plays⟩
  | pureData block =>
      cases coded
      obtain ⟨last, plays⟩ := @plays_remaining block.coding config
        (fun state => ⟨.pureData block, state⟩) (fun _ => rfl) (DataState.startData block.coding)
      rw [DataState.remaining_startData] at plays
      exact ⟨_, rfl, plays⟩
  | _ => cases coded

end ZxMedia
