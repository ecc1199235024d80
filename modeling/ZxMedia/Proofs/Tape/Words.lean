import ZxMedia.Proofs.Tape.Progress
import ZxMedia.Proofs.Tape.Signal

/-!
# Progress of blocks in the range of words

The numbers that say how far a block has been played are kept in machine words. A block
may be restored with any numbers that are in the range of their words, so that it need
not have been played as far as it says, nor as far as it can be.

Playing an interval of it keeps its numbers in the range of their words, as they are
counted no further than the items of the block, which memory can hold. There is one
exception: the bit that a run of samples begins at is not compared with the bits of an
octet before it is counted on from. Behind the run it is a bit of an octet again, see
`nextRun_cases`.
-/

namespace ZxMedia

/-- Memory can hold the block: an index counts its octets and its items, and a word of
32 bits its samples. -/
def Block.Fits : Block → Prop
  | .rom block => block.data.size < UInt64.size
  | .turbo block => block.data.size < UInt64.size
  | .pureData block => block.data.size < UInt64.size
  | .rawData block => block.data.size < 2 ^ 29
  | .pulses lengths => lengths.size < UInt64.size
  | .callSequence offsets => offsets.size < UInt64.size
  | _ => True

theorem lt_longWord {number : Nat} (short : number < UInt16.size) :
    number < UInt32.size :=
  Nat.lt_trans short (by decide)

/-! ## Coded data -/

/-- Lengths and numbers of pulses are words of 16 bits, and an index counts the
octets. -/
structure Coding.InWords (coding : Coding) : Prop where
  pilotLength : coding.pilotLength < UInt16.size
  sync1Length : coding.sync1Length < UInt16.size
  sync2Length : coding.sync2Length < UInt16.size
  bit0Length : coding.bit0Length < UInt16.size
  bit1Length : coding.bit1Length < UInt16.size
  pilotPulses : coding.pilotPulses < UInt16.size
  data : coding.data.size < UInt64.size

theorem RomBlock.coding_inWords {block : RomBlock} (fits : (Block.rom block).Fits) :
    block.coding.InWords where
  pilotLength := show 2168 < UInt16.size by decide
  sync1Length := show 667 < UInt16.size by decide
  sync2Length := show 735 < UInt16.size by decide
  bit0Length := show 855 < UInt16.size by decide
  bit1Length := show 1710 < UInt16.size by decide
  pilotPulses := by
    change block.pilotPulses < UInt16.size
    unfold pilotPulses
    split
    · split <;> decide
    · decide
  data := fits

theorem TurboBlock.coding_inWords {block : TurboBlock} (fits : (Block.turbo block).Fits) :
    block.coding.InWords where
  pilotLength := block.pilotLength.toNat_lt
  sync1Length := block.sync1Length.toNat_lt
  sync2Length := block.sync2Length.toNat_lt
  bit0Length := block.bit0Length.toNat_lt
  bit1Length := block.bit1Length.toNat_lt
  pilotPulses := block.pilotPulses.toNat_lt
  data := fits

theorem PureDataBlock.coding_inWords {block : PureDataBlock}
    (fits : (Block.pureData block).Fits) :
    block.coding.InWords where
  pilotLength := Nat.zero_lt_succ _
  sync1Length := Nat.zero_lt_succ _
  sync2Length := Nat.zero_lt_succ _
  bit0Length := block.bit0Length.toNat_lt
  bit1Length := block.bit1Length.toNat_lt
  pilotPulses := Nat.zero_lt_succ _
  data := fits

theorem PlaybackConfig.pauseTstates_lt (config : PlaybackConfig) (milliseconds : Nat) :
    config.pauseTstates milliseconds < UInt32.size :=
  Nat.lt_of_le_of_lt (config.pauseTstates_le milliseconds) (by decide)

theorem Step.tstates_pause_lt (milliseconds : UInt16) (config : PlaybackConfig) :
    (Step.pause milliseconds config).tstates < UInt32.size := by
  unfold pause
  split
  · exact Nat.zero_lt_succ _
  · exact config.pauseTstates_lt milliseconds.toNat

namespace DataState

/-- The numbers are in the range of their words. -/
structure InWords (state : DataState) : Prop where
  pulsesLeft : state.pulsesLeft < UInt16.size
  bytesBegun : state.bytesBegun < UInt64.size
  bitsLeft : state.bitsLeft < UInt8.size
  bitLength : state.bitLength < UInt16.size

variable {state : DataState} {coding : Coding}

/-- A bit is only taken from bits that are left. If there are none, an octet with at
least one is begun, or there is no such octet. -/
theorem nextBit_cases (state : DataState) (coding : Coding) :
    (coding.data.size ≤ state.bytesBegun ∧ state.nextBit coding = { state with phase := .pause }) ∨
    (∃ register bits, state.bytesBegun < coding.data.size ∧ 1 ≤ bits ∧ bits ≤ 8 ∧
      state.nextBit coding =
        shift { state with register, bytesBegun := state.bytesBegun + 1, bitsLeft := bits }
          coding) ∨
    (1 ≤ state.bitsLeft ∧ state.nextBit coding = state.shift coding) := by
  unfold nextBit
  by_cases none : state.bitsLeft = 0
  · rw [if_pos none]
    split
    next beyond => exact .inl ⟨Array.getElem?_eq_none_iff.mp beyond, rfl⟩
    next octet found =>
      obtain ⟨inside, -⟩ := Array.getElem?_eq_some_iff.mp found
      have last := lastBits_bounds coding.usedBits
      refine .inr (.inl ⟨octet, _, inside, ?_, ?_, rfl⟩)
      · split <;> omega
      · split <;> omega
  · rw [if_neg none]
    exact .inr (.inr ⟨Nat.pos_of_ne_zero none, rfl⟩)

theorem InWords.shift (words : state.InWords) (coded : coding.InWords) :
    (state.shift coding).InWords where
  pulsesLeft := words.pulsesLeft
  bytesBegun := words.bytesBegun
  bitsLeft := Nat.lt_of_le_of_lt (Nat.sub_le _ _) words.bitsLeft
  bitLength := by
    unfold DataState.shift
    dsimp only
    split
    · exact coded.bit1Length
    · exact coded.bit0Length

theorem InWords.nextBit (words : state.InWords) (coded : coding.InWords) :
    (state.nextBit coding).InWords := by
  rcases nextBit_cases state coding with
      ⟨-, next⟩ | ⟨register, bits, inside, -, few, next⟩ |
    ⟨-, next⟩
  · rw [next]
    exact ⟨words.pulsesLeft, words.bytesBegun, words.bitsLeft, words.bitLength⟩
  · rw [next]
    apply InWords.shift _ coded
    exact ⟨words.pulsesLeft, Nat.lt_of_le_of_lt inside coded.data,
      Nat.lt_of_le_of_lt few (by decide), words.bitLength⟩
  · rw [next]
    exact words.shift coded

theorem inWords_default : ({} : DataState).InWords :=
  ⟨Nat.zero_lt_succ _, Nat.zero_lt_succ _, Nat.zero_lt_succ _, Nat.zero_lt_succ _⟩

theorem inWords_start (coded : coding.InWords) : (start coding).InWords := by
  unfold start
  split
  · exact ⟨Nat.zero_lt_succ _, Nat.zero_lt_succ _, Nat.zero_lt_succ _, Nat.zero_lt_succ _⟩
  · exact ⟨coded.pilotPulses, Nat.zero_lt_succ _, Nat.zero_lt_succ _, Nat.zero_lt_succ _⟩

/-- Playing an interval keeps the numbers in the range of their words, and the interval
is in the range of its word. -/
theorem InWords.step (words : state.InWords) (coded : coding.InWords)
    (config : PlaybackConfig) :
    (state.step coding config).1.tstates < UInt32.size ∧
    (state.step coding config).2.InWords := by
  unfold DataState.step
  split
  next =>
    exact ⟨lt_longWord coded.pilotLength,
      Nat.lt_of_le_of_lt (Nat.sub_le _ _) words.pulsesLeft,
      words.bytesBegun, words.bitsLeft, words.bitLength⟩
  next =>
    exact ⟨lt_longWord coded.sync1Length, words.pulsesLeft,
      words.bytesBegun, words.bitsLeft, words.bitLength⟩
  next => exact ⟨lt_longWord coded.sync2Length, words.nextBit coded⟩
  next =>
    exact ⟨lt_longWord words.bitLength, words.pulsesLeft,
      words.bytesBegun, words.bitsLeft, words.bitLength⟩
  next => exact ⟨lt_longWord words.bitLength, words.nextBit coded⟩
  next => exact ⟨Step.tstates_pause_lt coding.pause config, words⟩

end DataState

/-! ## Sampled data -/

namespace RawState

variable {state : RawState} {block : RawDataBlock}

/-- The numbers are in the range of their words. -/
structure InWords (state : RawState) : Prop where
  byteIndex : state.byteIndex < UInt64.size
  bitIndex : state.bitIndex < UInt8.size
  runLength : state.runLength < UInt32.size

/-- The next run is the pause behind the data, or ends inside an octet, or nothing comes
of it. -/
theorem nextRun_cases (state : RawState) (block : RawDataBlock) :
    state.nextRun block = { state with phase := .pause } ∨
      ((state.nextRun block).byteIndex ≤ block.data.size ∧ (state.nextRun block).bitIndex < 8 ∧
        (state.nextRun block).runLength ≤ maxTstates) ∨
      state.byteIndex < block.data.size ∧ state.runAhead? block = none ∧
        state.nextRun block = state := by
  unfold nextRun
  split
  next => exact .inl rfl
  next within =>
    have inside := Nat.lt_of_not_le within
    split
    next nothing => exact .inr (.inr ⟨inside, nothing, rfl⟩)
    next run ahead =>
      obtain ⟨place, bit, -⟩ := RawDataBlock.run?_ends inside ahead
      exact .inr (.inl ⟨place, bit, Nat.min_le_right _ _⟩)

theorem InWords.nextRun (words : state.InWords) (fits : (Block.rawData block).Fits) :
    (state.nextRun block).InWords := by
  have short : block.data.size < 2 ^ 29 := fits
  rcases nextRun_cases state block with next | ⟨place, bit, length⟩ | ⟨-, -, same⟩
  · rw [next]
    exact ⟨words.byteIndex, words.bitIndex, words.runLength⟩
  · refine ⟨?_, Nat.lt_trans bit (by decide), Nat.lt_of_le_of_lt length (by decide)⟩
    exact Nat.lt_of_le_of_lt place (Nat.lt_trans short (by decide))
  · rwa [same]

theorem inWords_start (fits : (Block.rawData block).Fits) : (start block).InWords := by
  unfold start
  split
  · exact ⟨Nat.zero_lt_succ _, Nat.zero_lt_succ _, Nat.zero_lt_succ _⟩
  · exact InWords.nextRun ⟨Nat.zero_lt_succ _, Nat.zero_lt_succ _,
      Nat.zero_lt_succ _⟩ fits

theorem InWords.step (words : state.InWords) (fits : (Block.rawData block).Fits)
    (config : PlaybackConfig) :
    (state.step block config).1.tstates < UInt32.size ∧
    (state.step block config).2.InWords := by
  unfold RawState.step
  split
  next => exact ⟨words.runLength, words.nextRun fits⟩
  next => exact ⟨Step.tstates_pause_lt block.pause config, words⟩

theorem not_overflows_step (counted : state.overflows block = false)
    (config : PlaybackConfig) :
    (state.step block config).2.overflows block = false := by
  unfold RawState.step
  split
  next =>
    rcases nextRun_cases state block with next | ⟨-, bit, -⟩ | ⟨-, -, same⟩
    · simp [next, overflows]
    · exact not_overflows_of_bit bit
    · rw [same]
      exact counted
  next => exact counted

end RawState

/-! ## Tones and pulses -/

theorem stepTone_inWords (length : UInt16) {left : Nat} (short : left < UInt16.size) :
    (stepTone length left).1.tstates < UInt32.size ∧
    (stepTone length left).2 < UInt16.size := by
  unfold stepTone
  split
  next => exact ⟨Nat.zero_lt_succ _, Nat.zero_lt_succ _⟩
  next => exact ⟨lt_longWord length.toNat_lt, Nat.zero_lt_succ _⟩
  next => exact ⟨lt_longWord length.toNat_lt, Nat.lt_of_succ_lt short⟩

theorem stepPulses_inWords {lengths : Array UInt16} {index : Nat}
    (fits : (Block.pulses lengths).Fits) (short : index < UInt64.size) :
    (stepPulses lengths index).1.tstates < UInt32.size ∧
      (stepPulses lengths index).2 < UInt64.size := by
  unfold stepPulses
  split
  next => exact ⟨Nat.zero_lt_succ _, short⟩
  next length found =>
    obtain ⟨inside, -⟩ := Array.getElem?_eq_some_iff.mp found
    have next : index + 1 < UInt64.size := Nat.lt_of_le_of_lt inside fits
    split
    · exact ⟨lt_longWord length.toNat_lt, next⟩
    · exact ⟨lt_longWord length.toNat_lt, next⟩

/-! ## Blocks -/

namespace Track

/-- The numbers of the progress are in the range of their words. -/
def Counted : Track → Prop
  | ⟨.rom _, state⟩ => DataState.InWords state
  | ⟨.turbo _, state⟩ => DataState.InWords state
  | ⟨.pureData _, state⟩ => DataState.InWords state
  | ⟨.rawData _, state⟩ => RawState.InWords state
  | ⟨.pureTone _ _, left⟩ => @LT.lt Nat _ left UInt16.size
  | ⟨.pulses _, index⟩ => @LT.lt Nat _ index UInt64.size
  | _ => True

/-- Memory can hold the block, and the numbers of its progress are in the range of their
words. -/
structure InWords (track : Track) : Prop where
  fits : track.block.Fits
  counted : track.Counted

theorem inWords_cue {track : Track} (fits : track.block.Fits) : track.cue.InWords := by
  refine ⟨fits, ?_⟩
  obtain ⟨block, progress⟩ := track
  cases block with
  | rom block => exact DataState.inWords_start (RomBlock.coding_inWords fits)
  | turbo block => exact DataState.inWords_start (TurboBlock.coding_inWords fits)
  | pureData block =>
      exact DataState.inWords_default.nextBit (PureDataBlock.coding_inWords fits)
  | rawData block => exact RawState.inWords_start fits
  | pureTone length pulses => exact pulses.toNat_lt
  | pulses lengths => exact Nat.zero_lt_succ _
  | _ => trivial

/-- Playing an interval keeps the numbers of a block in the range of their words, and
the interval is in the range of its word. -/
theorem InWords.step {track : Track} (words : track.InWords) (config : PlaybackConfig) :
    (track.step config).1.tstates < UInt32.size ∧ (track.step config).2.InWords := by
  obtain ⟨block, progress⟩ := track
  obtain ⟨fits, counted⟩ := words
  cases block with
  | rom block =>
      obtain ⟨short, words⟩ :=
        DataState.InWords.step counted (RomBlock.coding_inWords fits) config
      exact ⟨short, fits, words⟩
  | turbo block =>
      obtain ⟨short, words⟩ :=
        DataState.InWords.step counted (TurboBlock.coding_inWords fits) config
      exact ⟨short, fits, words⟩
  | pureData block =>
      obtain ⟨short, words⟩ :=
        DataState.InWords.step counted (PureDataBlock.coding_inWords fits) config
      exact ⟨short, fits, words⟩
  | rawData block =>
      obtain ⟨short, words⟩ := RawState.InWords.step counted fits config
      exact ⟨short, fits, words⟩
  | pureTone length pulses =>
      obtain ⟨short, words⟩ := stepTone_inWords length counted
      exact ⟨short, trivial, words⟩
  | pulses lengths =>
      obtain ⟨short, words⟩ := stepPulses_inWords fits counted
      exact ⟨short, fits, words⟩
  | pause milliseconds =>
      refine ⟨?_, trivial, trivial⟩
      simp only [Track.step]
      split
      · exact Nat.zero_lt_succ _
      · exact config.pauseTstates_lt milliseconds.toNat
  | _ => exact ⟨Nat.zero_lt_succ _, fits, trivial⟩

/-- A block that can be played for an interval can be played for the next one. -/
theorem not_overflows_step {track : Track} (counted : track.overflows = false)
    (config : PlaybackConfig) : (track.step config).2.overflows = false := by
  obtain ⟨block, progress⟩ := track
  cases block with
  | rawData block => exact RawState.not_overflows_step counted config
  | _ => rfl

end Track

end ZxMedia
