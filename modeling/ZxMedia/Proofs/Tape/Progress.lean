import ZxMedia.Proofs.Tape.Operation

/-!
# Progress of blocks

How far a block has been played is a value of its own for each kind of block. A block
that was made ready is `Playable`, and it stays so while it is played: no number in its
progress outgrows its word, whatever the progress was before.
-/

namespace ZxMedia

/-! ## Runs of samples -/

namespace RawDataBlock

variable {block : RawDataBlock}

theorem bitsIn_le (block : RawDataBlock) (index : Nat) : block.bitsIn index ≤ 8 := by
  unfold bitsIn lastBits
  split
  · split
    next used => simpa [UInt8.le_iff_toNat_le] using used.2
    next => exact Nat.le_refl 8
  · exact Nat.le_refl 8

theorem after_bit_lt (block : RawDataBlock) (byteIndex bitIndex : Nat) :
    (block.after byteIndex bitIndex).2 < 8 := by
  have bound := block.bitsIn_le byteIndex
  unfold after
  split
  · exact Nat.zero_lt_succ 7
  · dsimp only
    omega

theorem succ_bit_lt {bitIndex : Nat} (inside : bitIndex < 8) :
    bitIndex + 1 < UInt8.size :=
  Nat.lt_trans (Nat.succ_lt_succ inside) (by decide)

theorem after_byte_le {byteIndex : Nat} (inside : byteIndex < block.data.size)
    (bitIndex : Nat) :
    (block.after byteIndex bitIndex).1 ≤ block.data.size := by
  unfold after
  split
  · exact inside
  · exact Nat.le_of_lt inside

theorem exists_sampleAt? {byteIndex bitIndex : Nat} (byte : byteIndex < block.data.size)
    (bit : bitIndex < 8) :
    ∃ sample, block.sampleAt? byteIndex bitIndex = some sample := by
  simp [sampleAt?, bit, byte]

variable {level : Bool} {steps byteIndex bitIndex count : Nat} {run : SampleRun}

/-- A run ends at the place after its first sample, or goes on from there. -/
theorem run?_some (counted : block.run? level steps byteIndex bitIndex count = some run) :
    ∃ left, steps = left + 1 ∧
      (run = ⟨count + 1, (block.after byteIndex bitIndex).1, (block.after byteIndex bitIndex).2⟩ ∨
        (block.after byteIndex bitIndex).1 ≠ block.data.size ∧
          block.run? level left (block.after byteIndex bitIndex).1
            (block.after byteIndex bitIndex).2 (count + 1) = some run) := by
  cases steps with
  | zero => cases counted
  | succ left =>
      refine ⟨left, rfl, ?_⟩
      simp only [run?] at counted
      split at counted
      next => cases counted
      next =>
        split at counted
        next => exact .inl (Option.some.inj counted).symm
        next more =>
          split at counted
          next => cases counted
          next =>
            split at counted
            next => exact .inr ⟨more, counted⟩
            next => exact .inl (Option.some.inj counted).symm

/-- A run ends at a sample or behind the last one, and it has no more samples than
steps. -/
theorem run?_ends (inside : byteIndex < block.data.size)
    (counted : block.run? level steps byteIndex bitIndex count = some run) :
    run.byteIndex ≤ block.data.size ∧ run.bitIndex < 8 ∧ run.count ≤ count + steps := by
  induction steps generalizing byteIndex bitIndex count with
  | zero => cases counted
  | succ steps ih =>
      have next := block.after_byte_le inside bitIndex
      obtain ⟨_, ⟨⟩, rfl | ⟨more, others⟩⟩ := run?_some counted
      · exact ⟨next, block.after_bit_lt byteIndex bitIndex, by dsimp only; omega⟩
      · obtain ⟨byte, bit, few⟩ := ih (Nat.lt_of_le_of_ne next more) others
        exact ⟨byte, bit, by omega⟩

/-- A run that begins at a bit that can be counted ends. Behind the first sample its
bits are those of an octet, so there is a step for each. -/
theorem exists_run? (inside : byteIndex < block.data.size)
    (few : bitIndex + 1 < UInt8.size)
    (enough : 8 * block.data.size ≤ 8 * byteIndex + min bitIndex 7 + steps)
    (count : Nat) :
    ∃ run, block.run? level steps byteIndex bitIndex count = some run := by
  induction steps generalizing byteIndex bitIndex count with
  | zero => omega
  | succ steps ih =>
      simp only [run?, if_neg (Nat.not_le.mpr few)]
      have bit := block.after_bit_lt byteIndex bitIndex
      have next := block.after_byte_le inside bitIndex
      split
      · exact ⟨_, rfl⟩
      next more =>
        have within := Nat.lt_of_le_of_ne next more
        obtain ⟨sample, there⟩ := exists_sampleAt? within bit
        simp only [there]
        split
        · apply ih within (succ_bit_lt bit)
          have bound := block.bitsIn_le byteIndex
          unfold after at bit ⊢
          split <;> dsimp only <;> omega
        · exact ⟨_, rfl⟩

end RawDataBlock

namespace RawState

variable {state : RawState} {block : RawDataBlock}

/-- The next run is counted in a word, and it ends at a sample or behind the last
one. -/
def RunsInside (state : RawState) (block : RawDataBlock) : Prop :=
  ∃ run, state.runAhead? block = some run ∧ run.count < UInt32.size ∧
    run.byteIndex ≤ block.data.size ∧ run.bitIndex < 8

theorem exists_runAhead? (inside : state.byteIndex < block.data.size)
    (few : state.bitIndex + 1 < UInt8.size) : ∃ run, state.runAhead? block = some run :=
  RawDataBlock.exists_run? inside few (by omega) 0

theorem runsInside (fits : (Block.rawData block).SamplesFit)
    (inside : state.byteIndex < block.data.size) (few : state.bitIndex + 1 < UInt8.size) :
    state.RunsInside block := by
  have short : block.data.size < 2 ^ 29 := fits
  obtain ⟨run, ahead⟩ := exists_runAhead? inside few
  obtain ⟨byte, bit, counted⟩ := RawDataBlock.run?_ends inside ahead
  refine ⟨run, ahead, ?_, byte, bit⟩
  unfold UInt32.size
  omega

/-- Only a number that outgrows its word makes a run go wrong: no sample is asked for
that is not there. -/
theorem overflows_iff : state.overflows block = true ↔
    state.phase = .data ∧ state.byteIndex < block.data.size ∧
    UInt8.size ≤ state.bitIndex + 1 := by
  unfold overflows
  constructor
  · intro wrong
    simp only [Bool.and_eq_true, beq_iff_eq, decide_eq_true_eq,
      Option.isNone_iff_eq_none] at wrong
    obtain ⟨⟨data, inside⟩, nothing⟩ := wrong
    refine ⟨data, inside, Nat.not_lt.mp fun few => ?_⟩
    obtain ⟨run, ahead⟩ := exists_runAhead? inside few
    rw [ahead] at nothing
    cases nothing
  · rintro ⟨data, inside, far⟩
    obtain ⟨steps, enough⟩ : ∃ steps, 8 * (block.data.size - state.byteIndex) = steps + 1 :=
      Nat.exists_eq_succ_of_ne_zero (by omega)
    simp [data, inside, runAhead?, enough, RawDataBlock.run?, far]

theorem not_overflows_of_bit (inside : state.bitIndex < 8) :
    state.overflows block = false := by
  rw [← Bool.not_eq_true, overflows_iff]
  rintro ⟨-, -, far⟩
  exact absurd (RawDataBlock.succ_bit_lt inside) (Nat.not_lt.mpr far)

end RawState

/-! ## Blocks that can be played -/

/-- The place reached in sampled data is inside an octet. -/
def Track.Playable : Track → Prop
  | ⟨.rawData _, state⟩ => RawState.bitIndex state < 8
  | _ => True

namespace RawState

theorem bitIndex_nextRun {block : RawDataBlock} {state : RawState}
    (inside : state.bitIndex < 8) :
    (state.nextRun block).bitIndex < 8 := by
  unfold nextRun
  split
  · exact inside
  next within =>
    split
    · exact inside
    next run ahead => exact (RawDataBlock.run?_ends (Nat.lt_of_not_le within) ahead).2.1

theorem bitIndex_start (block : RawDataBlock) : (start block).bitIndex < 8 := by
  unfold start
  split
  · exact Nat.zero_lt_succ 7
  · exact bitIndex_nextRun (Nat.zero_lt_succ 7)

theorem bitIndex_step {block : RawDataBlock} {state : RawState} (config : PlaybackConfig)
    (inside : state.bitIndex < 8) : (state.step block config).2.bitIndex < 8 := by
  unfold step
  split
  · exact bitIndex_nextRun inside
  · exact inside

end RawState

namespace Track

theorem playable_cue (track : Track) : track.cue.Playable := by
  obtain ⟨block, progress⟩ := track
  cases block with
  | rawData block => exact RawState.bitIndex_start block
  | _ => trivial

theorem Playable.step {track : Track} (playable : track.Playable)
    (config : PlaybackConfig) :
    (track.step config).2.Playable := by
  obtain ⟨block, progress⟩ := track
  cases block with
  | rawData block => exact RawState.bitIndex_step config playable
  | _ => trivial

theorem Playable.not_overflows {track : Track} (playable : track.Playable) :
    track.overflows = false := by
  obtain ⟨block, progress⟩ := track
  cases block with
  | rawData block => exact RawState.not_overflows_of_bit playable
  | _ => rfl

end Track

end ZxMedia
