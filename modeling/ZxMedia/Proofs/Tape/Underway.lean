import ZxMedia.Proofs.Tape.Current
import ZxMedia.Proofs.Tape.Words

/-!
# The block under way

Blocks come to a tape with whatever progress they had elsewhere, but the current one is
always `Underway`: it was made ready when the cursor came to it, and since then it has
only been played. Every operation either leaves the current block as it is, plays an
interval of it, or makes a block ready.

Of a block under way every interval can be counted in a word of 32 bits, so that the
intervals of such a tape are `Edge.Plain`.
-/

namespace ZxMedia

/-- The block was made ready, and since then only played. -/
inductive Track.Underway : Track → Prop where
  | cue (track : Track) : Underway track.cue
  | step {track : Track} (underway : Underway track) (config : PlaybackConfig) :
      Underway (track.step config).2

/-! ## Intervals that can be counted -/

theorem le_maxTstates (length : UInt16) : length.toNat ≤ maxTstates :=
  Nat.le_trans (Nat.le_of_lt length.toNat_lt) (by decide)

theorem Step.tstates_pause_le (milliseconds : UInt16) (config : PlaybackConfig) :
    (Step.pause milliseconds config).tstates ≤ maxTstates :=
  Nat.le_of_lt_succ (Step.tstates_pause_lt milliseconds config)

/-- Every pulse of coded data can be counted. -/
structure Coding.Timed (coding : Coding) : Prop where
  pilot : coding.pilotLength ≤ maxTstates
  sync1 : coding.sync1Length ≤ maxTstates
  sync2 : coding.sync2Length ≤ maxTstates
  bit0 : coding.bit0Length ≤ maxTstates
  bit1 : coding.bit1Length ≤ maxTstates

theorem RomBlock.coding_timed (block : RomBlock) : block.coding.Timed where
  pilot := show 2168 ≤ maxTstates by decide
  sync1 := show 667 ≤ maxTstates by decide
  sync2 := show 735 ≤ maxTstates by decide
  bit0 := show 855 ≤ maxTstates by decide
  bit1 := show 1710 ≤ maxTstates by decide

theorem TurboBlock.coding_timed (block : TurboBlock) : block.coding.Timed where
  pilot := le_maxTstates block.pilotLength
  sync1 := le_maxTstates block.sync1Length
  sync2 := le_maxTstates block.sync2Length
  bit0 := le_maxTstates block.bit0Length
  bit1 := le_maxTstates block.bit1Length

theorem PureDataBlock.coding_timed (block : PureDataBlock) : block.coding.Timed where
  pilot := Nat.zero_le _
  sync1 := Nat.zero_le _
  sync2 := Nat.zero_le _
  bit0 := le_maxTstates block.bit0Length
  bit1 := le_maxTstates block.bit1Length

namespace DataState

variable {state : DataState} {coding : Coding}

theorem bitLength_shift_le (timed : coding.Timed) (state : DataState) :
    (state.shift coding).bitLength ≤ maxTstates := by
  unfold shift
  dsimp only
  split
  · exact timed.bit1
  · exact timed.bit0

theorem bitLength_nextBit_le (timed : coding.Timed)
    (short : state.bitLength ≤ maxTstates) :
    (state.nextBit coding).bitLength ≤ maxTstates := by
  rcases nextBit_cases state coding with
      ⟨-, next⟩ | ⟨register, bits, -, -, -, next⟩ | ⟨-, next⟩
  · rw [next]
    exact short
  · rw [next]
    exact bitLength_shift_le timed _
  · rw [next]
    exact bitLength_shift_le timed state

theorem bitLength_start_le (coding : Coding) : (start coding).bitLength ≤ maxTstates := by
  unfold start
  split <;> exact Nat.zero_le _

theorem step_timed (timed : coding.Timed) (short : state.bitLength ≤ maxTstates)
    (config : PlaybackConfig) :
    (state.step coding config).1.tstates ≤ maxTstates ∧
      (state.step coding config).2.bitLength ≤ maxTstates := by
  unfold step
  cases state.phase with
  | pilot => exact ⟨timed.pilot, short⟩
  | sync1 => exact ⟨timed.sync1, short⟩
  | sync2 => exact ⟨timed.sync2, bitLength_nextBit_le timed short⟩
  | data1 => exact ⟨short, short⟩
  | data2 => exact ⟨short, bitLength_nextBit_le timed short⟩
  | pause => exact ⟨Step.tstates_pause_le coding.pause config, short⟩

end DataState

namespace RawState

variable {state : RawState} {block : RawDataBlock}

theorem runLength_nextRun_le (short : state.runLength ≤ maxTstates) :
    (state.nextRun block).runLength ≤ maxTstates := by
  unfold nextRun
  split
  · exact short
  · split
    · exact short
    · exact Nat.min_le_right _ _

theorem runLength_start_le (block : RawDataBlock) :
    (start block).runLength ≤ maxTstates := by
  unfold start
  split
  · exact Nat.zero_le _
  · exact runLength_nextRun_le (Nat.zero_le _)

theorem step_timed (short : state.runLength ≤ maxTstates) (config : PlaybackConfig) :
    (state.step block config).1.tstates ≤ maxTstates ∧
      (state.step block config).2.runLength ≤ maxTstates := by
  unfold step
  cases state.phase with
  | data => exact ⟨short, runLength_nextRun_le short⟩
  | pause => exact ⟨Step.tstates_pause_le block.pause config, short⟩

end RawState

theorem tstates_stepTone_le (length : UInt16) (left : Nat) :
    (stepTone length left).1.tstates ≤ maxTstates := by
  unfold stepTone
  split
  · exact Nat.zero_le _
  · exact le_maxTstates length
  · exact le_maxTstates length

theorem tstates_stepPulses_le (lengths : Array UInt16) (index : Nat) :
    (stepPulses lengths index).1.tstates ≤ maxTstates := by
  unfold stepPulses
  split
  next => exact Nat.zero_le _
  next length _ =>
    split
    · exact le_maxTstates length
    · exact le_maxTstates length

namespace Track

variable {track : Track}

/-- The interval that the progress of the block holds can be counted. -/
def Timed : Track → Prop
  | ⟨.rom _, state⟩ => DataState.bitLength state ≤ maxTstates
  | ⟨.turbo _, state⟩ => DataState.bitLength state ≤ maxTstates
  | ⟨.pureData _, state⟩ => DataState.bitLength state ≤ maxTstates
  | ⟨.rawData _, state⟩ => RawState.runLength state ≤ maxTstates
  | _ => True

theorem timed_cue (track : Track) : track.cue.Timed := by
  obtain ⟨block, progress⟩ := track
  cases block with
  | rom block => exact DataState.bitLength_start_le block.coding
  | turbo block => exact DataState.bitLength_start_le block.coding
  | pureData block => exact DataState.bitLength_nextBit_le block.coding_timed (Nat.zero_le _)
  | rawData block => exact RawState.runLength_start_le block
  | _ => trivial

theorem Timed.step (timed : track.Timed) (config : PlaybackConfig) :
    (track.step config).1.tstates ≤ maxTstates ∧ (track.step config).2.Timed := by
  obtain ⟨block, progress⟩ := track
  cases block with
  | rom block => exact DataState.step_timed block.coding_timed timed config
  | turbo block => exact DataState.step_timed block.coding_timed timed config
  | pureData block => exact DataState.step_timed block.coding_timed timed config
  | rawData block => exact RawState.step_timed timed config
  | pureTone length pulses => exact ⟨tstates_stepTone_le length progress, trivial⟩
  | pulses lengths => exact ⟨tstates_stepPulses_le lengths progress, trivial⟩
  | pause milliseconds =>
      refine ⟨?_, trivial⟩
      simp only [Track.step]
      split
      · exact Nat.zero_le _
      · exact config.pauseTstates_le milliseconds.toNat
  | _ => exact ⟨Nat.zero_le _, trivial⟩

theorem Underway.timed (underway : track.Underway) : track.Timed := by
  induction underway with
  | cue track => exact track.timed_cue
  | step underway config timed => exact (timed.step config).2

end Track

namespace Tape

variable {tape after : Tape} {edge : Edge} {edges : List Edge}

/-- The current block of the tape was made ready, and since then only played. -/
def Underway (tape : Tape) : Prop :=
  tape.CurrentIs Track.Underway

/-- Playing an interval of a block under way leaves it under way, and at the end of the
block another one is made ready. The interval can be counted, and takes no time without
an edge. -/
theorem Underway.nextEdge (underway : tape.Underway)
    (played : tape.nextEdge = .ok (edge, after)) : edge.Plain ∧ after.Underway := by
  have later : after.Underway := CurrentIs.nextEdge .cue underway played
    fun track here => (underway track here).step tape.config
  refine ⟨⟨?_, nextEdge_instant played⟩, later⟩
  rcases nextEdge_ok played with ⟨-, rfl, -⟩ | ⟨index, inside, here, outcome⟩
  · exact Nat.zero_le _
  · have current : tape.currentTrack? = some tape.tracks[index] := by
      simp [currentTrack?, here, inside]
    have counted := ((underway _ current).timed.step tape.config).1
    rcases outcome with ⟨-, rfl, -⟩ | ⟨-, control, move, -, tstates, -⟩
    · exact counted
    · exact tstates.trans_le counted

theorem Reachable.underway (reached : tape.Reachable) : tape.Underway := by
  induction reached with
  | new config =>
      intro track here
      cases here
  | perform reached operation fit underway =>
      exact CurrentIs.perform .cue underway (.inl reached.sound.inside)
        fun track here => (underway track here).step _

/-- All intervals that such a tape gives are plain. -/
theorem Underway.gives (underway : tape.Underway) (gives : tape.Gives edges after) :
    (∀ edge ∈ edges, edge.Plain) ∧ after.Underway := by
  induction gives with
  | nil => exact ⟨List.forall_mem_nil _, underway⟩
  | cons played _ ih =>
      obtain ⟨plain, underway⟩ := underway.nextEdge played
      obtain ⟨later, underway⟩ := ih underway
      exact ⟨List.forall_mem_cons.mpr ⟨plain, later⟩, underway⟩

end Tape

end ZxMedia
