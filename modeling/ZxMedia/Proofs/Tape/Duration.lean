import ZxMedia.Proofs.Tape.Editing
import ZxMedia.Proofs.Tape.Samples
import ZxMedia.Tape.PulseReader

/-!
# Durations of blocks

The duration of a block is found by playing it on a tape of its own up to its end. That
is the sum of the steps that the block gives (`Track.duration_of_plays`), and for each
kind of block the sum can be told from its fields (`Block.playingTime`). What had been
played of the block before makes no difference.
-/

namespace ZxMedia

/-! ## Time of coded data -/

/-- The time of bits: each has two pulses, whose length tells a zero from a one. -/
def bitsTime (bit0Length bit1Length : Nat) (bits : List Bool) : Nat :=
  2 * (bits.count false * bit0Length + bits.count true * bit1Length)

theorem bitsTime_le {bit0Length bit1Length most : Nat} (bits : List Bool)
    (zero : bit0Length ≤ most) (one : bit1Length ≤ most) :
    bitsTime bit0Length bit1Length bits ≤ most * (2 * bits.length) :=
  calc bitsTime bit0Length bit1Length bits
    _ ≤ 2 * (bits.count false * most + bits.count true * most) := by
      unfold bitsTime
      gcongr
    _ = most * (2 * (bits.count false + bits.count true)) := by ring
    _ = most * (2 * bits.length) := by rw [List.count_false_add_count_true]

namespace Coding

variable (coding : Coding)

theorem sum_bitPulses (bits : List Bool) :
    (coding.bitPulses bits).sum = bitsTime coding.bit0Length coding.bit1Length bits := by
  induction bits with
  | nil => simp [bitPulses, bitsTime]
  | cons bit bits ih =>
      have split : coding.bitPulses (bit :: bits) =
          coding.bitLength bit :: coding.bitLength bit :: coding.bitPulses bits := rfl
      rw [split, List.sum_cons, List.sum_cons, ih]
      cases bit <;> simp [bitsTime, bitLength] <;> ring

theorem sum_pulses :
    coding.pulses.sum =
      coding.pilotPulses * coding.pilotLength + coding.sync1Length + coding.sync2Length +
        bitsTime coding.bit0Length coding.bit1Length coding.bits := by
  simp [pulses, sum_bitPulses, Nat.add_assoc]

theorem length_bitPulses (bits : List Bool) :
    (coding.bitPulses bits).length = 2 * bits.length := by
  simp [bitPulses, Nat.mul_comm]

theorem length_bits_le : coding.bits.length ≤ 8 * coding.data.size := by
  have few := length_dataBits_le (lastBits_bounds coding.usedBits).2 coding.data.toList
  rwa [Array.length_toList] at few

theorem bitsTime_bits_le {most : Nat} (zero : coding.bit0Length ≤ most)
    (one : coding.bit1Length ≤ most) :
    bitsTime coding.bit0Length coding.bit1Length coding.bits ≤
      most * (16 * coding.data.size) := by
  refine (bitsTime_le coding.bits zero one).trans (Nat.mul_le_mul_left most ?_)
  have bits := coding.length_bits_le
  omega

theorem length_data_le :
    (coding.bitPulses coding.bits).length ≤ 16 * coding.data.size := by
  have bits := coding.length_bits_le
  rw [length_bitPulses]
  omega

theorem length_pulses_le (pilot : coding.pilotPulses ≤ 65536) :
    coding.pulses.length ≤ 65538 + 16 * coding.data.size := by
  have data := coding.length_data_le
  simp only [pulses, List.length_append, List.length_replicate,
    List.length_cons, List.length_nil]
  omega

end Coding

/-! ## Time of a block -/

theorem RomBlock.pilotPulses_le (block : RomBlock) :
    block.pilotPulses ≤ headerPilotPulses := by
  rw [pilotPulses_eq, headerPilotPulses]
  split <;> omega

theorem Step.tstates_pause (milliseconds : UInt16) (config : PlaybackConfig) :
    (Step.pause milliseconds config).tstates =
      config.pauseTstates milliseconds.toNat := by
  unfold Step.pause
  by_cases none : milliseconds = 0
  · simp [none, control, PlaybackConfig.pauseTstates]
  · simp [none, lastPulse]

theorem Step.tstates_edges (mark : EdgeFlags → EdgeFlags) (steps : List Step) :
    (Step.edges mark steps).map Edge.tstates = steps.map Step.tstates := by
  induction steps with
  | nil => rfl
  | cons step steps ih =>
      cases steps with
      | nil => rfl
      | cons next steps => exact congrArg _ ih

theorem RawDataBlock.sum_runLengths_le (block : RawDataBlock) {samples : List Bool} :
    (block.runLengths samples).sum ≤ samples.length * block.sampleLength.toNat := by
  have length := congrArg List.length (List.flatten_splitBy (· == ·) samples)
  rw [← length, List.length_flatten, ← List.sum_map_mul_right, runLengths]
  exact List.sum_le_sum fun run _ => Nat.min_le_left _ _

/-- Runs that are not too long for an interval take the time of all their samples. -/
theorem RawDataBlock.sum_runLengths {block : RawDataBlock} {samples : List Bool}
    (fit : ∀ run ∈ samples.splitBy (· == ·), run.length * block.sampleLength.toNat ≤ maxTstates) :
    (block.runLengths samples).sum = samples.length * block.sampleLength.toNat := by
  have whole : block.runLengths samples =
      (samples.splitBy (· == ·)).map fun run => run.length * block.sampleLength.toNat :=
    List.map_congr_left fun run member => Nat.min_eq_left (fit run member)
  have length := congrArg List.length (List.flatten_splitBy (· == ·) samples)
  rw [whole, List.sum_map_mul_right, ← length, List.length_flatten]

theorem RawDataBlock.length_runLengths_le (block : RawDataBlock) (samples : List Bool) :
    (block.runLengths samples).length ≤ samples.length := by
  rw [runLengths, List.length_map]
  have length := congrArg List.length (List.flatten_splitBy (· == ·) samples)
  have one : ∀ count ∈ (samples.splitBy (· == ·)).map List.length, 1 ≤ count := by
    simp only [List.mem_map, forall_exists_index, and_imp]
    rintro _ run member rfl
    exact List.length_pos_iff.mpr (List.ne_nil_of_mem_splitBy member)
  have fewer := List.length_le_sum_of_one_le _ one
  rwa [List.length_map, ← List.length_flatten, length] at fewer

theorem RawDataBlock.length_samples_le (block : RawDataBlock) :
    block.samples.length ≤ 8 * block.data.size := by
  rw [← block.samplesFrom_zero]
  exact block.length_samplesFrom_le 0 0

namespace Block

/-- The times of the intervals of a block. A tone without pulses and a sequence without
pulses have one interval that takes no time, and so has a block that is no signal. -/
def times (config : PlaybackConfig) : Block → List Nat
  | rom block => block.coding.pulses ++ [config.pauseTstates block.pause.toNat]
  | turbo block => block.coding.pulses ++ [config.pauseTstates block.pause.toNat]
  | pureData block =>
    block.coding.bitPulses block.coding.bits ++ [config.pauseTstates block.pause.toNat]
  | rawData block => block.runLengths block.samples ++ [config.pauseTstates block.pause.toNat]
  | pureTone length count =>
    if count = 0 then [0] else List.replicate count.toNat length.toNat
  | pulses lengths => if lengths = #[] then [0] else lengths.toList.map UInt16.toNat
  | pause milliseconds => [config.pauseTstates milliseconds.toNat]
  | _ => [0]

/-- The time from the beginning of a block to its end, its pause included. The routines
of the machine have a long tone in front of a header and a short one in front of
data. -/
def playingTime (config : PlaybackConfig) : Block → Nat
  | rom block =>
    let isData := block.data.toList.head?.any fun flag => flag.toNat.testBit 7
    (if isData then 3223 else 8063) * 2168 + 667 + 735
      + bitsTime 855 1710 (dataBits 8 block.data.toList)
      + config.pauseTstates block.pause.toNat
  | turbo block =>
    block.pilotPulses.toNat * block.pilotLength.toNat
      + block.sync1Length.toNat + block.sync2Length.toNat
      + bitsTime block.bit0Length.toNat block.bit1Length.toNat
        (dataBits (heardBits block.usedBits) block.data.toList)
      + config.pauseTstates block.pause.toNat
  | pureData block =>
    bitsTime block.bit0Length.toNat block.bit1Length.toNat
        (dataBits (heardBits block.usedBits) block.data.toList)
      + config.pauseTstates block.pause.toNat
  | rawData block =>
    block.samples.length * block.sampleLength.toNat + config.pauseTstates block.pause.toNat
  | pureTone length count => count.toNat * length.toNat
  | pulses lengths => (lengths.toList.map UInt16.toNat).sum
  | pause milliseconds => config.pauseTstates milliseconds.toNat
  | _ => 0

/-- No run of samples is longer than the largest duration. All other intervals are words
of 16 bits, or pauses, which are held there when they are timed. -/
def IntervalsFit : Block → Prop
  | rawData block => ∀ run ∈ block.samples.splitBy (· == ·),
    run.length * block.sampleLength.toNat ≤ maxTstates
  | _ => True

variable {block : Block}

/-- Together the intervals take the time of the block. -/
theorem sum_times (config : PlaybackConfig) (fit : block.IntervalsFit) :
    (block.times config).sum = block.playingTime config := by
  cases block with
  | rom block =>
      simp only [times, playingTime, List.sum_append, List.sum_singleton,
        Coding.sum_pulses, ← block.pilotPulses_eq]
      rfl
  | turbo block =>
      simp only [times, playingTime, List.sum_append, List.sum_singleton,
        Coding.sum_pulses, heardBits_eq]
      rfl
  | pureData block =>
      simp only [times, playingTime, List.sum_append, List.sum_singleton,
        Coding.sum_bitPulses, heardBits_eq]
      rfl
  | rawData block => simp [times, playingTime, block.sum_runLengths fit]
  | pureTone length count => by_cases none : count = 0 <;> simp [times, playingTime, none]
  | pulses lengths => by_cases none : lengths = #[] <;> simp [times, playingTime, none]
  | _ => simp [times, playingTime]

/-- A player waits for the pulses of data and for the pause behind them. -/
theorem lt_maxIntervals {data : Octets} {count : Nat} (found : block.data? = some data)
    (few : count ≤ 65538 + 16 * data.size) : count < block.maxIntervals := by
  simp only [maxIntervals, found, Option.getD_some]
  omega

/-- A block has no more intervals than a player waits for. -/
theorem length_times_le (block : Block) (config : PlaybackConfig) :
    (block.times config).length ≤ block.maxIntervals := by
  cases block with
  | rom block =>
      rw [times, List.length_append]
      exact lt_maxIntervals rfl
        (block.coding.length_pulses_le (block.pilotPulses_le.trans (by decide)))
  | turbo block =>
      rw [times, List.length_append]
      exact lt_maxIntervals rfl
        (block.coding.length_pulses_le (Nat.le_of_lt block.pilotPulses.toNat_lt))
  | pureData block =>
      rw [times, List.length_append]
      exact lt_maxIntervals rfl (Nat.le_add_left_of_le block.coding.length_data_le)
  | rawData block =>
      have runs :=
        (block.length_runLengths_le block.samples).trans block.length_samples_le
      rw [times, List.length_append]
      exact lt_maxIntervals rfl (by omega)
  | pureTone length count =>
      have word := count.toNat_lt
      simp only [times, maxIntervals]
      split
      · simp
      · rw [List.length_replicate]
        omega
  | pulses lengths =>
      simp only [times, maxIntervals]
      split
      · simp
      · rw [List.length_map, Array.length_toList]
        omega
  | _ => simp [times, maxIntervals]

theorem playingTime_le (block : Block) (config : PlaybackConfig) :
    block.playingTime config ≤ 65535 * block.maxIntervals + maxTstates := by
  have word (length : UInt16) : length.toNat ≤ 65535 := Nat.le_of_lt_succ length.toNat_lt
  have paused (milliseconds : UInt16) := config.pauseTstates_le milliseconds.toNat
  cases block with
  | rom block =>
      have bits : bitsTime 855 1710 (dataBits 8 block.data.toList) ≤
          65535 * (16 * block.data.size) :=
        block.coding.bitsTime_bits_le (show 855 ≤ 65535 by decide) (show 1710 ≤ 65535 by decide)
      have pilot := block.pilotPulses_le
      have pause := paused block.pause
      rw [block.pilotPulses_eq, headerPilotPulses] at pilot
      simp only [playingTime, maxIntervals, data?, Option.getD_some]
      omega
  | turbo block =>
      have bits : bitsTime block.bit0Length.toNat block.bit1Length.toNat
          (dataBits (lastBits block.usedBits) block.data.toList) ≤
            65535 * (16 * block.data.size) :=
        block.coding.bitsTime_bits_le (word block.bit0Length) (word block.bit1Length)
      have pilot := Nat.mul_le_mul (word block.pilotPulses) (word block.pilotLength)
      have sync1 := word block.sync1Length
      have sync2 := word block.sync2Length
      have pause := paused block.pause
      simp only [playingTime, maxIntervals, data?, Option.getD_some, heardBits_eq]
      omega
  | pureData block =>
      have bits : bitsTime block.bit0Length.toNat block.bit1Length.toNat
          (dataBits (lastBits block.usedBits) block.data.toList) ≤
            65535 * (16 * block.data.size) :=
        block.coding.bitsTime_bits_le (word block.bit0Length) (word block.bit1Length)
      have pause := paused block.pause
      simp only [playingTime, maxIntervals, data?, Option.getD_some, heardBits_eq]
      omega
  | rawData block =>
      have samples := Nat.mul_le_mul block.length_samples_le (word block.sampleLength)
      have pause := paused block.pause
      simp only [playingTime, maxIntervals, data?, Option.getD_some]
      omega
  | pureTone length count =>
      have tone := Nat.mul_le_mul (word count) (word length)
      simp only [playingTime, maxIntervals]
      omega
  | pulses lengths =>
      have each : ∀ time ∈ lengths.toList.map UInt16.toNat, time ≤ 65535 := by
        simpa using fun length _ => word length
      have sum := List.sum_le_card_nsmul _ 65535 each
      rw [List.length_map, Array.length_toList, smul_eq_mul] at sum
      simp only [playingTime, maxIntervals]
      omega
  | pause milliseconds => exact Nat.le_add_left_of_le (paused milliseconds)
  | _ => exact Nat.zero_le _

/-- The intervals take no more time than as many of the longest pulses and the longest
pause. Runs of samples that are held at the largest duration take less than their
samples. -/
theorem sum_times_le (block : Block) (config : PlaybackConfig) :
    (block.times config).sum ≤ 65535 * block.maxIntervals + maxTstates := by
  refine Nat.le_trans ?_ (block.playingTime_le config)
  cases block with
  | rawData block =>
      simp only [times, playingTime, List.sum_append, List.sum_singleton]
      exact Nat.add_le_add_right block.sum_runLengths_le _
  | _ => exact Nat.le_of_eq (sum_times config trivial)

end Block

/-! ## Playing a block -/

namespace Track

variable {config : PlaybackConfig} {steps : List Step}

theorem plays_tone (length count : UInt16) (config : PlaybackConfig) {left : Nat}
    (more : left ≠ 0) :
    ∃ steps last, Plays config ⟨.pureTone length count, left⟩ steps last ∧
      steps.map Step.tstates = List.replicate left length.toNat := by
  induction left with
  | zero => exact absurd rfl more
  | succ left ih =>
      cases left with
      | zero => exact ⟨[.lastPulse length.toNat], _, .last rfl rfl, rfl⟩
      | succ left =>
          obtain ⟨steps, last, later, times⟩ := ih (Nat.succ_ne_zero left)
          exact ⟨.pulse length.toNat :: steps, last,
            .more rfl rfl later, congrArg _ times⟩

theorem plays_pulses {lengths : Array UInt16} (config : PlaybackConfig)
    {front ahead : List UInt16}
    (whole : lengths.toList = front ++ ahead) (more : ahead ≠ []) :
    ∃ steps last, Plays config ⟨.pulses lengths, front.length⟩ steps last ∧
      steps.map Step.tstates = ahead.map UInt16.toNat := by
  induction ahead generalizing front with
  | nil => exact absurd rfl more
  | cons length ahead ih =>
      have size : lengths.size = front.length + (ahead.length + 1) := by
        rw [← Array.length_toList, whole, List.length_append, List.length_cons]
      have here : lengths[front.length]? = some length := by
        rw [← Array.getElem?_toList, whole]
        simp
      cases ahead with
      | nil =>
          refine ⟨[.lastPulse length.toNat], ⟨.pulses lengths, front.length + 1⟩,
            .last ?_ rfl, rfl⟩
          simp only [Track.step, stepPulses, here, size, List.length_nil,
            Nat.zero_add, if_true]
      | cons next ahead =>
          have behind : lengths.toList = (front ++ [length]) ++ next :: ahead := by
            rw [whole, List.append_assoc]
            rfl
          obtain ⟨steps, last, later, times⟩ := ih behind (List.cons_ne_nil _ _)
          rw [List.length_append, List.length_singleton] at later
          refine ⟨.pulse length.toNat :: steps, last,
            .more ?_ rfl later, congrArg _ times⟩
          have goesOn : front.length + 1 ≠ lengths.size := by
            rw [size, List.length_cons]
            omega
          simp only [Track.step, stepPulses, here, goesOn, if_false]

/-- A block that was made ready gives its intervals. -/
theorem plays_times (block : Block) (config : PlaybackConfig) :
    ∃ steps last, (ofBlock block).cue.Plays config steps last ∧
      steps.map Step.tstates = block.times config := by
  have coded {coding : Coding} {pulses : List Nat} (signal : block.signal? = some (coding, pulses))
      (times : block.times config = pulses ++ [config.pauseTstates coding.pause.toNat]) :
      ∃ steps last, (ofBlock block).cue.Plays config steps last ∧
        steps.map Step.tstates = block.times config := by
    obtain ⟨last, -, plays⟩ := plays_cue signal config
    refine ⟨_, last, plays, ?_⟩
    rw [times, Coding.stepsOf, List.map_append, List.map_map]
    simp [Step.tstates_pause, Step.pulse, Function.comp_def]
  have single {step : Step} {after : Track}
      (played : (ofBlock block).cue.step config = (step, after)) (ends : step.ends = true)
      (times : block.times config = [step.tstates]) :
      ∃ steps last, (ofBlock block).cue.Plays config steps last ∧
        steps.map Step.tstates = block.times config :=
    ⟨[step], after, .last played ends, times.symm⟩
  cases block with
  | rom block => exact coded rfl rfl
  | turbo block => exact coded rfl rfl
  | pureData block => exact coded rfl rfl
  | rawData block =>
      obtain ⟨last, plays⟩ := plays_samples block config
      refine ⟨_, last, plays, ?_⟩
      simp [Step.tstates_pause, Step.pulse, Function.comp_def, Block.times]
  | pureTone length count =>
      by_cases none : count = 0
      · subst none
        exact single rfl rfl rfl
      · obtain ⟨steps, last, plays, times⟩ := plays_tone length count config fun zero =>
          none (UInt16.toNat_inj.mp zero)
        exact ⟨steps, last, plays, by rw [times, Block.times, if_neg none]⟩
  | pulses lengths =>
      by_cases none : lengths = #[]
      · subst none
        exact single rfl rfl rfl
      · obtain ⟨steps, last, plays, times⟩ :=
          @plays_pulses lengths config [] lengths.toList rfl (by simpa using none)
        exact ⟨steps, last, plays, by rw [times, Block.times, if_neg none]⟩
  | pause milliseconds =>
      by_cases none : milliseconds = 0
      · subst none
        exact single rfl rfl (by simp [Block.times, PlaybackConfig.pauseTstates, Step.control])
      · have played : (ofBlock (.pause milliseconds)).cue.step config =
            ({ tstates := config.pauseTstates milliseconds.toNat
               flags := { levelLow := true }
               ends := true }, (ofBlock (.pause milliseconds)).cue) := by
          simp only [Track.step, cue, ofBlock, none, if_false]
        exact single played rfl rfl
  | setSignalLevel high => cases high <;> exact single rfl rfl rfl
  | _ => exact single rfl rfl rfl

end Track

namespace Tape

variable {tape after : Tape} {edges : List Edge} {patience : Nat}

theorem untilBlockEnd_of_gives (gives : tape.Gives edges after) (whole : OneBlock edges)
    (enough : edges.length ≤ patience) (total : Nat) :
    tape.untilBlockEnd patience total = .ok (total + (edges.map Edge.tstates).sum) := by
  -- The flag of the block's end is on the last interval alone, so the induction is on
  -- those before.
  obtain ⟨front, last, rfl, ended, goesOn⟩ := whole
  induction front generalizing tape patience total with
  | nil =>
      cases gives with
      | cons played later =>
          cases patience with
          | zero => cases enough
          | succ patience => simp [untilBlockEnd, played, ended]
  | cons edge front ih =>
      rw [List.forall_mem_cons] at goesOn
      cases gives with
      | cons played later =>
          cases patience with
          | zero => cases enough
          | succ patience =>
              have rest :=
                ih (total + edge.tstates) later (Nat.le_of_succ_le_succ enough) goesOn.2
              simp [untilBlockEnd, played, goesOn.1, rest, Nat.add_assoc]

end Tape

namespace Track

/-- The time of a block is that of its steps, whatever had been played of it. -/
theorem duration_of_plays {track last : Track} {config : PlaybackConfig}
    {steps : List Step}
    (timed : track.block.isTimed = true)
    (plays : (ofBlock track.block).cue.Plays config steps last)
    (few : steps.length ≤ track.block.maxIntervals) :
    track.duration config = .ok (steps.map Step.tstates).sum := by
  -- Put on an empty tape the block becomes the current one and is made ready, so no
  -- trace is left of what had been played of it.
  let tape := Tape.appendTrack { config } track
  have ready : tape.tracks[0]? = some (ofBlock track.block).cue := rfl
  have ending := Tape.atEnd_of_leadsOn (Block.leadsOn_of_isTimed timed) tape 0
  have gives := Tape.gives_block rfl ready (playable_cue _) plays ending
  have whole := plays.oneBlock fun flags => Tape.block_follow tape (.onTo (0 + 1)) flags
  rw [duration, if_pos timed, Tape.untilBlockEnd_of_gives gives whole]
  · rw [Step.tstates_edges, Nat.zero_add]
  · rwa [← List.length_map Edge.tstates, Step.tstates_edges, List.length_map]

/-- The duration of a block is that of its intervals, also where a run is held at the
largest duration. -/
theorem duration_eq_sum (track : Track) (config : PlaybackConfig) :
    track.duration config = .ok (track.block.times config).sum := by
  cases timed : track.block.isTimed with
  | true =>
      obtain ⟨steps, last, plays, times⟩ := plays_times track.block config
      have few : steps.length ≤ track.block.maxIntervals := by
        rw [← List.length_map Step.tstates, times]
        exact track.block.length_times_le config
      rw [duration_of_plays timed plays few, times]
  | false =>
      have none : track.block.times config = [0] := by
        cases same : track.block with
        | rom | turbo | pureData | rawData | pureTone | pulses | pause =>
            rw [same] at timed
            cases timed
        | _ => rfl
      rw [duration, timed, none]
      rfl

/-- Every block has a duration. A word of 64 bits holds it, also while it is added up,
unless the block has more than 2 ^ 47 intervals. -/
theorem exists_duration (track : Track) (config : PlaybackConfig)
    (few : track.block.maxIntervals ≤ 2 ^ 47) :
    ∃ total, track.duration config = .ok total ∧ total < UInt64.size := by
  refine ⟨_, duration_eq_sum track config, ?_⟩
  have most := track.block.sum_times_le config
  unfold maxTstates UInt32.size at most
  unfold UInt64.size
  omega

/-- The duration of a block that is a signal is told by its fields: the pilot tone, the
two pulses behind it, two pulses for each bit that is used, the samples, the pulses of a
tone or of a sequence, and the pause. All other blocks take no time. It makes no
difference how far the block had been played. -/
theorem duration_eq_playingTime (track : Track) (config : PlaybackConfig)
    (fit : track.block.IntervalsFit) :
    track.duration config = .ok (track.block.playingTime config) := by
  rw [duration_eq_sum, Block.sum_times config fit]

/-- Ten samples and a pause, in a state in which no player leaves them. -/
def stale : Track where
  block := .rawData {
    sampleLength := 10, pause := 1, usedBits := 2, data := #[0b11100011, 0b11010101] }
  progress := ({ phase := .pause, byteIndex := 7, bitIndex := 200, runLength := 5 } : RawState)

theorem duration_eq_playingTime_stale :
    stale.block.IntervalsFit ∧ stale.duration {} = .ok (10 * 10 + 3494) := by
  have fit : stale.block.IntervalsFit := by
    unfold stale Block.IntervalsFit
    decide
  exact ⟨fit, (duration_eq_playingTime stale {} fit).trans rfl⟩

end Track

end ZxMedia
