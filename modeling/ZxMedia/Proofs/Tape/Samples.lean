import ZxMedia.Proofs.Tape.Current
import ZxMedia.Proofs.Tape.Visits
import ZxMedia.Proofs.Tape.Words

/-!
# The waveform of sampled data

Of a block of samples one interval is heard for each run of equal samples, however the
octets divide it, and then the pause. The player finds the runs one ahead of what is
heard: it keeps the place of the first sample behind the present run and the level
expected there.

`RawDataBlock.samplesFrom` are the samples that are left at a place. A run takes the
samples of one level off their front, and every step of the block takes the first of its
intervals away.
-/

namespace ZxMedia

/-! ## Runs of a list -/

/-- The first run are the samples in front that are like the first one. -/
theorem splitBy_eq_takeWhile_cons (level : Bool) (samples : List Bool) :
    (level :: samples).splitBy (· == ·) =
      (level :: samples.takeWhile (· == level)) ::
        (samples.dropWhile (· == level)).splitBy (· == ·) := by
  have alike : ∀ sample ∈ level :: samples.takeWhile (· == level), sample = level := by
    intro sample member
    rcases List.mem_cons.mp member with rfl | later
    · rfl
    · exact beq_iff_eq.mp (List.mem_takeWhile_imp (p := (· == level)) later)
  have run : (level :: samples.takeWhile (· == level)).IsChain fun one next => one == next := by
    apply List.Pairwise.isChain
    rw [List.pairwise_iff_forall_sublist]
    intro one next sub
    rw [alike one (sub.subset (by simp)), alike next (sub.subset (by simp))]
    exact beq_self_eq_true level
  have apart : ∀ last ∈ (level :: samples.takeWhile (· == level)).getLast?,
      ∀ next ∈ (samples.dropWhile (· == level)).head?, (last == next) = false := by
    intro last ends next begins
    rw [alike last (List.mem_of_getLast? ends)]
    have other := List.head?_dropWhile_not (· == level) samples
    rw [Option.mem_def.mp begins] at other
    rw [Bool.beq_comm]
    exact other
  have parts := List.splitBy_append apart
  rwa [List.cons_append, List.takeWhile_append_dropWhile,
    List.splitBy_of_isChain (List.cons_ne_nil _ _) run] at parts

theorem length_octetBits (count : Nat) (octet : UInt8) :
    (octetBits count octet).length = count := by
  simp [octetBits]

theorem length_dataBits_le {used : Nat} (few : used ≤ 8) (octets : List UInt8) :
    (dataBits used octets).length ≤ 8 * octets.length := by
  induction octets with
  | nil => exact Nat.le_refl 0
  | cons octet octets ih =>
      simp only [dataBits, List.length_append, length_octetBits, List.length_cons]
      split <;> omega

/-! ## Samples at a place -/

namespace RawDataBlock

variable {block : RawDataBlock} {byteIndex bitIndex : Nat}

/-- The samples, the highest bit of an octet first, and as many bits of the last octet
as are said to be used. -/
def samples (block : RawDataBlock) : List Bool :=
  dataBits (heardBits block.usedBits) block.data.toList

/-- The intervals of samples: one for each run of equal ones. -/
def runLengths (block : RawDataBlock) (samples : List Bool) : List Nat :=
  (samples.splitBy (· == ·)).map fun run => min (run.length * block.sampleLength.toNat) maxTstates

/-- The interval that ends the block, which may be the last one of the tape. Without a
pause it takes no time and has no edge. -/
def ending (block : RawDataBlock) (config : PlaybackConfig) (last : Bool) : Edge :=
  let flags : EdgeFlags := { block := true, stop := last, tape := last }
  if block.pause = 0 then ⟨0, { flags with noEdge := true }⟩
  else ⟨config.pauseTstates block.pause.toNat, flags⟩

theorem ending_of_pause (block : RawDataBlock) (config : PlaybackConfig) (last : Bool) :
    (let pause := Step.pause block.pause config
     (⟨pause.tstates, { pause.flags with
        block := true
        stop := pause.flags.stop || last
        tape := pause.flags.tape || last }⟩ : Edge)) =
      block.ending config last :=
  Tape.ending_of_pause { bits := [], zero := 0, one := 0, pause := block.pause } config last

/-- What is heard of the block. -/
def heard (block : RawDataBlock) (config : PlaybackConfig) (last : Bool) : List Edge :=
  (block.runLengths block.samples).map (fun tstates => ⟨tstates, {}⟩) ++ [block.ending config last]

/-- There is a sample at a place. -/
structure IsSample (block : RawDataBlock) (byteIndex bitIndex : Nat) : Prop where
  byte : byteIndex < block.data.size
  bit : bitIndex < block.bitsIn byteIndex

/-- The samples from a place on. -/
def samplesFrom (block : RawDataBlock) (byteIndex bitIndex : Nat) : List Bool :=
  (dataBits (lastBits block.usedBits) (block.data.toList.drop byteIndex)).drop bitIndex

theorem samplesFrom_zero (block : RawDataBlock) :
    block.samplesFrom 0 0 = block.samples := by
  rw [samplesFrom, samples, heardBits_eq]
  rfl

theorem samplesFrom_beyond (beyond : block.data.size ≤ byteIndex) (bitIndex : Nat) :
    block.samplesFrom byteIndex bitIndex = [] := by
  have none : block.data.toList.drop byteIndex = [] :=
    List.drop_eq_nil_of_le (by simpa using beyond)
  rw [samplesFrom, none]
  exact List.drop_nil

theorem bitsIn_pos (block : RawDataBlock) (byteIndex : Nat) :
    0 < block.bitsIn byteIndex := by
  have last := lastBits_bounds block.usedBits
  unfold bitsIn
  split <;> omega

/-- The samples of an octet are followed by those of the octets behind it. -/
theorem samplesFrom_eq (inside : byteIndex < block.data.size)
    (within : bitIndex ≤ block.bitsIn byteIndex) :
    block.samplesFrom byteIndex bitIndex =
      (octetBits (block.bitsIn byteIndex) block.data[byteIndex]).drop bitIndex ++
        block.samplesFrom (byteIndex + 1) 0 := by
  have here : block.data.toList.drop byteIndex =
      block.data[byteIndex] :: block.data.toList.drop (byteIndex + 1) := by
    rw [List.drop_eq_getElem_cons (by simpa using inside), Array.getElem_toList]
  have last : (block.data.toList.drop (byteIndex + 1)).isEmpty =
      decide (byteIndex + 1 = block.data.size) := by
    rw [Bool.eq_iff_iff, List.isEmpty_iff, List.drop_eq_nil_iff, decide_eq_true_eq,
      Array.length_toList]
    omega
  have used :
      (if (block.data.toList.drop (byteIndex + 1)).isEmpty then lastBits block.usedBits
      else 8) = block.bitsIn byteIndex := by
    rw [last, bitsIn]
    simp only [decide_eq_true_eq]
  rw [samplesFrom, here, dataBits, used,
    List.drop_append_of_le_length (by rwa [length_octetBits])]
  rfl

/-- The first sample from a place on is the one there, and behind it are those from the
place after it on. -/
theorem samplesFrom_cons {level : Bool} (sample : block.IsSample byteIndex bitIndex)
    (here : block.sampleAt? byteIndex bitIndex = some level) :
    block.samplesFrom byteIndex bitIndex =
      level :: block.samplesFrom (block.after byteIndex bitIndex).1
        (block.after byteIndex bitIndex).2 := by
  have byte := sample.byte
  have inOctet : bitIndex < 8 := Nat.lt_of_lt_of_le sample.bit (block.bitsIn_le byteIndex)
  have inside :
      bitIndex < (octetBits (block.bitsIn byteIndex) block.data[byteIndex]).length := by
    rw [length_octetBits]
    exact sample.bit
  have same :
      (octetBits (block.bitsIn byteIndex) block.data[byteIndex])[bitIndex] = level := by
    simpa [octetBits, sampleAt?, byte, inOctet] using here
  rw [samplesFrom_eq byte (Nat.le_of_lt sample.bit),
    List.drop_eq_getElem_cons inside, same, List.cons_append]
  refine congrArg _ ?_
  unfold after
  split
  next octet =>
    rw [List.drop_eq_nil_of_le (by rwa [length_octetBits])]
    rfl
  next more => rw [samplesFrom_eq byte (by omega)]

/-- Behind a sample there is another one, or the data ends. -/
theorem after_cases (sample : block.IsSample byteIndex bitIndex) :
    (block.after byteIndex bitIndex).1 = block.data.size ∨
      block.IsSample (block.after byteIndex bitIndex).1 (block.after byteIndex bitIndex).2 := by
  have inside := sample.byte
  unfold after
  split
  next =>
    by_cases last : byteIndex + 1 = block.data.size
    · exact .inl last
    · exact .inr ⟨by dsimp only; omega, block.bitsIn_pos _⟩
  next more => exact .inr ⟨inside, by dsimp only; omega⟩

theorem length_samplesFrom_le (block : RawDataBlock) (byteIndex bitIndex : Nat) :
    (block.samplesFrom byteIndex bitIndex).length ≤
      8 * (block.data.size - byteIndex) := by
  have bits := length_dataBits_le (lastBits_bounds block.usedBits).2
    (block.data.toList.drop byteIndex)
  rw [List.length_drop, @Array.length_toList _ block.data] at bits
  rw [samplesFrom, List.length_drop]
  omega

theorem IsSample.exists_sampleAt? (sample : block.IsSample byteIndex bitIndex) :
    ∃ level, block.sampleAt? byteIndex bitIndex = some level :=
  RawDataBlock.exists_sampleAt? sample.byte
    (Nat.lt_of_lt_of_le sample.bit (block.bitsIn_le byteIndex))

/-- There is a sample of a level at a place, or the data ends there. -/
def LevelAt (block : RawDataBlock) (byteIndex bitIndex : Nat) (level : Bool) : Prop :=
  byteIndex = block.data.size ∨
    block.IsSample byteIndex bitIndex ∧ block.sampleAt? byteIndex bitIndex = some level

/-- A run takes the samples of its level off the front, and ends at a sample of the
other level or behind the data. The induction is on the samples that may be looked
at. -/
theorem run?_eq {level : Bool} {steps : Nat} (sample : block.IsSample byteIndex bitIndex)
    (here : block.sampleAt? byteIndex bitIndex = some level)
    (enough : (block.samplesFrom byteIndex bitIndex).length ≤ steps) (count : Nat) :
    let samples := block.samplesFrom byteIndex bitIndex
    ∃ run, block.run? level steps byteIndex bitIndex count = some run ∧
      run.count = count + (samples.takeWhile (· == level)).length ∧
      block.samplesFrom run.byteIndex run.bitIndex = samples.dropWhile (· == level) ∧
      block.LevelAt run.byteIndex run.bitIndex !level := by
  have first := samplesFrom_cons sample here
  induction steps generalizing byteIndex bitIndex count with
  | zero =>
      rw [first] at enough
      cases enough
  | succ steps ih =>
      rw [first, List.length_cons] at enough
      have few := succ_bit_lt (Nat.lt_of_lt_of_le sample.bit (block.bitsIn_le byteIndex))
      dsimp only
      rw [first, List.takeWhile_cons_of_pos (p := (· == level)) (beq_self_eq_true level),
        List.dropWhile_cons_of_pos (p := (· == level)) (beq_self_eq_true level), List.length_cons]
      simp only [run?, if_neg (Nat.not_le.mpr few)]
      rcases after_cases sample with beyond | next
      · rw [if_pos beyond, samplesFrom_beyond (Nat.le_of_eq beyond.symm)]
        exact ⟨_, rfl, rfl, samplesFrom_beyond (Nat.le_of_eq beyond.symm) _, .inl beyond⟩
      · obtain ⟨other, there⟩ := next.exists_sampleAt?
        rw [if_neg (Nat.ne_of_lt next.byte)]
        simp only [there]
        by_cases same : other = level
        · subst same
          obtain ⟨run, counted, long, left⟩ :=
            ih next there (by omega) (count + 1) (samplesFrom_cons next there)
          rw [if_pos rfl]
          refine ⟨run, counted, ?_, left⟩
          omega
        · rw [if_neg same, samplesFrom_cons next there]
          obtain rfl := Bool.eq_not_of_ne same
          refine ⟨_, rfl, ?_, ?_, .inr ⟨next, there⟩⟩
          · rw [List.takeWhile_cons_of_neg (by simp)]
            rfl
          · rw [List.dropWhile_cons_of_neg (by simp), samplesFrom_cons next there]

end RawDataBlock

/-! ## Playing samples -/

namespace RawState

variable {state : RawState} {block : RawDataBlock}

/-- The next run begins with a sample of the level that is expected, or the data is
over. -/
def Aligned (state : RawState) (block : RawDataBlock) : Prop :=
  block.LevelAt state.byteIndex state.bitIndex state.level

/-- The intervals that are still to be played before the pause. -/
def remaining (state : RawState) (block : RawDataBlock) : List Nat :=
  match state.phase with
  | .data =>
    state.runLength :: block.runLengths (block.samplesFrom state.byteIndex state.bitIndex)
  | .pause => []

/-- Moving to the next run begins the intervals of the samples that are left, or the
pause. -/
theorem Aligned.nextRun (aligned : state.Aligned block) :
    (state.nextRun block).Aligned block ∧
      (state.nextRun block).remaining block =
        block.runLengths (block.samplesFrom state.byteIndex state.bitIndex) := by
  unfold RawState.nextRun
  by_cases beyond : block.data.size ≤ state.byteIndex
  · rw [if_pos beyond, RawDataBlock.samplesFrom_beyond beyond]
    exact ⟨aligned, rfl⟩
  · have sample := aligned.resolve_left fun ended => beyond (Nat.le_of_eq ended.symm)
    obtain ⟨run, ahead, counted, left, next⟩ := RawDataBlock.run?_eq sample.1 sample.2
      (block.length_samplesFrom_le state.byteIndex state.bitIndex) 0
    have nextRun : state.runAhead? block = some run := ahead
    rw [if_neg beyond, nextRun]
    refine ⟨next, ?_⟩
    have first := RawDataBlock.samplesFrom_cons sample.1 sample.2
    rw [first, List.takeWhile_cons_of_pos (p := (· == state.level)) (beq_self_eq_true _),
      Nat.zero_add] at counted
    rw [first, List.dropWhile_cons_of_pos (p := (· == state.level)) (beq_self_eq_true _)] at left
    rw [first, RawDataBlock.runLengths, splitBy_eq_takeWhile_cons, List.map_cons]
    simp only [remaining, counted, left, RawDataBlock.runLengths]

theorem start_aligned (block : RawDataBlock) :
    (start block).Aligned block ∧
      (start block).remaining block = block.runLengths block.samples := by
  rw [← block.samplesFrom_zero]
  unfold start
  split
  next empty =>
    have beyond : block.data.size ≤ 0 := Array.getElem?_eq_none_iff.mp empty
    rw [RawDataBlock.samplesFrom_beyond beyond]
    exact ⟨.inl (Nat.le_zero.mp beyond).symm, rfl⟩
  next octet first =>
    obtain ⟨inside, rfl⟩ := Array.getElem?_eq_some_iff.mp first
    have level : block.sampleAt? 0 0 = some (block.data[0].toNat.testBit 7) := by
      simp [RawDataBlock.sampleAt?, inside]
    exact Aligned.nextRun (.inr ⟨⟨inside, block.bitsIn_pos 0⟩, level⟩)

/-- The numbers of the state are in their ranges: the place is in the data or at its
end, the next run can be counted in a word of 32 bits and ends in the data, and so is
its interval. -/
structure InRange (state : RawState) (block : RawDataBlock) : Prop where
  byte : state.byteIndex ≤ block.data.size
  bit : state.bitIndex < 8
  ahead : state.byteIndex < block.data.size → state.RunsInside block
  length : state.runLength ≤ maxTstates

theorem inRange_of_place (fits : block.data.size < 2 ^ 29)
    (byte : state.byteIndex ≤ block.data.size)
    (bit : state.bitIndex < 8) (length : state.runLength ≤ maxTstates) :
    state.InRange block :=
  ⟨byte, bit, fun inside => runsInside fits inside (RawDataBlock.succ_bit_lt bit), length⟩

theorem InRange.nextRun (range : state.InRange block) (fits : block.data.size < 2 ^ 29) :
    (state.nextRun block).InRange block := by
  rcases nextRun_cases state block with next | ⟨byte, bit, length⟩ | ⟨-, -, same⟩
  · rw [next]
    exact inRange_of_place fits range.byte range.bit range.length
  · exact inRange_of_place fits byte bit length
  · rwa [same]

theorem inRange_start (fits : block.data.size < 2 ^ 29) :
    (start block).InRange block := by
  unfold start
  split
  · exact inRange_of_place fits (Nat.zero_le _) (Nat.zero_lt_succ _) (Nat.zero_le _)
  · refine InRange.nextRun ?_ fits
    exact inRange_of_place fits (Nat.zero_le _) (Nat.zero_lt_succ _) (Nat.zero_le _)

theorem InRange.step (range : state.InRange block) (fits : block.data.size < 2 ^ 29)
    (config : PlaybackConfig) : (state.step block config).2.InRange block := by
  unfold RawState.step
  split
  · exact range.nextRun fits
  · exact range

end RawState

theorem Track.plays_samples (block : RawDataBlock) (config : PlaybackConfig) :
    ∃ last, Plays config (ofBlock (.rawData block)).cue
      ((block.runLengths block.samples).map .pulse ++ [.pause block.pause config]) last := by
  let track (state : RawState) : Track := ⟨.rawData block, state⟩
  have advance (state : RawState) (aligned : state.Aligned block) :
      (state.remaining block = [] ∧
        ∃ last, (track state).step config = (.pause block.pause config, track last)) ∨
      ∃ tstates next, (track state).step config = (.pulse tstates, track next) ∧
        next.Aligned block ∧ state.remaining block = tstates :: next.remaining block := by
    simp only [track, Track.step, RawState.step]
    cases phase : state.phase with
    | pause => exact .inl ⟨by simp only [RawState.remaining, phase], state, rfl⟩
    | data =>
        obtain ⟨next, left⟩ := aligned.nextRun
        refine .inr ⟨state.runLength, state.nextRun block, rfl, next, ?_⟩
        rw [left]
        simp only [RawState.remaining, phase]
  obtain ⟨aligned, all⟩ := RawState.start_aligned block
  obtain ⟨last, plays⟩ :=
    plays_of_remaining track (fun state => state.remaining block) advance
    (RawState.start block) aligned
  rw [all] at plays
  exact ⟨track last, plays⟩

namespace Tape

variable {tape middle : Tape} {index : Nat} {front : List Edge}

/-- A block has just become the current one: the cursor has come to it, it was put on a
tape without blocks as the first one, or the current block in front of it was
removed. -/
inductive Begins : Tape → Prop where
  | arrived {tape : Tape} (arrived : tape.Arrived) : Begins tape
  | extend {tape : Tape} (tracks : List Track) (nowhere : tape.current = none) :
      Begins (tracks.foldl appendTrack tape)
  | insert {tape after : Tape} {index : Nat} {track : Track} (nowhere : tape.current = none)
      (inserted : tape.insertTrack index track = .ok after) : Begins after
  | remove {tape : Tape} {index : Nat} {answer : Track × Tape} (here : tape.current = some index)
      (removed : tape.removeTrack index = .ok answer) : Begins answer.2

theorem Begins.fresh (begins : tape.Begins) : tape.Fresh := by
  cases begins with
  | arrived arrived => exact arrived.fresh
  | @extend tape tracks nowhere =>
      -- The blocks behind the first one leave it as it is.
      have still : tape.CurrentIs fun track => track.cue = track := by
        simp [CurrentIs, currentTrack?, nowhere]
      have inside : tape.Inside := by simp [Inside, nowhere]
      exact fresh_iff_currentIs.mpr (still.extend (fun _ => rfl) (.inl inside))
  | insert nowhere inserted =>
      obtain ⟨-, ⟨-, rfl⟩ | ⟨current, here, -⟩ | ⟨current, here, -⟩⟩ :=
        insertTrack_ok inserted
      · exact fresh_goTo _ 0
      · rw [nowhere] at here
        cases here
      · rw [nowhere] at here
        cases here
  | @remove tape index answer here removed =>
      obtain ⟨inside, ⟨-, same⟩ | ⟨-, nowhere, -⟩ | ⟨-, current, there, before, -⟩ |
        ⟨place, -, same⟩ | ⟨-, current, there, ahead, -⟩⟩ := removeTrack_ok removed
      · rw [same]
        rfl
      · rw [here] at nowhere
        cases nowhere
      · rw [here] at there
        cases there
        exact absurd before (Nat.lt_irrefl index)
      · rw [same]
        exact fresh_goTo _ place
      · rw [here] at there
        cases there
        exact absurd ahead (Nat.lt_irrefl index)

/-- Up to the end of the current block the cursor stays there, and what every step of
the block keeps is kept. -/
theorem Gives.stays {Holds : Track → Prop} {track : Track}
    (kept : ∀ track config, Holds track → Holds (track.step config).2)
    (gives : tape.Gives front middle) (quiet : ∀ edge ∈ front, edge.flags.block = false)
    (here : tape.current = some index) (there : tape.tracks[index]? = some track)
    (holds : Holds track) :
    middle.current = some index ∧
      ∃ track, middle.tracks[index]? = some track ∧ Holds track := by
  induction gives generalizing track with
  | nil => exact ⟨here, track, there, holds⟩
  | @cons tape next after edge edges played later ih =>
      have goesOn := quiet edge List.mem_cons_self
      rcases nextEdge_ok played with ⟨nowhere, -, -⟩ | ⟨place, inside, at_, outcome⟩
      · rw [here] at nowhere
        cases nowhere
      · rw [here] at at_
        cases at_
        obtain rfl : tape.tracks[index] = track := by
          rw [Array.getElem?_eq_getElem inside] at there
          exact Option.some.inj there
        rcases outcome with ⟨-, -, rfl⟩ | ⟨-, control, move, -, -, followed⟩
        · exact @ih _ (fun edge member => quiet edge (List.mem_cons_of_mem _ member)) here
            (by simp [putTrack, inside]) (kept _ tape.config holds)
        · rw [show edge.flags = (edge.flags, next).1 from rfl, followed,
            block_follow] at goesOn
          cases goesOn

/-- From the moment at which a block of samples becomes the current one the tape gives
an interval for each run of equal samples and the pause, whatever was played before, and
its cursor goes on to the next block. After the last block it goes back to the first
one, and only then the pause ends with the flags that stop the player. Up to then no
number of the state leaves its range. -/
theorem gives_samples {block : RawDataBlock} (begins : tape.Begins)
    (here : tape.current = some index) (found : tape.block? index = some (.rawData block))
    (fits : block.data.size < 2 ^ 29) :
    (∃ after, tape.Gives (block.heard tape.config (decide (index + 1 = tape.size))) after ∧
      after.current = some (if index + 1 = tape.size then 0 else index + 1) ∧
      after.blocks = tape.blocks ∧ after.Arrived) ∧
    ∀ front middle, tape.Gives front middle → (∀ edge ∈ front, edge.flags.block = false) →
      middle.current = some index ∧
        ∃ state, middle.tracks[index]? = some ⟨.rawData block, state⟩ ∧
          RawState.InRange state block := by
  have inside := lt_size_of_block? found
  constructor
  · have ready : tape.At tape tape.toControl index := ⟨rfl, rfl, rfl, here, begins.fresh⟩
    obtain ⟨left, blocks, -, -, visits⟩ := ready.visits_block found
      (rfl : tape.atEnd index (.rawData block) = .ok (tape.toControl, .onTo (index + 1)))
    have size := size_eq_of_blocks blocks
    obtain ⟨_, plays⟩ := Track.plays_samples block tape.config
    obtain ⟨_, whole⟩ := (Block.rawData block).plays_steps tape.config
    cases visits with
    | cons at_ gives single later =>
        cases later
        refine ⟨_, ?_, size ▸ follow_next_snd (size ▸ inside) {}, ?_,
          arrived_of_oneBlock gives single⟩
        · rw [(whole.unique plays).1, Step.edges_concat, follow_next_fst inside,
            block.ending_of_pause, List.map_map] at gives
          exact gives
        · rw [blocks_follow, blocks]
  · intro front middle gives quiet
    obtain ⟨at_, track, there, state, rfl, range⟩ := @Gives.stays tape middle index front
      (fun track => ∃ state : RawState, track = ⟨.rawData block, state⟩ ∧ state.InRange block) _
      (fun track config holds => by
        obtain ⟨state, rfl, range⟩ := holds
        exact ⟨_, rfl, range.step fits config⟩)
      gives quiet here (begins.fresh.track here found) ⟨_, rfl, RawState.inRange_start fits⟩
    exact ⟨at_, state, there, range⟩

/-- A pause, and samples of which two bits of the last octet are used. The last run goes
on from one octet into the other. -/
def threeRuns : Tape :=
  ofBlocks [.pause 5, .rawData {
    sampleLength := 10, pause := 0, usedBits := 2, data := #[0b11100011, 0b11010101] }]

theorem gives_samples_threeRuns :
    ∃ selected, threeRuns.select 1 = .ok selected ∧ selected.Arrived ∧
      (∃ after, selected.Gives
        [⟨30, {}⟩, ⟨30, {}⟩, ⟨40, {}⟩,
          ⟨0, { noEdge := true, block := true, stop := true, tape := true }⟩] after ∧
        after.current = some 0) ∧
      ∃ middle, selected.Gives [⟨30, {}⟩, ⟨30, {}⟩] middle ∧ middle.current = some 1 := by
  have arrived : (threeRuns.goTo 1).Arrived := .select (rfl : threeRuns.select 1 = _)
  obtain ⟨⟨after, gives, current, -, -⟩, stays⟩ :=
    gives_samples (.arrived arrived) rfl rfl (by decide)
  have whole : (threeRuns.goTo 1).Gives
      ([⟨30, {}⟩, ⟨30, {}⟩] ++ [⟨40, {}⟩,
        ⟨0, { noEdge := true, block := true, stop := true, tape := true }⟩]) after := gives
  obtain ⟨middle, front, -⟩ := whole.split
  refine ⟨_, rfl, arrived, ⟨after, whole, current⟩, middle, front, ?_⟩
  exact (stays _ middle front (by simp)).1

end Tape

end ZxMedia
