import ZxMedia.Tape.Block
import ZxMedia.Tape.Edge

/-!
# Signals of blocks

Each kind of signal is played step by step, and a step is an interval of the signal. The
state between steps is a value of its own: `DataState` for coded data, `RawState` for
samples, the number of pulses left for a tone and the index of the next pulse for a
sequence of pulses.

Coded data is a pilot tone, two synchronization pulses, two equal pulses for each bit
and a pause. Sampled data is one interval for each run of equal samples and a pause. A
pause of zero still takes a step, which ends the block without an edge.
-/

namespace ZxMedia

/-- One interval of a block. -/
structure Step where
  tstates : Nat
  flags : EdgeFlags := {}
  /-- Whether the block ends with this interval. -/
  ends : Bool := false
deriving Repr, DecidableEq

namespace Step

/-- A pulse with more to follow. -/
def pulse (tstates : Nat) : Step :=
  { tstates }

/-- The last pulse of a block. -/
def lastPulse (tstates : Nat) : Step :=
  { tstates, ends := true }

/-- The end of a block that takes no time. -/
def control (flags : EdgeFlags) : Step :=
  { tstates := 0, flags := { flags with noEdge := true }, ends := true }

/-- The pause that ends a block. -/
def pause (milliseconds : UInt16) (config : PlaybackConfig) : Step :=
  if milliseconds = 0 then control {} else lastPulse (config.pauseTstates milliseconds.toNat)

end Step

/-- How many bits of the last octet are used: as many as a block says, or all of them
when it says a number that can not be. -/
def lastBits (usedBits : UInt8) : Nat :=
  if 1 ≤ usedBits ∧ usedBits ≤ 8 then usedBits.toNat else 8

/-- The timing of coded data, with the data. -/
structure Coding where
  pilotLength : Nat := 0
  sync1Length : Nat := 0
  sync2Length : Nat := 0
  bit0Length : Nat
  bit1Length : Nat
  pilotPulses : Nat := 0
  usedBits : UInt8 := 8
  pause : UInt16
  data : Octets

/-- The pulses of the pilot tone before a header. -/
def headerPilotPulses : Nat := 8063

/-- The pulses of the pilot tone before data. -/
def dataPilotPulses : Nat := 3223

/-- The pulses of the pilot tone: the flag at the start of the data tells a header from
data. -/
def RomBlock.pilotPulses (block : RomBlock) : Nat :=
  match block.data[0]? with
  | some flag => if 0x80 ≤ flag then dataPilotPulses else headerPilotPulses
  | none => headerPilotPulses

/-- The timing of the machine's own routines. -/
def RomBlock.coding (block : RomBlock) : Coding where
  pilotLength := 2168
  sync1Length := 667
  sync2Length := 735
  bit0Length := 855
  bit1Length := 1710
  pilotPulses := block.pilotPulses
  pause := block.pause
  data := block.data

/-- The timing that a block has of its own. -/
def TurboBlock.coding (block : TurboBlock) : Coding where
  pilotLength := block.pilotLength.toNat
  sync1Length := block.sync1Length.toNat
  sync2Length := block.sync2Length.toNat
  bit0Length := block.bit0Length.toNat
  bit1Length := block.bit1Length.toNat
  pilotPulses := block.pilotPulses.toNat
  usedBits := block.usedBits
  pause := block.pause
  data := block.data

/-- The timing of data without a pilot. -/
def PureDataBlock.coding (block : PureDataBlock) : Coding where
  bit0Length := block.bit0Length.toNat
  bit1Length := block.bit1Length.toNat
  usedBits := block.usedBits
  pause := block.pause
  data := block.data

/-- The parts of coded data, each bit having a first and a second pulse. -/
inductive DataPhase where
  | pilot | sync1 | sync2 | data1 | data2 | pause
deriving Repr, DecidableEq

/-- How far coded data has been played. -/
structure DataState where
  phase : DataPhase := .pilot
  /-- The pulses of the pilot tone that are left. -/
  pulsesLeft : Nat := 0
  /-- The number of octets that were begun. -/
  bytesBegun : Nat := 0
  /-- The bits that are left of the octet that was begun last. -/
  bitsLeft : Nat := 0
  /-- These bits, the next one highest. -/
  register : UInt8 := 0
  /-- The length of both pulses of the present bit. -/
  bitLength : Nat := 0
deriving Repr, DecidableEq

namespace DataState

/-- Moves to the highest bit of the register. -/
def shift (state : DataState) (coding : Coding) : DataState :=
  { state with
    phase := .data1
    bitLength := if 0x80 ≤ state.register then coding.bit1Length else coding.bit0Length
    register := state.register <<< 1
    bitsLeft := state.bitsLeft - 1 }

/-- Moves to the next bit of the data, or to the pause after the last one. -/
def nextBit (state : DataState) (coding : Coding) : DataState :=
  if state.bitsLeft = 0 then
    match coding.data[state.bytesBegun]? with
    | none => { state with phase := .pause }
    | some octet =>
      let begun := state.bytesBegun + 1
      let bits := if begun = coding.data.size then lastBits coding.usedBits else 8
      shift { state with register := octet, bytesBegun := begun, bitsLeft := bits } coding
  else shift state coding

/-- The state before the pilot tone. -/
def start (coding : Coding) : DataState :=
  if coding.pilotPulses = 0 then { phase := .sync1 } else { pulsesLeft := coding.pilotPulses }

/-- The state before the first bit. -/
def startData (coding : Coding) : DataState :=
  nextBit {} coding

/-- Plays one interval. -/
def step (state : DataState) (coding : Coding) (config : PlaybackConfig) :
    Step × DataState :=
  match state.phase with
  | .pilot =>
    let left := state.pulsesLeft - 1
    let phase := if left = 0 then DataPhase.sync1 else state.phase
    (.pulse coding.pilotLength, { state with phase, pulsesLeft := left })
  | .sync1 => (.pulse coding.sync1Length, { state with phase := .sync2 })
  | .sync2 => (.pulse coding.sync2Length, state.nextBit coding)
  | .data1 => (.pulse state.bitLength, { state with phase := .data2 })
  | .data2 => (.pulse state.bitLength, state.nextBit coding)
  | .pause => (.pause coding.pause config, state)

end DataState

/-- The parts of sampled data. -/
inductive RawPhase where
  | data | pause
deriving Repr, DecidableEq

/-- How far sampled data has been played. -/
structure RawState where
  phase : RawPhase := .data
  /-- The octet and the bit of the sample after the present run. -/
  byteIndex : Nat := 0
  bitIndex : Nat := 0
  /-- The level of that sample, if there is one. -/
  level : Bool := false
  /-- The length of the present run in T-states. -/
  runLength : Nat := 0
deriving Repr, DecidableEq

/-- A run of equal samples. -/
structure SampleRun where
  count : Nat
  /-- The octet and the bit of the sample after the run. -/
  byteIndex : Nat
  bitIndex : Nat
deriving Repr, DecidableEq

namespace RawDataBlock

/-- The number of samples in an octet. -/
def bitsIn (block : RawDataBlock) (index : Nat) : Nat :=
  if index + 1 = block.data.size then lastBits block.usedBits else 8

/-- The place of the sample after the one at a place. -/
def after (block : RawDataBlock) (byteIndex bitIndex : Nat) : Nat × Nat :=
  if block.bitsIn byteIndex ≤ bitIndex + 1 then (byteIndex + 1, 0) else (byteIndex, bitIndex + 1)

/-- The level of a sample. There is none behind the data, and an octet has eight at
most. -/
def sampleAt? (block : RawDataBlock) (byteIndex bitIndex : Nat) : Option Bool :=
  if bitIndex < 8 then
    block.data[byteIndex]?.map fun octet => octet.toNat.testBit (7 - bitIndex)
  else none

/-- Counts the samples of a level from a place on, of which there is at least one, and
finds the place after them. Nothing comes of it if the number of a bit would outgrow its
word, if a sample is asked for that is not there, or if the run does not end in so many
steps. -/
def run? (block : RawDataBlock) (level : Bool) : Nat → Nat → Nat → Nat → Option SampleRun
  | 0, _, _, _ => none
  | steps + 1, byteIndex, bitIndex, count =>
    if UInt8.size ≤ bitIndex + 1 then none
    else
      let (byteIndex, bitIndex) := block.after byteIndex bitIndex
      if byteIndex = block.data.size then some { count := count + 1, byteIndex, bitIndex }
      else match block.sampleAt? byteIndex bitIndex with
        | none => none
        | some sample =>
          if sample = level then run? block level steps byteIndex bitIndex (count + 1)
          else some { count := count + 1, byteIndex, bitIndex }

end RawDataBlock

namespace RawState

/-- The next run of samples. An octet has eight samples at most, so the size of the data
bounds the steps. -/
def runAhead? (state : RawState) (block : RawDataBlock) : Option SampleRun :=
  let steps := 8 * (block.data.size - state.byteIndex)
  block.run? state.level steps state.byteIndex state.bitIndex 0

/-- Moves to the next run of samples, or to the pause after the last one. -/
def nextRun (state : RawState) (block : RawDataBlock) : RawState :=
  if block.data.size ≤ state.byteIndex then { state with phase := .pause }
  else match state.runAhead? block with
    | none => state
    | some run =>
      { phase := .data
        byteIndex := run.byteIndex
        bitIndex := run.bitIndex
        level := !state.level
        runLength := min (run.count * block.sampleLength.toNat) maxTstates }

/-- The state before the first run. -/
def start (block : RawDataBlock) : RawState :=
  match block.data[0]? with
  | none => { phase := .pause }
  | some octet => nextRun { level := octet.toNat.testBit 7 } block

/-- Plays one interval. -/
def step (state : RawState) (block : RawDataBlock) (config : PlaybackConfig) :
    Step × RawState :=
  match state.phase with
  | .data => (.pulse state.runLength, state.nextRun block)
  | .pause => (.pause block.pause config, state)

/-- Whether nothing comes of the next run, so that the interval before it can not be
played either. No state that arises by playing is like this. -/
def overflows (state : RawState) (block : RawDataBlock) : Bool :=
  state.phase == .data && state.byteIndex < block.data.size && (state.runAhead? block).isNone

end RawState

/-- Plays one pulse of a tone of which some are left. -/
def stepTone (length : UInt16) (left : Nat) : Step × Nat :=
  match left with
  | 0 => (.control {}, 0)
  | 1 => (.lastPulse length.toNat, 0)
  | left + 1 => (.pulse length.toNat, left)

/-- Plays the pulse at an index. -/
def stepPulses (lengths : Array UInt16) (index : Nat) : Step × Nat :=
  match lengths[index]? with
  | none => (.control {}, index)
  | some length =>
    if index + 1 = lengths.size then (.lastPulse length.toNat, index + 1)
    else (.pulse length.toNat, index + 1)

namespace Block

/-- How far a block has been played: what there is to know depends on the block. -/
def Progress : Block → Type
  | rom _ => DataState
  | turbo _ => DataState
  | pureData _ => DataState
  | rawData _ => RawState
  | pureTone _ _ => Nat
  | pulses _ => Nat
  | _ => Unit

/-- The progress of a block that has never been made ready. -/
def blank : (block : Block) → block.Progress
  | rom _ => ({} : DataState)
  | turbo _ => ({} : DataState)
  | pureData _ => ({} : DataState)
  | rawData _ => ({} : RawState)
  | pureTone _ count => count.toNat
  | pulses _ => (0 : Nat)
  | pause _ | groupStart _ | groupEnd | jump _ | loopStart _ | loopEnd | callSequence _
  | callReturn | select _ | stopIf48k | setSignalLevel _ | comment _ | message _ _
  | archiveInfo _ | hardware _ | custom _ _ | unsupported _ _ => ()

/-- The progress of a block before its first interval. -/
def start : (block : Block) → block.Progress
  | rom block => DataState.start block.coding
  | turbo block => DataState.start block.coding
  | pureData block => DataState.startData block.coding
  | rawData block => RawState.start block
  | pureTone _ count => count.toNat
  | pulses _ => (0 : Nat)
  | pause _ | groupStart _ | groupEnd | jump _ | loopStart _ | loopEnd | callSequence _
  | callReturn | select _ | stopIf48k | setSignalLevel _ | comment _ | message _ _
  | archiveInfo _ | hardware _ | custom _ _ | unsupported _ _ => ()

end Block

/-- A block on a tape, and how far it has been played. -/
structure Track where
  block : Block
  progress : block.Progress

namespace Track

/-- A block that has never been made ready. -/
def ofBlock (block : Block) : Track :=
  ⟨block, block.blank⟩

/-- The block made ready to be played from its beginning. -/
def cue (track : Track) : Track :=
  ⟨track.block, track.block.start⟩

@[simp] theorem block_ofBlock (block : Block) : (ofBlock block).block = block := rfl

@[simp] theorem block_cue (track : Track) : track.cue.block = track.block := rfl

/-- Being made ready leaves no trace of what was played before. -/
theorem cue_eq {first second : Track} (same : first.block = second.block) :
    first.cue = second.cue := by
  unfold cue
  rw [same]

/-- Plays one interval. Blocks that only control the player or inform end at once. -/
def step (track : Track) (config : PlaybackConfig) : Step × Track :=
  match track with
  | ⟨.rom block, state⟩ =>
    let (step, state) := DataState.step state block.coding config
    (step, ⟨.rom block, state⟩)
  | ⟨.turbo block, state⟩ =>
    let (step, state) := DataState.step state block.coding config
    (step, ⟨.turbo block, state⟩)
  | ⟨.pureData block, state⟩ =>
    let (step, state) := DataState.step state block.coding config
    (step, ⟨.pureData block, state⟩)
  | ⟨.rawData block, state⟩ =>
    let (step, state) := RawState.step state block config
    (step, ⟨.rawData block, state⟩)
  | ⟨.pureTone length pulses, left⟩ =>
    let (step, left) := stepTone length left
    (step, ⟨.pureTone length pulses, left⟩)
  | ⟨.pulses lengths, index⟩ =>
    let (step, index) := stepPulses lengths index
    (step, ⟨.pulses lengths, index⟩)
  | ⟨.pause milliseconds, _⟩ =>
    let step : Step :=
      if milliseconds = 0 then .control { stop := true }
      else
        { tstates := config.pauseTstates milliseconds.toNat
          flags := { levelLow := true }
          ends := true }
    (step, track)
  | ⟨.stopIf48k, _⟩ => (.control { stop48 := true }, track)
  | ⟨.setSignalLevel high, _⟩ =>
    (.control (if high then { levelHigh := true } else { levelLow := true }), track)
  | _ => (.control {}, track)

@[simp] theorem block_step (track : Track) (config : PlaybackConfig) :
    (track.step config).2.block = track.block := by
  unfold step
  split <;> rfl

/-- Whether the next interval of a block can not be played, as a number would outgrow
its word or an index the data. -/
def overflows : Track → Bool
  | ⟨.rawData block, state⟩ => RawState.overflows state block
  | _ => false

end Track

end ZxMedia
