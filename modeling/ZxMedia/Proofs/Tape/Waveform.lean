import ZxMedia.Proofs.Tape.Circle

/-!
# The waveform of coded data

What is heard of a block of coded data is told by its fields alone: the pilot tone and
the two synchronization pulses if it has any, two equal pulses for each bit, the highest
bit of an octet first, and the pause. A tape gives exactly this from the moment at which
its cursor comes to the block, in whatever way it does, and then the cursor goes on to
the next block.
-/

namespace ZxMedia

/-! ## What is heard of a block -/

/-- The parts of a signal of coded data. -/
structure Waveform where
  /-- The pulses in front of the data. -/
  lead : List Nat := []
  bits : List Bool
  /-- The lengths of both pulses of a zero and of a one. -/
  zero : Nat
  one : Nat
  /-- The pause in milliseconds. -/
  pause : UInt16

namespace Waveform

/-- The pulses one after another, two of them for each bit. -/
def pulses (wave : Waveform) : List Nat :=
  wave.lead ++ wave.bits.flatMap fun bit => List.replicate 2 (if bit then wave.one else wave.zero)

/-- The interval that ends the block, which may be the last one of the tape. Without a
pause it takes no time and has no edge. -/
def ending (wave : Waveform) (config : PlaybackConfig) (last : Bool) : Edge :=
  let flags : EdgeFlags := { block := true, stop := last, tape := last }
  if wave.pause = 0 then ⟨0, { flags with noEdge := true }⟩
  else ⟨config.pauseTstates wave.pause.toNat, flags⟩

/-- The intervals of the block. -/
def edges (wave : Waveform) (config : PlaybackConfig) (last : Bool) : List Edge :=
  wave.pulses.map (fun tstates => ⟨tstates, {}⟩) ++ [wave.ending config last]

end Waveform

/-- How many bits of the last octet are heard, if the block says so many. -/
def heardBits (said : UInt8) : Nat :=
  if said = 0 ∨ 8 < said then 8 else said.toNat

/-- The signal of a block of coded data. The routines of the machine have a long tone in
front of a header, whose first octet has its highest bit clear, and in front of nothing
at all. -/
def Block.waveform? : Block → Option Waveform
  | rom block =>
    let isData := block.data.toList.head?.any fun flag => flag.toNat.testBit 7
    some {
      lead := List.replicate (if isData then 3223 else 8063) 2168 ++ [667, 735]
      bits := dataBits 8 block.data.toList
      zero := 855
      one := 1710
      pause := block.pause }
  | turbo block => some {
      lead := List.replicate block.pilotPulses.toNat block.pilotLength.toNat
        ++ [block.sync1Length.toNat, block.sync2Length.toNat]
      bits := dataBits (heardBits block.usedBits) block.data.toList
      zero := block.bit0Length.toNat
      one := block.bit1Length.toNat
      pause := block.pause }
  | pureData block => some {
      bits := dataBits (heardBits block.usedBits) block.data.toList
      zero := block.bit0Length.toNat
      one := block.bit1Length.toNat
      pause := block.pause }
  | _ => none

theorem heardBits_eq (said : UInt8) : heardBits said = lastBits said := by
  revert said
  decide +kernel

theorem testBit_seven (octet : UInt8) :
    octet.toNat.testBit 7 = decide (0x80 ≤ octet) := by
  revert octet
  decide +kernel

/-- The flag at the start of the data tells which tone the routines of the machine
have. -/
theorem RomBlock.pilotPulses_eq (block : RomBlock) :
    block.pilotPulses =
      if block.data.toList.head?.any fun flag => flag.toNat.testBit 7 then 3223 else 8063 := by
  have first : block.data[0]? = block.data.toList.head? := by
    rw [List.head?_eq_getElem?, Array.getElem?_toList]
  unfold pilotPulses
  rw [first]
  cases block.data.toList.head? with
  | none => rfl
  | some flag => simp [testBit_seven, dataPilotPulses, headerPilotPulses]

/-- The pulses that are heard are those that the timing of the block gives. -/
theorem Block.signal?_of_waveform? {block : Block} {wave : Waveform}
    (coded : block.waveform? = some wave) :
    ∃ coding, block.signal? = some (coding, wave.pulses) ∧ coding.pause = wave.pause := by
  cases block with
  | rom block =>
      cases coded
      refine ⟨block.coding, ?_, rfl⟩
      simp only [signal?, Waveform.pulses, ← block.pilotPulses_eq]
      rfl
  | turbo block =>
      cases coded
      refine ⟨block.coding, ?_, rfl⟩
      simp only [signal?, Waveform.pulses, heardBits_eq]
      rfl
  | pureData block =>
      cases coded
      refine ⟨block.coding, ?_, rfl⟩
      simp only [signal?, Waveform.pulses, heardBits_eq]
      rfl
  | _ => cases coded

namespace Tape

variable {tape after : Tape} {index : Nat} {block : Block} {edge : Edge}

/-! ## Coming to a block -/

/-- The cursor has just come to a block: the first one was put on the tape, the block
was selected, the tape was rewound, or the interval that was played last has ended a
block. The end of a block leads to the next one, or to another one by a jump, a call or
a loop. -/
inductive Arrived : Tape → Prop where
  | append {tape : Tape} (track : Track) (nowhere : tape.current = none) :
      Arrived (tape.appendTrack track)
  | select {tape after : Tape} {index : Nat} (selected : tape.select index = .ok after) :
      Arrived after
  | rewind {tape : Tape} (filled : tape.size ≠ 0) : Arrived tape.rewind
  | nextEdge {tape after : Tape} {edge : Edge} (played : tape.nextEdge = .ok (edge, after))
      (ended : edge.flags.block = true) : Arrived after

theorem unmarked_step (track : Track) (config : PlaybackConfig) :
    (track.step config).1.flags.block = false ∧
    (track.step config).1.flags.tape = false := by
  have pause (milliseconds : UInt16) :
      (Step.pause milliseconds config).flags.block = false ∧
      (Step.pause milliseconds config).flags.tape = false := by
    unfold Step.pause
    split <;> exact ⟨rfl, rfl⟩
  have data (state : DataState) (coding : Coding) :
      (state.step coding config).1.flags.block = false ∧
        (state.step coding config).1.flags.tape = false := by
    unfold DataState.step
    cases state.phase with
    | pause => exact pause coding.pause
    | _ => exact ⟨rfl, rfl⟩
  obtain ⟨block, progress⟩ := track
  cases block with
  | rom block => exact data progress block.coding
  | turbo block => exact data progress block.coding
  | pureData block => exact data progress block.coding
  | rawData block =>
      simp only [Track.step, RawState.step]
      split
      · exact ⟨rfl, rfl⟩
      · exact pause _
  | pureTone length pulses =>
      simp only [Track.step, stepTone]
      split <;> exact ⟨rfl, rfl⟩
  | pulses lengths =>
      simp only [Track.step, stepPulses]
      split
      · exact ⟨rfl, rfl⟩
      · split <;> exact ⟨rfl, rfl⟩
  | pause milliseconds =>
      simp only [Track.step]
      split <;> exact ⟨rfl, rfl⟩
  | setSignalLevel high => cases high <;> exact ⟨rfl, rfl⟩
  | _ => exact ⟨rfl, rfl⟩

theorem Arrived.fresh (arrived : tape.Arrived) : tape.Fresh := by
  cases arrived with
  | append track nowhere =>
      unfold appendTrack
      simp only [nowhere]
      exact fresh_goTo _ 0
  | select selected =>
      unfold Tape.select at selected
      split at selected
      next =>
        cases selected
        exact fresh_goTo _ _
      next => cases selected
  | rewind filled =>
      unfold Tape.rewind
      dsimp only
      split
      next empty => exact absurd empty filled
      next => exact fresh_goTo _ 0
  | @nextEdge before _ edge played ended =>
      rcases nextEdge_ok played with ⟨-, rfl, -⟩ | ⟨index, inside, -, outcome⟩
      · cases ended
      · rcases outcome with ⟨-, rfl, -⟩ | ⟨-, control, move, -, -, followed⟩
        · rw [(unmarked_step _ _).1] at ended
          cases ended
        · rw [show tape = (edge.flags, tape).2 from rfl, followed]
          exact fresh_follow _ move _

theorem Fresh.track (fresh : tape.Fresh) (here : tape.current = some index)
    (found : tape.block? index = some block) :
    tape.tracks[index]? = some (Track.ofBlock block).cue := by
  obtain ⟨track, there, rfl⟩ := Option.map_eq_some_iff.mp found
  have cued : tape.currentTrack? = some track := by
    simp [currentTrack?, here, there]
  unfold Fresh at fresh
  rw [cued, Option.map_some, Option.some.injEq] at fresh
  rw [there, ← Track.cue_eq (Track.block_ofBlock track.block).symm, fresh]

/-! ## Playing it -/

theorem follow_next_snd (inside : index < tape.size) (flags : EdgeFlags) :
    (tape.follow (.onTo (index + 1)) flags).2.current =
      some (if index + 1 = tape.size then 0 else index + 1) := by
  unfold follow
  dsimp only
  by_cases last : index + 1 = tape.size
  · rw [if_neg (by omega), if_pos last]
    rfl
  · rw [if_pos (by omega), if_neg last]
    rfl

theorem ending_of_pause (wave : Waveform) (config : PlaybackConfig) (last : Bool) :
    (let pause := Step.pause wave.pause config
     (⟨pause.tstates, { pause.flags with
        block := true
        stop := pause.flags.stop || last
        tape := pause.flags.tape || last }⟩ : Edge)) =
      wave.ending config last := by
  unfold Waveform.ending Step.pause
  by_cases none : wave.pause = 0
  · simp [none, Step.control]
  · simp [none, Step.lastPulse]

/-- From the moment at which the cursor comes to a block of coded data the tape gives
the waveform of the block, whatever was played before, and its cursor goes on to the
next block. After the last block it goes back to the first one, and only then the
waveform ends with the flags that stop the player. -/
theorem gives_waveform {wave : Waveform} (arrived : tape.Arrived)
    (here : tape.current = some index) (found : tape.block? index = some block)
    (coded : block.waveform? = some wave) :
    ∃ after, tape.Gives (wave.edges tape.config (decide (index + 1 = tape.size))) after ∧
      after.current = some (if index + 1 = tape.size then 0 else index + 1) ∧
      after.blocks = tape.blocks ∧ after.Arrived := by
  obtain ⟨coding, signal, pause⟩ := Block.signal?_of_waveform? coded
  have cued := arrived.fresh.track here found
  have inside : index < tape.size := (Array.getElem?_eq_some_iff.mp cued).1
  obtain ⟨last, same, plays⟩ := Track.plays_cue signal tape.config
  have ending : tape.atEnd index (Track.ofBlock block).cue.block =
      .ok (tape.toControl, .onTo (index + 1)) := by
    cases block with
    | rom | turbo | pureData => rfl
    | _ => cases coded
  have gives := gives_block here cued (Track.playable_cue _) plays ending
  have edges : Step.edges (fun flags => (tape.follow (.onTo (index + 1)) flags).1)
      (coding.stepsOf tape.config wave.pulses) =
        wave.edges tape.config (decide (index + 1 = tape.size)) := by
    rw [Coding.stepsOf, Step.edges_concat, pause, follow_next_fst inside, Waveform.edges,
      ← ending_of_pause, List.map_map]
    rfl
  rw [edges] at gives
  refine ⟨_, gives, ?_, gives.keeps.1, ?_⟩
  · have size :
        ((tape.putTrack index last).withControl tape.toControl).size = tape.size :=
      size_putTrack tape index last
    have current :=
      @follow_next_snd ((tape.putTrack index last).withControl tape.toControl) index
      (size ▸ inside) {}
    rwa [size] at current
  · obtain ⟨middle, -, final⟩ := gives.split
    cases final with
    | cons played later =>
        cases later
        refine .nextEdge played ?_
        unfold Waveform.ending
        split <;> rfl

/-- A pause, and data in a coding of its own of which two bits of the last octet are
used. -/
def signalled : Tape :=
  ofBlocks [.pause 5, .turbo {
    pilotLength := 100, sync1Length := 10, sync2Length := 20, bit0Length := 30, bit1Length := 60
    pilotPulses := 2, usedBits := 2, pause := 1, data := #[0xC0, 0x80] }]

theorem gives_waveform_signalled :
    ∃ selected, signalled.select 1 = .ok selected ∧ selected.Arrived ∧
      ∃ after, selected.Gives
        ([100, 100, 10, 20, 60, 60, 60, 60, 30, 30, 30, 30, 30, 30, 30, 30, 30, 30, 30, 30,
          60, 60, 30, 30].map (fun tstates => ⟨tstates, {}⟩) ++
          [⟨3494, { block := true, stop := true, tape := true }⟩]) after ∧
        after.current = some 0 := by
  have arrived : (signalled.goTo 1).Arrived := .select (rfl : signalled.select 1 = _)
  obtain ⟨after, gives, current, -, -⟩ := gives_waveform arrived rfl rfl rfl
  exact ⟨_, rfl, arrived, after, gives, current⟩

end Tape

end ZxMedia
