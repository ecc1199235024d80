import Mathlib
import ZxMedia.Proofs.Tape.PulseReader
import ZxMedia.Proofs.Tape.Receiving

/-!
# From one tape to another

A reader gives the pulses of a tape of blocks with the timing of the machine
(`RomBlock.pulses`) block by block. A recorder that hears them puts the same data on its
tape again: between two blocks it is at rest or holds all octets of the block before,
and then the pause after the block or the tone of the next one makes it put the block on
the tape.
-/

namespace ZxMedia

namespace RomBlock

/-- The pulses of a block and of the pause after it, if that takes any time. -/
def pulses (block : RomBlock) : List Nat :=
  block.coding.pulses ++
    if block.pause = 0 then [] else [({} : PlaybackConfig).pauseTstates block.pause.toNat]

variable {block : RomBlock} {blocks : List RomBlock} {tstates : Nat}

theorem bits_coding (block : RomBlock) :
    block.coding.bits = block.data.toList.flatMap (octetBits 8) := by
  have all (octets : List UInt8) : dataBits 8 octets = octets.flatMap (octetBits 8) := by
    induction octets with
    | nil => rfl
    | cons octet octets ih => rw [dataBits, ite_self, ih, List.flatMap_cons]
  exact all block.data.toList

theorem pulses_coding (block : RomBlock) :
    block.coding.pulses = List.replicate block.pilotPulses 2168 ++ [667, 735] ++
      block.coding.bitPulses (block.data.toList.flatMap (octetBits 8)) := by
  rw [← bits_coding]
  rfl

theorem pilotPulses_bounds (block : RomBlock) : 3223 ≤ block.pilotPulses := by
  unfold pilotPulses dataPilotPulses headerPilotPulses
  split
  · split <;> decide
  · decide

/-- No pulse of a block is longer than the ones of its tone. -/
theorem coding_pulses_bounds (member : tstates ∈ block.coding.pulses) :
    0 < tstates ∧ tstates ≤ 2168 := by
  simp only [Coding.pulses, Coding.bitPulses, Coding.bitLength, coding, List.mem_append,
    List.mem_replicate, List.mem_cons, List.mem_flatMap, List.not_mem_nil, or_false, or_self]
    at member
  rcases member with (⟨-, rfl⟩ | rfl | rfl) | ⟨bit, -, rfl⟩
  · decide
  · decide
  · decide
  · split <;> decide

/-- The shortest pause is longer than every pulse. -/
theorem pauseTstates_bounds {milliseconds : UInt16} (some : milliseconds ≠ 0) :
    3494 ≤ ({} : PlaybackConfig).pauseTstates milliseconds.toNat := by
  have positive : milliseconds.toNat ≠ 0 := by
    intro zero
    exact some (UInt16.toNat_inj.mp zero)
  unfold PlaybackConfig.pauseTstates maxTstates UInt32.size
  dsimp only
  omega

/-- Every pulse is one of the signal or a pause, and these cannot be confused. -/
theorem pulses_bounds (member : tstates ∈ block.pulses) :
    0 < tstates ∧ (tstates ≤ 2168 ∨ 3494 ≤ tstates) := by
  rcases List.mem_append.mp member with signal | pause
  · have bounds := coding_pulses_bounds signal
    exact ⟨bounds.1, .inl bounds.2⟩
  · split at pause
    next => cases pause
    next some =>
      have long := pauseTstates_bounds some
      rw [List.mem_singleton.mp pause]
      exact ⟨by omega, .inr long⟩

end RomBlock

/-! ## Playing -/

namespace PulseReader

variable {block : RomBlock} {blocks : List RomBlock}

theorem pulsesOf_romEdges (blocks : List RomBlock) :
    pulsesOf (Tape.romEdges {} blocks) = blocks.flatMap RomBlock.pulses := by
  induction blocks with
  | nil => rfl
  | cons block blocks ih =>
      have signal : pulsesOf (block.coding.pulses.map fun tstates => { tstates }) =
          block.coding.pulses := by
        rw [pulsesOf, List.map_map]
        have same : (Edge.tstates ∘ fun tstates => ({ tstates } : Edge)) = id := rfl
        rw [same, List.map_id, List.filter_eq_self]
        intro tstates member
        simpa using (RomBlock.coding_pulses_bounds member).1.ne'
      rw [Tape.romEdges, pulsesOf_append, pulsesOf_cons, signal, ih, List.flatMap_cons,
        RomBlock.pulses]
      by_cases none : block.pause = 0
      · simp [none, pulseOf, Tape.pauseEdge, Step.pause, Step.control]
      · have long := RomBlock.pauseTstates_bounds none
        have some : ¬({} : PlaybackConfig).pauseTstates block.pause.toNat = 0 := by omega
        simp [none, some, pulseOf, Tape.pauseEdge, Step.pause, Step.lastPulse]

theorem signal_plain {edge : Edge}
    (member : edge ∈ block.coding.pulses.map fun tstates => ({ tstates } : Edge)) :
    edge.Plain ∧ ∀ stopOn48k, edge.stops stopOn48k = false := by
  obtain ⟨tstates, inside, rfl⟩ := List.mem_map.mp member
  have bounds := RomBlock.coding_pulses_bounds inside
  refine ⟨⟨?_, nofun⟩, ?_⟩
  · unfold maxTstates UInt32.size
    dsimp only
    omega
  · intro stopOn48k
    cases stopOn48k <;> rfl

theorem pause_plain (milliseconds : UInt16) (config : PlaybackConfig) (ended : Bool) :
    (Tape.pauseEdge milliseconds config ended).Plain ∧
      ∀ stopOn48k, (Tape.pauseEdge milliseconds config ended).stops stopOn48k =
        ended := by
  unfold Tape.pauseEdge Step.pause Edge.stops
  by_cases none : milliseconds = 0
  · rw [if_pos none]
    exact ⟨⟨Nat.zero_le _, fun _ => rfl⟩, by simp [Step.control]⟩
  · rw [if_neg none]
    exact ⟨⟨config.pauseTstates_le _, nofun⟩, by simp [Step.lastPulse]⟩

/-- A tape of blocks stops with its last edge and not before. -/
theorem romEdges_concat (block : RomBlock) (blocks : List RomBlock)
    (config : PlaybackConfig) :
    ∃ front final, Tape.romEdges config (block :: blocks) = front ++ [final] ∧
      (∀ edge ∈ front ++ [final], edge.Plain) ∧
      (∀ edge ∈ front, ∀ stopOn48k, edge.stops stopOn48k = false) ∧
      ∀ stopOn48k, final.stops stopOn48k = true := by
  induction blocks generalizing block with
  | nil =>
      obtain ⟨plain, stops⟩ := pause_plain block.pause config true
      refine ⟨_, _, rfl, ?_, fun edge member => (signal_plain member).2, stops⟩
      intro edge member
      rcases List.mem_append.mp member with signal | pause
      · exact (signal_plain signal).1
      · rw [List.mem_singleton.mp pause]
        exact plain
  | cons following blocks ih =>
      obtain ⟨front, final, same, others, goesOn, stops⟩ := ih following
      obtain ⟨plain, goesOver⟩ := pause_plain block.pause config false
      rw [Tape.romEdges, same, ← List.cons_append, ← List.append_assoc]
      refine ⟨_, final, rfl, ?_, ?_, stops⟩
      · intro edge member
        rw [List.append_assoc, List.cons_append] at member
        rcases List.mem_append.mp member with signal | rest
        · exact (signal_plain signal).1
        · rcases List.mem_cons.mp rest with rfl | later
          · exact plain
          · exact others edge later
      · intro edge member
        rcases List.mem_append.mp member with signal | rest
        · exact (signal_plain signal).2
        · rcases List.mem_cons.mp rest with rfl | later
          · exact goesOver
          · exact goesOn edge later

/-- A reader gives the pulses of all blocks on a tape, and nothing goes wrong. -/
theorem yieldsAll_ofBlocks {blocks : List RomBlock} (some : blocks ≠ [])
    (stopOn48k : Bool) :
    ∃ patience last,
      YieldsAll patience (ofTape (.ofBlocks (blocks.map .rom)) stopOn48k)
        (blocks.flatMap RomBlock.pulses) last ∧ last.error = none := by
  cases blocks with
  | nil => exact absurd rfl some
  | cons block blocks =>
      obtain ⟨ready, config⟩ := Tape.ready_ofBlocks block blocks
      obtain ⟨after, gives⟩ := ready.gives some
      obtain ⟨front, final, same, plain, goesOn, stops⟩ := romEdges_concat block blocks {}
      rw [config, same] at gives
      obtain ⟨middle, first, last⟩ := gives.split
      have plays :
          PlaysOut stopOn48k (.ofBlocks ((block :: blocks).map .rom)) (front ++ [final])
          after none := by
        cases last with
        | cons played later =>
            cases later
            exact (PlaysOut.stop played (stops stopOn48k)).behind first
              fun edge member => goesOn edge member stopOn48k
      obtain ⟨patience, last, yields, -, -, fine⟩ := plays.yieldsAll plain
      rw [← same, pulsesOf_romEdges] at yields
      exact ⟨patience, last, yields, fine⟩

end PulseReader

/-! ## Recording -/

namespace Recorder

variable {recorder received : Recorder} {session middle after : Session}
    {pulses : List Nat}
variable {front back : List Nat} {tstates : Nat}

/-- The session hears all of these pulses, even if others are delivered together with
them. -/
structure Session.Hears (session : Session) (pulses : List Nat)
    (after : Session) : Prop where
  heard : ∀ others, session.recorder.heard (pulses ++ others) =
    pulses ++ after.recorder.heard others
  hears : pulses.foldl Session.hear session = after

theorem Session.Hears.nil (session : Session) : session.Hears [] session where
  heard _ := rfl
  hears := rfl

theorem Session.Hears.append (first : session.Hears front middle)
    (later : middle.Hears back after) : session.Hears (front ++ back) after where
  heard others := by rw [List.append_assoc, first.heard, later.heard, List.append_assoc]
  hears := by rw [List.foldl_append, first.hears, later.hears]

theorem Receives.hears (receives : recorder.Receives pulses received) (tape : Tape)
    (count : Nat) :
    Session.Hears { recorder, tape, count } pulses { recorder := received, tape, count } := by
  induction receives with
  | nil => exact .nil _
  | @cons recorder middle received tstates pulses taken later ih =>
      constructor
      · intro others
        simp only [List.cons_append, heard, taken, ih.heard]
      · rw [List.foldl_cons, Session.hear, taken]
        exact ih.hears

/-- The recorder waits for a tone. -/
def Rests (recorder : Recorder) : Prop :=
  recorder = recorder.reset

/-- The recorder has received whole octets, and nothing behind them. -/
def HoldsOctets (recorder : Recorder) : Prop :=
  recorder.state = .data 0 0 ∧ recorder.data ≠ #[]

theorem Rests.block?_eq_none (rests : recorder.Rests) : recorder.block? = none := by
  rw [rests]
  rfl

theorem Rests.finish (rests : session.recorder.Rests) : session.finish = session := by
  unfold Session.finish
  rw [rests.block?_eq_none]
  exact congrArg (fun recorder => ({ session with recorder } : Session)) rests.symm

theorem rests_finish (session : Session) : session.finish.recorder.Rests := by
  unfold Session.finish
  split <;> rfl

theorem pause_finish (session : Session) :
    session.finish.recorder.pause = session.recorder.pause := by
  unfold Session.finish
  split <;> rfl

theorem take_outside {bits : UInt8} {count : Nat} {data : Octets} {pause : UInt16}
    (outside : isDataPulse tstates = false) :
    take { state := .data bits count, data, pause } tstates = .ends := by
  unfold take intake takeData
  simp [outside]

/-- A pulse that fits nothing ends a transfer, whatever was received of it. -/
theorem Sound.rests_hear (sound : session.recorder.Sound) (long : 2418 ≤ tstates) :
    (session.hear tstates).recorder.Rests := by
  obtain ⟨⟨state, data, pause⟩, tape, count⟩ := session
  have noData : isDataPulse tstates = false := by simp [isDataPulse]; omega
  have noLead : isLeadPulse tstates = false := by simp [isLeadPulse]; omega
  have noSync1 : isSync1Pulse tstates = false := by simp [isSync1Pulse]; omega
  have noSync2 : isSync2Pulse tstates = false := by simp [isSync2Pulse]; omega
  cases state with
  | data bits pulses =>
      unfold Session.hear
      rw [take_outside noData]
      exact rests_finish _
  | _ =>
      obtain rfl : data = #[] := sound.held rfl
      simp [Session.hear, take, Recorder.intake, Recorder.takeSync, Rests,
        reset, noData, noLead, noSync1, noSync2]

/-- A pulse that is no data ends a transfer of whole octets, and what follows is heard,
too. -/
theorem HoldsOctets.hears_end (holds : session.recorder.HoldsOctets)
    (other : isDataPulse tstates = false) : session.Hears [tstates] session.finish := by
  obtain ⟨⟨state, data, pause⟩, tape, count⟩ := session
  obtain ⟨rfl, some⟩ := holds
  have ends : take { state := .data 0 0, data, pause } tstates = .ends :=
    take_outside other
  have block : block? { state := .data 0 0, data, pause } = Option.some (.rom { pause, data }) := by
    simp [block?, received, Array.isEmpty_iff, show data ≠ #[] from some]
  constructor
  · intro others
    simp only [List.cons_append, List.nil_append, heard, ends, block, Session.finish]
  · simp only [List.foldl_cons, List.foldl_nil, Session.hear, ends]

/-- The pulses of bits are taken for the bits. -/
theorem codesAll_bitPulses (block : RomBlock) (bits : List Bool) :
    CodesAll bits (block.coding.bitPulses bits) := by
  induction bits with
  | nil => exact .nil
  | cons bit bits ih =>
      have coded : Codes bit (block.coding.bitLength bit) := by
        cases bit <;> exact ⟨rfl, rfl⟩
      exact .cons coded coded ih

variable {block : RomBlock}

/-- The signal of a block is heard up to its last octet, even if a part of the tone is
missing. -/
theorem Rests.hears_signal (rests : session.recorder.Rests) (full : block.data ≠ #[])
    {tone : Nat}
    (long : minLead ≤ tone) :
    session.Hears
      (List.replicate tone 2168 ++ [667, 735] ++
        block.coding.bitPulses (block.data.toList.flatMap (octetBits 8)))
      { session with
        recorder :=
          { state := .data 0 0, data := block.data, pause := session.recorder.pause } } := by
  have lead : ∀ tstates ∈ List.replicate tone 2168, isLeadPulse tstates = true := by
    intro tstates member
    rw [List.eq_of_mem_replicate member]
    rfl
  have some : block.data.toList ≠ [] := by simpa using full
  have enough : minLead ≤ (List.replicate tone 2168).length := by simpa using long
  have receives :=
    @receives_transfer session.recorder.pause _ _ 667 735 _ lead enough rfl rfl
    (codesAll_bitPulses block _) some
  have hears := receives.hears session.tape session.count
  rwa [show ({ pause := session.recorder.pause } : Recorder) = session.recorder from rests.symm]
    at hears

/-- The signal of a block ends the transfer of the one before, and its octets are
received. -/
theorem hears_coding (between : session.recorder.Rests ∨ session.recorder.HoldsOctets)
    (full : block.data ≠ #[]) :
    session.Hears block.coding.pulses
      { session.finish with
        recorder :=
          { state := .data 0 0, data := block.data, pause := session.recorder.pause } } := by
  have long := block.pilotPulses_bounds
  rw [RomBlock.pulses_coding]
  rcases between with rests | holds
  · rw [rests.finish]
    apply rests.hears_signal full
    unfold minLead
    omega
  · -- The first pulse of the tone ends the transfer before, and the others are long
    -- enough a tone.
    obtain ⟨tone, same⟩ : ∃ tone, block.pilotPulses = tone + 1 :=
      ⟨block.pilotPulses - 1, by omega⟩
    have ended := holds.hears_end (rfl : isDataPulse 2168 = false)
    have enough : minLead ≤ tone := by
      unfold minLead
      omega
    have signal := (rests_finish session).hears_signal full enough
    rw [pause_finish] at signal
    rw [same, List.replicate_succ, List.cons_append, List.cons_append]
    exact ended.append signal

/-- What a recorder makes of a block. -/
def copyOf (pause : UInt16) (block : RomBlock) : Block :=
  .rom { pause, data := block.data }

/-- A block is heard. When the transfer has ended, it is on the tape behind the one
before. -/
theorem hears_block (between : session.recorder.Rests ∨ session.recorder.HoldsOctets)
    (full : block.data ≠ #[]) :
    ∃ after, session.Hears block.pulses after ∧
      (after.recorder.Rests ∨ after.recorder.HoldsOctets) ∧
      after.recorder.pause = session.recorder.pause ∧
      after.finish.tape =
        session.finish.tape.append (copyOf session.recorder.pause block) := by
  have hears := hears_coding between full
  generalize middle_eq : ({ session.finish with
    recorder := { state := .data 0 0, data := block.data, pause := session.recorder.pause } } :
      Session) = middle at hears
  have holds : middle.recorder.HoldsOctets := by
    rw [← middle_eq]
    exact ⟨rfl, full⟩
  have pause : middle.recorder.pause = session.recorder.pause := by rw [← middle_eq]
  have written : middle.finish.tape =
      session.finish.tape.append (copyOf session.recorder.pause block) := by
    rw [← middle_eq]
    simp [Session.finish, block?, received, full, copyOf]
  unfold RomBlock.pulses
  split
  next none =>
    rw [List.append_nil]
    exact ⟨middle, hears, .inr holds, pause, written⟩
  next some =>
    have long := RomBlock.pauseTstates_bounds some
    have other :
        isDataPulse (({} : PlaybackConfig).pauseTstates block.pause.toNat) = false := by
      simp only [isDataPulse, Bool.and_eq_false_iff, decide_eq_false_iff_not]
      omega
    have rests := rests_finish middle
    refine ⟨middle.finish, hears.append (holds.hears_end other), .inl rests, ?_, ?_⟩
    · rw [pause_finish, pause]
    · rw [rests.finish, written]

/-- All blocks of a tape are heard. When the last transfer has ended, they are on the
tape one behind the other. -/
theorem hears_blocks {blocks : List RomBlock}
    (between : session.recorder.Rests ∨ session.recorder.HoldsOctets)
    (full : ∀ block ∈ blocks, block.data ≠ #[]) :
    ∃ after, session.Hears (blocks.flatMap RomBlock.pulses) after ∧
      after.finish.tape =
        session.finish.tape.extend (blocks.map (copyOf session.recorder.pause)) := by
  induction blocks generalizing session with
  | nil => exact ⟨session, .nil session, rfl⟩
  | cons block blocks ih =>
      obtain ⟨middle, hears, between, pause, written⟩ :=
        hears_block between (full block List.mem_cons_self)
      obtain ⟨after, later, others⟩ :=
        ih between fun block member => full block (List.mem_cons_of_mem _ member)
      refine ⟨after, hears.append later, ?_⟩
      rw [others, pause, written]
      rfl

end Recorder

end ZxMedia
