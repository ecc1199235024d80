import ZxMedia.Proofs.Tape.Cursor
import ZxMedia.Proofs.Tape.Edges

/-!
# The end of a tape

A block that can be played comes to its end, whatever it is: every step of it that is
not the last one lowers a bound of the steps that are left. So a tape comes to its end
unless its blocks send the cursor around for ever, which only jumps and calls can do.

Loops can not. They may be nested, end without having begun, or be entered in the
middle, and then the loop in progress may go back to a block behind the cursor or ahead
of it. The earlier one of these two blocks is the first one that can still be played
before another loop begins (`Control.floor`). It never moves back; while it stays, a
loop is gone through once less; and while that stays too, the cursor moves on.
-/

namespace ZxMedia

/-! ## Runs of samples move on -/

namespace RawDataBlock

variable {block : RawDataBlock}

theorem after_ahead (block : RawDataBlock) (byteIndex : Nat) {bitIndex : Nat}
    (inside : bitIndex < 8) :
    8 * byteIndex + bitIndex <
      8 * (block.after byteIndex bitIndex).1 + (block.after byteIndex bitIndex).2 := by
  unfold after
  split
  · dsimp only
    omega
  · dsimp only
    omega

theorem run?_ahead {level : Bool} {steps byteIndex bitIndex count : Nat} {run : SampleRun}
    (inside : bitIndex < 8)
    (counted : block.run? level steps byteIndex bitIndex count = some run) :
    8 * byteIndex + bitIndex < 8 * run.byteIndex + run.bitIndex := by
  induction steps generalizing byteIndex bitIndex count with
  | zero => cases counted
  | succ steps ih =>
      have ahead := block.after_ahead byteIndex inside
      obtain ⟨_, ⟨⟩, rfl | ⟨-, others⟩⟩ := run?_some counted
      · exact ahead
      · exact Nat.lt_trans ahead (ih (block.after_bit_lt byteIndex bitIndex) others)

end RawDataBlock

/-- A bound of the runs of samples that are left. -/
def RawState.runsBound (state : RawState) (block : RawDataBlock) : Nat :=
  match state.phase with
  | .data => 1 + (8 * block.data.size - (8 * state.byteIndex + state.bitIndex))
  | .pause => 0

theorem RawState.runsBound_nextRun {block : RawDataBlock} {state : RawState}
    (data : state.phase = .data) (inside : state.bitIndex < 8) :
    (state.nextRun block).runsBound block < state.runsBound block := by
  unfold nextRun
  split
  next beyond => simp [runsBound, data]
  next within =>
    obtain ⟨run, next⟩ :=
      exists_runAhead? (Nat.lt_of_not_le within) (RawDataBlock.succ_bit_lt inside)
    have ahead := RawDataBlock.run?_ahead inside next
    simp only [next, runsBound, data]
    omega

theorem RawState.ends_or_runsBound_lt {block : RawDataBlock} {state : RawState}
    (inside : state.bitIndex < 8) (config : PlaybackConfig) :
    (state.step block config).1.ends = true ∨
      (state.step block config).2.runsBound block < state.runsBound block := by
  cases phase : state.phase with
  | data =>
      right
      simpa only [step, phase] using runsBound_nextRun phase inside
  | pause =>
      left
      simpa only [step, phase] using Step.ends_pause block.pause config

/-! ## Every block ends -/

namespace Track

/-- A bound of the steps that are left before the last one. -/
def stepsBound : Track → Nat
  | ⟨.rom block, state⟩ => (DataState.remaining state block.coding).length
  | ⟨.turbo block, state⟩ => (DataState.remaining state block.coding).length
  | ⟨.pureData block, state⟩ => (DataState.remaining state block.coding).length
  | ⟨.rawData block, state⟩ => RawState.runsBound state block
  | ⟨.pureTone _ _, left⟩ => left
  | ⟨.pulses lengths, (index : Nat)⟩ => lengths.size - index
  | _ => 0

theorem ends_or_left_lt (length : UInt16) (left : Nat) :
    (stepTone length left).1.ends = true ∨ (stepTone length left).2 < left := by
  match left with
  | 0 => exact .inl rfl
  | 1 => exact .inl rfl
  | left + 2 => exact .inr (Nat.lt_succ_self (left + 1))

theorem ends_or_index_lt (lengths : Array UInt16) (index : Nat) :
    (stepPulses lengths index).1.ends = true ∨
      lengths.size - (stepPulses lengths index).2 < lengths.size - index := by
  unfold stepPulses
  split
  next => exact .inl rfl
  next length here =>
    have inside := (Array.getElem?_eq_some_iff.mp here).1
    split
    next => exact .inl rfl
    next =>
      right
      dsimp only
      omega

theorem ends_or_remaining_lt (state : DataState) (coding : Coding)
    (config : PlaybackConfig) :
    (state.step coding config).1.ends = true ∨
      ((state.step coding config).2.remaining coding).length <
        (state.remaining coding).length := by
  rcases state.step_remaining coding config with ⟨-, pause⟩ | ⟨tstates, -, same⟩
  · left
    rw [pause]
    exact Step.ends_pause coding.pause config
  · right
    rw [same]
    exact Nat.lt_succ_self _

/-- A step is the last one or lowers the bound of those that are left. -/
theorem Playable.ends_or_stepsBound_lt {track : Track} (playable : track.Playable)
    (config : PlaybackConfig) :
    (track.step config).1.ends = true ∨
    (track.step config).2.stepsBound < track.stepsBound := by
  obtain ⟨block, progress⟩ := track
  cases block with
  | rom block => exact ends_or_remaining_lt progress block.coding config
  | turbo block => exact ends_or_remaining_lt progress block.coding config
  | pureData block => exact ends_or_remaining_lt progress block.coding config
  | rawData block => exact RawState.ends_or_runsBound_lt playable config
  | pureTone length pulses => exact ends_or_left_lt length progress
  | pulses lengths => exact ends_or_index_lt lengths progress
  | pause milliseconds =>
      left
      unfold Track.step
      dsimp only
      split <;> rfl
  | _ => exact .inl rfl

theorem Plays.block_eq {config : PlaybackConfig} {track after : Track} {steps : List Step}
    (plays : track.Plays config steps after) : after.block = track.block := by
  have kept (track : Track) : (track.step config).2.block = track.block :=
    track.block_step config
  induction plays with
  | @last track after step played ends =>
      have same := kept track
      rwa [played] at same
  | @more track middle after step steps played goesOn later ih =>
      have same := kept track
      rw [played] at same
      exact ih.trans same

theorem Playable.plays {track : Track} (playable : track.Playable)
    (config : PlaybackConfig) :
    ∃ front last after, track.Plays config (front ++ [last]) after := by
  generalize bound : track.stepsBound = count
  induction count using Nat.strongRecOn generalizing track with
  | _ count ih =>
      cases ends : (track.step config).1.ends with
      | true => exact ⟨[], _, _, .last rfl ends⟩
      | false =>
          have lower := playable.ends_or_stepsBound_lt config
          rw [ends, bound] at lower
          have lower := lower.resolve_left (by decide)
          obtain ⟨front, last, after, later⟩ := ih _ lower (playable.step config) rfl
          exact ⟨_ :: front, last, after, .more rfl ends later⟩

end Track

/-! ## Loops come to their end -/

/-- The first block that can still be played before another loop begins: the one at the
cursor, or the one that the loop goes back to. -/
def Control.floor (control : Control) (index : Nat) : Nat :=
  min index (control.loopBlock.getD index)

/-- How far the end of a tape is away: by the blocks behind the first one that can still
be played, then by how many times the loop is left to be played, then by the blocks
behind the cursor. -/
def Control.distance (control : Control) (size index : Nat) : ℕ ×ₗ ℕ ×ₗ ℕ :=
  toLex (size - control.floor index, toLex (control.loopCount, size - index))

namespace Control

variable {control later : Control} {size index place : Nat}

/-- The end comes nearer when the first block that can still be played is another one
further on. -/
theorem distance_lt_of_floor (inside : control.floor index < size)
    (ahead : control.floor index < later.floor place) :
    later.distance size place < control.distance size index :=
  Prod.Lex.toLex_lt_toLex.mpr (.inl (by dsimp only; omega))

/-- The end comes nearer when the loop is left to be played once less from a block on
that is not in front of the first one that could still be played. -/
theorem distance_lt_of_count (kept : control.floor index ≤ later.floor place)
    (inside : control.floor index < size) (fewer : later.loopCount < control.loopCount) :
    later.distance size place < control.distance size index := by
  rcases Nat.lt_or_eq_of_le kept with ahead | same
  · exact distance_lt_of_floor inside ahead
  · refine Prod.Lex.toLex_lt_toLex.mpr (.inr ⟨?_, Prod.Lex.toLex_lt_toLex.mpr (.inl fewer)⟩)
    dsimp only
    rw [same]

/-- The end comes nearer when the cursor moves on and the loop is kept. -/
theorem distance_lt_of_next (control : Control) (inside : index < size) :
    control.distance size (index + 1) < control.distance size index := by
  have floor :
      control.floor index ≤ control.floor (index + 1) ∧ control.floor index < size := by
    unfold Control.floor
    cases control.loopBlock <;> simp only [Option.getD_none, Option.getD_some] <;> omega
  rcases Nat.lt_or_eq_of_le floor.1 with ahead | same
  · exact distance_lt_of_floor floor.2 ahead
  · refine Prod.Lex.toLex_lt_toLex.mpr
      (.inr ⟨?_, Prod.Lex.toLex_lt_toLex.mpr (.inr ⟨rfl, ?_⟩)⟩)
    · dsimp only
      rw [same]
    · dsimp only
      omega

theorem floor_le (control : Control) (index : Nat) : control.floor index ≤ index :=
  Nat.min_le_left _ _

end Control

namespace Tape

variable {tape after : Tape} {index : Nat} {block : Block} {edges : List Edge}

/-- The index that a move leads to, be it past the end of the tape. -/
def Move.place : Move → Nat
  | .to index => index
  | .onTo index => index

/-- The end of a block that neither jumps nor calls brings the end of the tape nearer
when no call is in progress. -/
theorem atEnd_nearer (uncalled : tape.call = none) (inside : index < tape.size)
    (straight : block.kind ≠ .jump ∧ block.kind ≠ .callSequence) :
    ∃ control move, tape.atEnd index block = .ok (control, move) ∧
      control.distance tape.size move.place <
        tape.toControl.distance tape.size index := by
  have next := tape.toControl.distance_lt_of_next inside
  have low := tape.toControl.floor_le index
  have within : tape.toControl.floor index < tape.size := Nat.lt_of_le_of_lt low inside
  cases block with
  | jump offset => exact absurd rfl straight.1
  | callSequence offsets => exact absurd rfl straight.2
  | callReturn =>
      refine ⟨tape.toControl, .onTo (index + 1), ?_, next⟩
      unfold atEnd
      simp only [uncalled]
  | loopStart count =>
      -- Whatever loop was in progress is forgotten for one that lies behind the cursor.
      refine ⟨_, _, rfl, Control.distance_lt_of_floor within ?_⟩
      simp only [Control.floor, Move.place, Option.getD_some, Nat.min_self] at low ⊢
      omega
  | loopEnd =>
      cases begun : tape.loopBlock with
      | none =>
          refine ⟨tape.toControl, .onTo (index + 1), ?_, next⟩
          unfold atEnd
          simp only [begun]
      | some start =>
          by_cases more : 1 < tape.loopCount
          · refine ⟨{ tape.toControl with loopCount := tape.loopCount - 1 },
              .to start, ?_, ?_⟩
            · unfold atEnd
              simp only [begun, if_pos more]
            · refine Control.distance_lt_of_count ?_ within (Nat.sub_lt (by omega) Nat.one_pos)
              simp [Control.floor, Move.place, begun]
          · refine ⟨{ tape.toControl with loopBlock := none, loopCount := 0 },
              .onTo (index + 1), ?_, ?_⟩
            · unfold atEnd
              simp only [begun, if_neg more]
            · refine Control.distance_lt_of_floor within ?_
              simp only [Control.floor, Move.place, Option.getD_none,
                Nat.min_self] at low ⊢
              omega
  | _ => exact ⟨_, _, rfl, next⟩

/-- A move leads to its place, or past the end of the tape, which stops it and sends the
cursor back. -/
theorem follow_cases (tape : Tape) (move : Move) (flags : EdgeFlags) :
    (tape.follow move flags).2 = tape.goTo move.place ∨
      (tape.follow move flags).1.stop = true ∧ (tape.follow move flags).1.tape = true ∧
        (tape.follow move flags).2.current = some 0 := by
  rcases move with place | place
  · exact .inl rfl
  · unfold follow
    dsimp only
    split
    next => exact .inl rfl
    next => exact .inr ⟨rfl, rfl, rfl⟩

theorem Gives.sound (gives : tape.Gives edges after) (sound : tape.Sound) :
    after.Sound := by
  induction gives with
  | nil => exact sound
  | cons played _ ih => exact ih (sound.nextEdge played)

/-- None of the blocks jumps or calls. -/
def Straight (tape : Tape) : Prop :=
  ∀ block ∈ tape.blocks, block.kind ≠ .jump ∧ block.kind ≠ .callSequence

theorem Sound.uncalled (sound : tape.Sound) (straight : tape.Straight) :
    tape.call = none := by
  cases begun : tape.call with
  | none => rfl
  | some call =>
      obtain ⟨offsets, found, -⟩ := sound.control.call call begun
      exact absurd rfl (straight _ (List.mem_of_getElem? found)).2

/-- The tape gives the last edge of its last block after some others, and the cursor
goes back. -/
def Finishes (tape : Tape) : Prop :=
  ∃ edges last after, tape.Gives (edges ++ [last]) after ∧
    last.flags.stop = true ∧ last.flags.tape = true ∧ after.current = some 0

theorem Gives.finishes (gives : tape.Gives edges after) (finishes : after.Finishes) :
    tape.Finishes := by
  obtain ⟨later, last, final, given, ended⟩ := finishes
  refine ⟨edges ++ later, last, final, ?_, ended⟩
  rw [List.append_assoc]
  exact gives.append given

/-- The current block is played to its end, which is the end of the tape or brings it
nearer. -/
theorem Sound.finishes_or_nearer (sound : tape.Sound) (straight : tape.Straight)
    (here : tape.current = some index) :
    tape.Finishes ∨
      ∃ edges after place, tape.Gives edges after ∧ after.blocks = tape.blocks ∧
        after.current = some place ∧
        after.toControl.distance tape.size place <
          tape.toControl.distance tape.size index := by
  have inside := sound.inside index here
  have found : tape.tracks[index]? = some tape.tracks[index] :=
    Array.getElem?_eq_getElem inside
  have playable : tape.tracks[index].Playable := by
    apply sound.playable
    simp [currentTrack?, here, found]
  have block : tape.tracks[index].block ∈ tape.blocks :=
    List.mem_map_of_mem (Array.mem_toList_iff.mpr (Array.getElem_mem inside))
  obtain ⟨control, move, ended, nearer⟩ :=
    atEnd_nearer (sound.uncalled straight) inside (straight _ block)
  obtain ⟨front, last, played, plays⟩ := playable.plays tape.config
  have gives := gives_block here found playable plays ended
  rw [Step.edges_concat] at gives
  generalize left_eq : (tape.putTrack index played).withControl control = left at gives
  have size : left.size = tape.size := by
    rw [← left_eq]
    exact size_putTrack tape index played
  have blocks : left.blocks = tape.blocks := by
    rw [← left_eq, blocks_withControl]
    exact @blocks_putTrack tape index played inside plays.block_eq
  have control_eq : left.toControl = control := by rw [← left_eq, toControl_withControl]
  rw [← follow_fst size, ← follow_snd left move last.flags] at gives
  rcases left.follow_cases move last.flags with moved | ended
  · rw [moved] at gives
    refine .inr ⟨_, _, _, gives, by rw [blocks_goTo, blocks], rfl, ?_⟩
    rw [toControl_goTo, control_eq]
    exact nearer
  · exact .inl ⟨_, _, _, gives, ended⟩

/-- Induction on the distance of the end: every block that is played to its end lowers
it. -/
theorem Sound.finishes (sound : tape.Sound) (straight : tape.Straight)
    (here : tape.current = some index) : tape.Finishes := by
  generalize far : tape.toControl.distance tape.size index = distance
  induction distance using WellFoundedLT.induction generalizing tape index with
  | ind distance ih =>
      rcases sound.finishes_or_nearer straight here with
        ended | ⟨edges, after, place, gives, blocks, there, nearer⟩
      · exact ended
      · have size :
            after.size = tape.size := by rw [← length_blocks, blocks, length_blocks]
        have later : after.Straight := by
          unfold Straight
          rw [blocks]
          exact straight
        rw [far, ← size] at nearer
        exact gives.finishes (ih _ nearer (gives.sound sound) later there rfl)

/-- A tape without jumps and calls is played to its end from wherever operations have
led it: no interval fails, and after some of them one stops the tape, ends it and sends
the cursor back to the first block. -/
theorem gives_end (reached : tape.Reachable) (filled : tape.blocks ≠ [])
    (straight : ∀ block ∈ tape.blocks, block.kind ≠ .jump ∧ block.kind ≠ .callSequence) :
    ∃ edges last after, tape.Gives (edges ++ [last]) after ∧
      last.flags.stop = true ∧ last.flags.tape = true ∧ after.current = some 0 := by
  have sound := reached.sound
  cases here : tape.current with
  | none =>
      have empty := sound.empty here
      rw [← length_blocks, List.length_eq_zero_iff] at empty
      exact absurd empty filled
  | some index => exact sound.finishes straight here

/-- Operations that begin a loop inside a loop and then go back to the block in front of
both, with an end and a return too many behind them. -/
def knot : List Operation :=
  [.extend [.ofBlock (.loopStart 2), .ofBlock (.loopStart 3), .ofBlock (.pureTone 500 2),
      .ofBlock .loopEnd, .ofBlock .loopEnd, .ofBlock .loopEnd, .ofBlock .callReturn],
    .nextEdge, .nextEdge, .nextEdge, .select 0]

theorem gives_end_knot :
    (run {} knot).Reachable ∧ (run {} knot).blocks ≠ [] ∧
    (run {} knot).current = some 0 ∧ (run {} knot).loopBlock = some 2 ∧
    ∃ edges last after, (run {} knot).Gives (edges ++ [last]) after ∧
      last.flags.stop = true ∧ last.flags.tape = true ∧ after.current = some 0 := by
  have reached : (run {} knot).Reachable := by
    apply (Reachable.new {}).run
    simp [knot, Operation.tracks, Block.SamplesFit, Track.ofBlock]
  have filled : (run {} knot).blocks ≠ [] := by decide
  exact ⟨reached, filled, rfl, rfl, gives_end reached filled (by decide)⟩

end Tape

end ZxMedia
