import ZxMedia.Proofs.Tape.Cursor
import ZxMedia.Proofs.Tape.Edges

/-!
# Playing again

Every block that the cursor moves to is made ready anew, so what a tape plays next
depends on its blocks, on the place of the cursor, on the loop and the call in progress,
and on how far the current block has been played. Tapes that agree in this are `Alike`,
however the other blocks were played before, and they stay alike while the same is done
to both.

Rewinding leaves nothing of what was done before: rewound tapes of the same blocks are
alike.
-/

namespace ZxMedia.Tape

/-- The tapes are at the same place of the same blocks. The other blocks may have been
played in different ways. -/
structure Alike (first second : Tape) : Prop where
  blocks : first.blocks = second.blocks
  config : first.config = second.config
  control : first.toControl = second.toControl
  current : first.current = second.current
  track : first.currentTrack? = second.currentTrack?

variable {tape first second third : Tape} {index : Nat} {move : Move} {control : Control}

/-! ## What is seen of a tape -/

/-- A block that is made ready is what it would be if it had never been played. -/
theorem getElem?_cue (tape : Tape) (index : Nat) :
    tape.tracks[index]?.map Track.cue =
      tape.blocks[index]?.map fun block => (Track.ofBlock block).cue := by
  simp only [blocks, List.getElem?_map, Array.getElem?_toList, Option.map_map]
  rfl

theorem blocks_putTrack_eq_set (tape : Tape) (index : Nat) (track : Track) :
    (tape.putTrack index track).blocks = tape.blocks.set index track.block := by
  simp [blocks, putTrack, List.map_set]

theorem currentTrack?_putTrack {tape : Tape} (here : tape.current = some index)
    (track : Track) :
    (tape.putTrack index track).currentTrack? =
      if index < tape.size then some track else none := by
  simp only [currentTrack?, putTrack, here, Option.bind_some,
    Array.getElem?_setIfInBounds, if_true]
  rfl

theorem size_eq_of_blocks (same : first.blocks = second.blocks) :
    first.size = second.size := by
  rw [← length_blocks, same, length_blocks]

namespace Alike

theorem refl (tape : Tape) : tape.Alike tape :=
  ⟨rfl, rfl, rfl, rfl, rfl⟩

theorem symm (alike : first.Alike second) : second.Alike first :=
  ⟨alike.blocks.symm, alike.config.symm, alike.control.symm, alike.current.symm, alike.track.symm⟩

theorem trans (alike : first.Alike second) (later : second.Alike third) :
    first.Alike third :=
  ⟨alike.blocks.trans later.blocks, alike.config.trans later.config,
    alike.control.trans later.control, alike.current.trans later.current,
    alike.track.trans later.track⟩

theorem size (alike : first.Alike second) : first.size = second.size :=
  size_eq_of_blocks alike.blocks

/-! ## Moving the cursor -/

theorem of_goTo (blocks : first.blocks = second.blocks)
    (config : first.config = second.config)
    (control : first.toControl = second.toControl) (index : Nat) :
    (first.goTo index).Alike (second.goTo index) where
  blocks := by rw [blocks_goTo, blocks_goTo, blocks]
  config := config
  control := control
  current := rfl
  track := by rw [currentTrack?_goTo, currentTrack?_goTo, getElem?_cue, getElem?_cue, blocks]

theorem goTo (alike : first.Alike second) (index : Nat) :
    (first.goTo index).Alike (second.goTo index) :=
  of_goTo alike.blocks alike.config alike.control index

theorem withControl (alike : first.Alike second) (control : Control) :
    (first.withControl control).Alike (second.withControl control) :=
  ⟨alike.blocks, alike.config, rfl, alike.current, alike.track⟩

theorem putTrack (alike : first.Alike second) (here : first.current = some index)
    (track : Track) :
    (first.putTrack index track).Alike (second.putTrack index track) where
  blocks := by rw [blocks_putTrack_eq_set, blocks_putTrack_eq_set, alike.blocks]
  config := alike.config
  control := alike.control
  current := alike.current
  track := by
    rw [currentTrack?_putTrack here,
      currentTrack?_putTrack (alike.current ▸ here), alike.size]

theorem follow (alike : first.Alike second) (move : Move) (flags : EdgeFlags) :
    (first.follow move flags).1 = (second.follow move flags).1 ∧
      (first.follow move flags).2.Alike (second.follow move flags).2 := by
  refine ⟨follow_fst alike.size move flags, ?_⟩
  unfold Tape.follow
  rw [alike.size]
  rcases move with place | place
  · exact alike.goTo place
  · dsimp only
    split
    · exact alike.goTo place
    · exact (alike.withControl {}).goTo 0

/-! ## Playing -/

theorem lookAhead (alike : first.Alike second) : first.lookAhead = second.lookAhead := by
  have track := alike.track
  have size : first.tracks.size = second.tracks.size := alike.size
  unfold Tape.lookAhead
  cases here : first.current with
  | none => rw [← alike.current, here]
  | some index =>
      have there : second.current = some index := alike.current ▸ here
      rw [there]
      simp only [currentTrack?, here, there, Option.bind_some] at track
      by_cases inside : index < first.tracks.size
      · have within : index < second.tracks.size := size ▸ inside
        have same : first.tracks[index] = second.tracks[index] := by
          rw [Array.getElem?_eq_getElem inside, Array.getElem?_eq_getElem within] at track
          exact Option.some.inj track
        simp only [inside, within, dite_true, same, alike.config,
          atEnd_of_blocks alike.blocks alike.control]
      · have beyond : ¬index < second.tracks.size := size ▸ inside
        simp only [inside, beyond, dite_false, alike.size]

theorem carryOut (alike : first.Alike second) {advance : Advance}
    (here : first.current = some advance.index) :
    (first.carryOut advance).1 = (second.carryOut advance).1 ∧
      (first.carryOut advance).2.Alike (second.carryOut advance).2 := by
  have put := alike.putTrack here advance.track
  unfold Tape.carryOut
  cases advance.ending with
  | none => exact ⟨rfl, put⟩
  | some ending =>
      obtain ⟨control, move⟩ := ending
      obtain ⟨flags, left⟩ := (put.withControl control).follow move advance.step.flags
      exact ⟨by dsimp only; rw [flags], left⟩

theorem nextEdge_error (alike : first.Alike second) {error : Error}
    (failed : first.nextEdge = .error error) : second.nextEdge = .error error := by
  have looked := Tape.nextEdge_error failed
  rw [alike.lookAhead] at looked
  unfold Tape.nextEdge
  rw [looked]

/-- An interval that one tape plays, the other one plays too. -/
theorem nextEdge (alike : first.Alike second) {edge : Edge} {after : Tape}
    (played : first.nextEdge = .ok (edge, after)) :
    ∃ other, second.nextEdge = .ok (edge, other) ∧ after.Alike other := by
  unfold Tape.nextEdge at played ⊢
  rw [← alike.lookAhead]
  split at played
  next => cases played
  next =>
    cases played
    exact ⟨second, rfl, alike⟩
  next advance looked =>
    have here : first.current = some advance.index := by
      rcases lookAhead_ok looked with ⟨-, none⟩ | ⟨index, inside, here, outcome⟩
      · cases none
      · rcases outcome with ⟨-, same⟩ | ⟨-, ending, -, same⟩ <;> cases same <;> exact here
    obtain ⟨same, left⟩ := alike.carryOut here
    have carried := Except.ok.inj played
    rw [carried] at same left
    exact ⟨(second.carryOut advance).2, congrArg Except.ok (Prod.ext same.symm rfl), left⟩

theorem gives (alike : first.Alike second) {edges : List Edge} {after : Tape}
    (gives : first.Gives edges after) :
    ∃ other, second.Gives edges other ∧ after.Alike other := by
  induction gives generalizing second with
  | nil => exact ⟨second, .nil second, alike⟩
  | cons played _ ih =>
      obtain ⟨middle, same, left⟩ := alike.nextEdge played
      obtain ⟨other, later, left⟩ := ih left
      exact ⟨other, .cons same later, left⟩

end Alike

/-! ## Playing after rewinding -/

/-- On a tape without blocks the cursor is nowhere. -/
def Homed (tape : Tape) : Prop :=
  tape.size = 0 → tape.current = none

theorem homed_of_filled (filled : 0 < tape.size) : tape.Homed := by
  intro empty
  rw [empty] at filled
  cases filled

theorem size_goTo_pos (filled : 0 < tape.size) (index : Nat) :
    0 < (tape.goTo index).size := by
  rwa [size_goTo]

theorem size_appendTrack_pos (tape : Tape) (track : Track) :
    0 < (tape.appendTrack track).size :=
  Nat.lt_of_lt_of_eq (Nat.succ_pos _) (size_appendTrack tape track).symm

theorem Homed.foldl_appendTrack (homed : tape.Homed) (tracks : List Track) :
    (tracks.foldl appendTrack tape).Homed := by
  induction tracks generalizing tape with
  | nil => exact homed
  | cons track tracks ih => exact ih (homed_of_filled (size_appendTrack_pos tape track))

theorem homed_insertTrack {track : Track} {after : Tape}
    (inserted : tape.insertTrack index track = .ok after) : after.Homed :=
  homed_of_filled (Nat.lt_of_lt_of_eq (Nat.succ_pos _) (size_insertTrack inserted).symm)

theorem homed_removeTrack {answer : Track × Tape}
    (removed : tape.removeTrack index = .ok answer) :
    answer.2.Homed := by
  obtain ⟨inside, outcome⟩ := removeTrack_ok removed
  rcases outcome with
      ⟨-, same⟩ | ⟨filled, -, same⟩ | ⟨filled, _, -, -, same⟩ | ⟨_, within, same⟩ |
    ⟨filled, _, -, -, same⟩
  · rw [same]
    intro _
    rfl
  · rw [same]
    exact homed_of_filled filled
  · rw [same]
    exact homed_of_filled filled
  · rw [same]
    exact homed_of_filled (size_goTo_pos (Nat.zero_lt_of_lt within) _)
  · rw [same]
    exact homed_of_filled filled

theorem Homed.nextEdge (homed : tape.Homed) {edge : Edge} {after : Tape}
    (played : tape.nextEdge = .ok (edge, after)) : after.Homed := by
  have size := size_eq_of_blocks (nextEdge_keeps played).1
  rcases nextEdge_ok played with ⟨-, -, rfl⟩ | ⟨index, inside, -⟩
  · exact homed
  · exact homed_of_filled (size ▸ Nat.lt_of_le_of_lt (Nat.zero_le index) inside)

/-- Whatever is done to a tape, the cursor is nowhere when it has no blocks. -/
theorem Homed.perform (homed : tape.Homed) (operation : Operation) :
    (tape.perform operation).Homed := by
  cases operation with
  | append track => exact homed_of_filled (size_appendTrack_pos tape track)
  | extend tracks => exact homed.foldl_appendTrack tracks
  | insert index track =>
      simp only [Tape.perform]
      cases inserted : tape.insertTrack index track with
      | error error => exact homed
      | ok after => exact homed_insertTrack inserted
  | remove index =>
      simp only [Tape.perform]
      cases removed : tape.removeTrack index with
      | error error => exact homed
      | ok answer => exact homed_removeTrack removed
  | clear => exact fun _ => rfl
  | select index =>
      simp only [Tape.perform, Tape.select]
      split
      next inside =>
        apply homed_of_filled
        exact size_goTo_pos (Nat.lt_of_le_of_lt (Nat.zero_le index) inside) index
      next => exact homed
  | rewind =>
      simp only [Tape.perform, Tape.rewind]
      split
      next => exact homed
      next filled => exact homed_of_filled (size_goTo_pos (Nat.pos_of_ne_zero filled) 0)
  | setConfig config => exact homed
  | nextEdge =>
      simp only [Tape.perform]
      cases played : tape.nextEdge with
      | error error => exact homed
      | ok answer => exact homed.nextEdge played

theorem Homed.run (homed : tape.Homed) (operations : List Operation) :
    (tape.run operations).Homed := by
  induction operations generalizing tape with
  | nil => exact homed
  | cons operation operations ih => exact ih (homed.perform operation)

/-- Rewound tapes of the same blocks are alike, whatever was done to them before. -/
theorem Homed.alike_rewind (homed : first.Homed) (other : second.Homed)
    (blocks : first.blocks = second.blocks) (config : first.config = second.config) :
    first.rewind.Alike second.rewind := by
  have size := size_eq_of_blocks blocks
  unfold Tape.rewind
  dsimp only
  by_cases empty : first.size = 0
  · have nowhere := homed empty
    have likewise := other (size.symm.trans empty)
    rw [if_pos (show first.resetControl.size = 0 from empty),
      if_pos (show second.resetControl.size = 0 from size.symm.trans empty)]
    refine ⟨blocks, config, rfl, ?_, ?_⟩
    · rw [current_resetControl, current_resetControl, nowhere, likewise]
    · simp only [currentTrack?, current_resetControl, nowhere, likewise, Option.bind_none]
  · have filled : ¬second.size = 0 := fun none => empty (size.trans none)
    rw [if_neg (show ¬first.resetControl.size = 0 from empty),
      if_neg (show ¬second.resetControl.size = 0 from filled)]
    exact @Alike.of_goTo first.resetControl second.resetControl blocks config rfl 0

/-- Something that is asked of a tape that is played. -/
inductive Request where
  | nextEdge
  | select (index : Nat)
  | rewind

/-- The answer to a request, and where the tape is after it. -/
structure Reply where
  /-- The interval that was asked for, or the error. -/
  result : Except Error (Option Edge)
  /-- What was odd about the interval. -/
  notice : Option Notice
  current : Option Nat
  control : Control

/-- The answer to a request, and the tape after it. A request that fails changes
nothing. -/
def respond (tape : Tape) : Request → Except Error (Option Edge) × Tape
  | .nextEdge => match tape.nextEdge with
    | .error error => (.error error, tape)
    | .ok (edge, after) => (.ok (some edge), after)
  | .select index => match tape.select index with
    | .error error => (.error error, tape)
    | .ok after => (.ok none, after)
  | .rewind => (.ok none, tape.rewind)

/-- What a request for an interval gives notice of. -/
def Request.notice? (tape : Tape) : Request → Option Notice
  | nextEdge => tape.notice?
  | _ => none

/-- The replies to requests one after another. -/
def replies (tape : Tape) : List Request → List Reply
  | [] => []
  | request :: requests =>
    let (result, after) := tape.respond request
    ⟨result, request.notice? tape, after.current, after.toControl⟩ :: after.replies requests

namespace Alike

theorem notice? (alike : first.Alike second) : first.notice? = second.notice? := by
  unfold Tape.notice?
  rw [alike.current, alike.track, alike.control]

theorem select (alike : first.Alike second) (index : Nat) :
    (∃ error, first.select index = .error error ∧ second.select index = .error error) ∨
      first.select index = .ok (first.goTo index) ∧
        second.select index = .ok (second.goTo index) := by
  unfold Tape.select noSuchBlock
  rw [alike.size]
  split
  · exact .inr ⟨rfl, rfl⟩
  · exact .inl ⟨_, rfl, rfl⟩

theorem rewind (alike : first.Alike second) : first.rewind.Alike second.rewind := by
  unfold Tape.rewind
  dsimp only
  rw [show first.resetControl.size = second.resetControl.size from alike.size]
  split
  · exact alike.withControl {}
  · exact (alike.withControl {}).goTo 0

theorem respond (alike : first.Alike second) (request : Request) :
    (first.respond request).1 = (second.respond request).1 ∧
      (first.respond request).2.Alike (second.respond request).2 := by
  unfold Tape.respond
  cases request with
  | nextEdge =>
      dsimp only
      cases played : first.nextEdge with
      | error error =>
          rw [alike.nextEdge_error played]
          exact ⟨rfl, alike⟩
      | ok answer =>
          obtain ⟨other, same, left⟩ := alike.nextEdge played
          rw [same]
          exact ⟨rfl, left⟩
  | select index =>
      dsimp only
      rcases alike.select index with ⟨error, first, second⟩ | ⟨first, second⟩
      · rw [first, second]
        exact ⟨rfl, alike⟩
      · rw [first, second]
        exact ⟨rfl, alike.goTo index⟩
  | rewind => exact ⟨rfl, alike.rewind⟩

theorem replies (alike : first.Alike second) (requests : List Request) :
    first.replies requests = second.replies requests := by
  induction requests generalizing first second with
  | nil => rfl
  | cons request requests ih =>
      have notice : request.notice? first = request.notice? second := by
        cases request with
        | nextEdge => exact alike.notice?
        | _ => rfl
      obtain ⟨result, left⟩ := alike.respond request
      simp only [Tape.replies, notice, result, left.current, left.control, ih left]

end Alike

/-- A rewound tape plays the same however it came about: what was played, selected,
edited or failed on a tape of the same blocks before does not matter to the answers, nor
to where the tape is after each of them. -/
theorem replies_rewind {firstConfig secondConfig : PlaybackConfig}
    {firstHistory secondHistory : List Operation}
    (blocks : (run { config := firstConfig } firstHistory).blocks =
      (run { config := secondConfig } secondHistory).blocks)
    (config : (run { config := firstConfig } firstHistory).config =
      (run { config := secondConfig } secondHistory).config)
    (requests : List Request) :
    (run { config := firstConfig } firstHistory).replies (.rewind :: requests) =
      (run { config := secondConfig } secondHistory).replies (.rewind :: requests) := by
  have new (config : PlaybackConfig) : Homed { config } := fun _ => rfl
  have alike := ((new firstConfig).run firstHistory).alike_rewind
    ((new secondConfig).run secondHistory) blocks config
  simp only [replies, respond, Request.notice?, alike.current, alike.control,
    alike.replies requests]

/-- Operations that leave a tape in the middle of a tone, in a loop and in a call. -/
def playedHalfway : List Operation :=
  [.extend [.ofBlock (.loopStart 2), .ofBlock (.callSequence #[1, 2]), .ofBlock (.pureTone 500 2),
      .ofBlock (.pulses #[300, 700]), .ofBlock .callReturn, .ofBlock .loopEnd],
    .nextEdge, .nextEdge, .nextEdge]

/-- Operations that put the same blocks together from blocks that had been played
elsewhere, with one too many that is taken off again, and a choice that was not
offered. -/
def putTogether : List Operation :=
  [.append ⟨.callSequence #[1, 2], ()⟩, .insert 0 (.ofBlock (.loopStart 2)),
    .append ⟨.pureTone 500 2, (0 : Nat)⟩, .append (.ofBlock .groupEnd), .remove 3, .nextEdge,
    .extend [⟨.pulses #[300, 700], (2 : Nat)⟩, .ofBlock .callReturn, .ofBlock .loopEnd],
    .select 9, .select 5]

theorem replies_rewind_putTogether :
    (run {} playedHalfway).blocks = (run {} putTogether).blocks ∧
    (run {} playedHalfway).config = (run {} putTogether).config ∧
    (run {} playedHalfway).current = some 2 ∧ (run {} putTogether).current = some 5 ∧
    ∀ requests, (run {} playedHalfway).replies (.rewind :: requests) =
      (run {} putTogether).replies (.rewind :: requests) := by
  have blocks :
      (run {} playedHalfway).blocks = (run {} putTogether).blocks := by decide +kernel
  have config :
      (run {} playedHalfway).config = (run {} putTogether).config := by decide +kernel
  exact ⟨blocks, config, rfl, by decide +kernel, replies_rewind blocks config⟩

end ZxMedia.Tape
