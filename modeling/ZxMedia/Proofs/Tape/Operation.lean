import Mathlib
import ZxMedia.Proofs.Encoding
import ZxMedia.Tape.Playback

/-!
# Operations on tapes

What can be done to a tape is to edit it, to move its cursor and to play it. `Reachable`
holds of the tapes that such operations lead to, begun with a tape without blocks. A
block may come to a tape with whatever progress it had elsewhere, and an operation that
fails leaves the tape as it was.

`insertTrack_ok` and `removeTrack_ok` say all that an edit can lead to, and
`lookAhead_ok` and `lookAhead_error` all that playing one interval can come to.
-/

namespace ZxMedia

/-- A run of equal samples of the block can be counted in a word of 32 bits, even if it
is all of them. -/
def Block.SamplesFit : Block → Prop
  | .rawData block => block.data.size < 2 ^ 29
  | _ => True

namespace Tape

/-- Something to be done to a tape. -/
inductive Operation where
  | append (track : Track)
  | extend (tracks : List Track)
  | insert (index : Nat) (track : Track)
  | remove (index : Nat)
  | clear
  | select (index : Nat)
  | rewind
  | setConfig (config : PlaybackConfig)
  | nextEdge

/-- The blocks that an operation puts on the tape. -/
def Operation.tracks : Operation → List Track
  | append track => [track]
  | extend tracks => tracks
  | insert _ track => [track]
  | _ => []

/-- The tape after an operation. -/
def perform (tape : Tape) : Operation → Tape
  | .append track => tape.appendTrack track
  | .extend tracks => tracks.foldl appendTrack tape
  | .insert index track => (tape.insertTrack index track).toOption.getD tape
  | .remove index => ((tape.removeTrack index).toOption.map Prod.snd).getD tape
  | .clear => tape.clear
  | .select index => (tape.select index).toOption.getD tape
  | .rewind => tape.rewind
  | .setConfig config => tape.setConfig config
  | .nextEdge => (tape.nextEdge.toOption.map Prod.snd).getD tape

/-- A tape that operations lead to, in any number and order. -/
inductive Reachable : Tape → Prop where
  | new (config : PlaybackConfig) : Reachable { config }
  | perform {tape : Tape} (reached : Reachable tape) (operation : Operation)
      (fit : ∀ track ∈ operation.tracks, track.block.SamplesFit) :
      Reachable (tape.perform operation)

/-- The tape after operations one after another. -/
def run (tape : Tape) (operations : List Operation) : Tape :=
  operations.foldl perform tape

variable {tape after : Tape} {index position : Nat} {offset : Int16} {edge : Edge}
    {error : Error}

theorem Reachable.run (reached : tape.Reachable) {operations : List Operation}
    (fit : ∀ operation ∈ operations, ∀ track ∈ operation.tracks, track.block.SamplesFit) :
    (tape.run operations).Reachable := by
  induction operations generalizing tape with
  | nil => exact reached
  | cons operation operations ih =>
      apply ih (reached.perform operation (fit operation List.mem_cons_self))
      intro later member
      exact fit later (List.mem_cons_of_mem operation member)

theorem reachable_ofBlocks {blocks : List Block}
    (fit : ∀ block ∈ blocks, block.SamplesFit) :
    (ofBlocks blocks).Reachable := by
  have same : run {} [.extend (blocks.map .ofBlock)] = ofBlocks blocks := by
    simp only [run, List.foldl_cons, List.foldl_nil, perform, List.foldl_map]
    rfl
  rw [← same]
  apply (Reachable.new {}).run
  simpa [Operation.tracks, Track.ofBlock] using fit

/-! ## Parts of a tape after a change -/

@[simp] theorem length_blocks (tape : Tape) : tape.blocks.length = tape.size := by
  simp [blocks, size]

theorem block?_eq (tape : Tape) (index : Nat) :
    tape.block? index = tape.blocks[index]? := by
  simp [block?, blocks]

@[simp] theorem current_goTo (tape : Tape) (index : Nat) :
    (tape.goTo index).current = some index := rfl

@[simp] theorem toControl_goTo (tape : Tape) (index : Nat) :
    (tape.goTo index).toControl = tape.toControl := rfl

@[simp] theorem size_goTo (tape : Tape) (index : Nat) :
    (tape.goTo index).size = tape.size := by
  simp [goTo, cueAt, size]

@[simp] theorem blocks_withControl (tape : Tape) (control : Control) :
    (tape.withControl control).blocks = tape.blocks := rfl

@[simp] theorem toControl_withControl (tape : Tape) (control : Control) :
    (tape.withControl control).toControl = control := rfl

@[simp] theorem current_withControl (tape : Tape) (control : Control) :
    (tape.withControl control).current = tape.current := rfl

@[simp] theorem tracks_withControl (tape : Tape) (control : Control) :
    (tape.withControl control).tracks = tape.tracks := rfl

@[simp] theorem tracks_resetControl (tape : Tape) :
    tape.resetControl.tracks = tape.tracks := rfl

@[simp] theorem current_resetControl (tape : Tape) :
    tape.resetControl.current = tape.current := rfl

theorem currentTrack?_goTo (tape : Tape) (index : Nat) :
    (tape.goTo index).currentTrack? = tape.tracks[index]?.map Track.cue := by
  simp [currentTrack?, goTo, cueAt, Array.getElem?_modify]

theorem blocks_putTrack {track : Track} {inside : index < tape.tracks.size}
    (same : track.block = tape.tracks[index].block) :
    (tape.putTrack index track).blocks = tape.blocks := by
  apply List.ext_getElem?
  intro place
  simp only [blocks, putTrack, Array.toList_setIfInBounds, List.getElem?_map,
    List.getElem?_set, Array.getElem?_toList, Array.length_toList]
  split
  next equal =>
    subst equal
    simp [inside, same]
  next => rfl

/-! ## Editing -/

theorem size_appendTrack (tape : Tape) (track : Track) :
    (tape.appendTrack track).size = tape.size + 1 := by
  rw [← length_blocks, blocks_appendTrack, List.length_append, length_blocks,
    List.length_singleton]

theorem size_foldl_appendTrack (tape : Tape) (tracks : List Track) :
    (tracks.foldl appendTrack tape).size = tape.size + tracks.length := by
  induction tracks generalizing tape with
  | nil => rfl
  | cons track tracks ih =>
      rw [List.foldl_cons, ih, size_appendTrack, List.length_cons]
      omega

/-- The cursor keeps to its block when a block is inserted, and goes to the first block
if it was nowhere. -/
theorem insertTrack_ok {track : Track}
    (inserted : tape.insertTrack index track = .ok after) :
    ∃ place : index ≤ tape.tracks.size,
      let edited :=
        { tape with tracks := tape.tracks.insertIdx index track place }.resetControl
      (tape.current = none ∧ after = edited.goTo 0) ∨
      (∃ current, tape.current = some current ∧ index ≤ current ∧ current < maxIndex ∧
        after = { edited with current := some (current + 1) }) ∨
      (∃ current, tape.current = some current ∧ current < index ∧ after = edited) := by
  unfold insertTrack at inserted
  split at inserted
  next place =>
    refine ⟨place, ?_⟩
    dsimp only at inserted ⊢
    split at inserted
    next nowhere =>
      cases inserted
      exact .inl ⟨nowhere, rfl⟩
    next current here =>
      split at inserted
      next before =>
        split at inserted
        next => cases inserted
        next near =>
          cases inserted
          exact .inr (.inl ⟨current, here, before, Nat.lt_of_not_le near, rfl⟩)
      next behind =>
        cases inserted
        exact .inr (.inr ⟨current, here, Nat.lt_of_not_le behind, rfl⟩)
  next => cases inserted

theorem size_insertTrack {track : Track}
    (inserted : tape.insertTrack index track = .ok after) :
    after.size = tape.size + 1 := by
  obtain ⟨place, outcome⟩ := insertTrack_ok inserted
  have longer : (tape.tracks.insertIdx index track place).size = tape.size + 1 :=
    Array.size_insertIdx place
  rcases outcome with ⟨-, rfl⟩ | ⟨_, -, -, -, rfl⟩ | ⟨_, -, -, rfl⟩
  · rw [size_goTo]
    exact longer
  · exact longer
  · exact longer

/-- The cursor keeps to its block when another block is removed. When its own block is
removed it goes to the block behind it or to the first one, and nowhere when there are
no blocks left. -/
theorem removeTrack_ok {answer : Track × Tape}
    (removed : tape.removeTrack index = .ok answer) :
    ∃ inside : index < tape.tracks.size,
      let edited := { tape with tracks := tape.tracks.eraseIdx index inside }.resetControl
      (edited.size = 0 ∧ answer.2 = { edited with current := none }) ∨
      (0 < edited.size ∧ tape.current = none ∧ answer.2 = edited) ∨
      (0 < edited.size ∧ ∃ current, tape.current = some current ∧ index < current ∧
        answer.2 = { edited with current := some (current - 1) }) ∨
      (∃ place, place < edited.size ∧ answer.2 = edited.goTo place) ∨
      (0 < edited.size ∧ ∃ current, tape.current = some current ∧ current < index ∧
        answer.2 = edited) := by
  unfold removeTrack at removed
  split at removed
  next inside =>
    refine ⟨inside, ?_⟩
    dsimp only at removed ⊢
    split at removed
    next emptied =>
      cases removed
      exact .inl ⟨emptied, rfl⟩
    next left =>
      have filled := Nat.pos_of_ne_zero left
      split at removed
      next nowhere =>
        cases removed
        exact .inr (.inl ⟨filled, nowhere, rfl⟩)
      next current here =>
        split at removed
        next before =>
          cases removed
          exact .inr (.inr (.inl ⟨filled, current, here, before, rfl⟩))
        next =>
          split at removed
          next same =>
            cases removed
            refine .inr (.inr (.inr (.inl ⟨_, ?_, rfl⟩)))
            have shorter : ({ tape with
                tracks := tape.tracks.eraseIdx index inside } : Tape).resetControl.size =
                tape.tracks.size - 1 := Array.size_eraseIdx _ inside
            split
            next => exact filled
            next => omega
          next =>
            cases removed
            exact .inr (.inr (.inr (.inr ⟨filled, current, here, by omega, rfl⟩)))
  next => cases removed

theorem size_removeTrack {answer : Track × Tape}
    (removed : tape.removeTrack index = .ok answer) :
    answer.2.size + 1 = tape.size := by
  obtain ⟨inside, outcome⟩ := removeTrack_ok removed
  have shorter : (tape.tracks.eraseIdx index inside).size + 1 = tape.size := by
    rw [Array.size_eraseIdx]
    exact Nat.succ_pred_eq_of_pos (Nat.lt_of_le_of_lt (Nat.zero_le index) inside)
  rcases outcome with ⟨-, same⟩ | ⟨-, -, same⟩ | ⟨-, _, -, -, same⟩ | ⟨_, -, same⟩ |
    ⟨-, _, -, -, same⟩
  · rw [same]
    exact shorter
  · rw [same]
    exact shorter
  · rw [same]
    exact shorter
  · rw [same, size_goTo]
    exact shorter
  · rw [same]
    exact shorter

/-! ## Playing one interval -/

theorem target_ok (found : tape.target index offset = .ok position) :
    position < tape.size := by
  simp only [target] at found
  split at found
  next inside =>
    cases found
    omega
  next => cases found

theorem target_error (failed : tape.target index offset = .error error) :
    error = .corrupt (.jumpOutside index offset.toInt tape.size) ∧
      ¬(0 ≤ index + offset.toInt ∧ index + offset.toInt < tape.size) := by
  simp only [target] at failed
  split at failed
  next => cases failed
  next outside =>
    cases failed
    exact ⟨rfl, outside⟩

/-- On an empty tape there is nothing to look ahead to. Otherwise it is an interval of
the current block, which goes on, or ends with what the end of the block leads to. -/
theorem lookAhead_ok {answer : Option Advance} (looked : tape.lookAhead = .ok answer) :
    (tape.current = none ∧ answer = none) ∨
    ∃ index, ∃ inside : index < tape.tracks.size, tape.current = some index ∧
      let outcome := tape.tracks[index].step tape.config
      (outcome.1.ends = false ∧ answer = some ⟨outcome.1, index, outcome.2, none⟩) ∨
      (outcome.1.ends = true ∧ ∃ ending,
        tape.atEnd index tape.tracks[index].block = .ok ending ∧
        answer = some ⟨outcome.1, index, outcome.2, some ending⟩) := by
  unfold lookAhead at looked
  split at looked
  next none =>
    cases looked
    exact .inl ⟨none, rfl⟩
  next index here =>
    right
    split at looked
    next inside =>
      refine ⟨index, inside, here, ?_⟩
      dsimp only at looked ⊢
      split at looked
      next => cases looked
      next =>
        split at looked
        next ends =>
          obtain ⟨ending, ended, same⟩ := bind_ok.mp looked
          cases same
          exact .inr ⟨ends, ending, ended, rfl⟩
        next goesOn =>
          cases looked
          exact .inl ⟨by simpa using goesOn, rfl⟩
    next => cases looked

/-- Looking ahead fails when the cursor is off the tape, when a number in the progress
of the block would outgrow its word, or when the block ends and cannot be left. -/
theorem lookAhead_error (failed : tape.lookAhead = .error error) :
    ∃ index, tape.current = some index ∧
      (tape.size ≤ index ∨ ∃ inside : index < tape.tracks.size,
        tape.tracks[index].overflows = true ∨
        tape.atEnd index tape.tracks[index].block = .error error) := by
  unfold lookAhead at failed
  split at failed
  next => cases failed
  next index here =>
    refine ⟨index, here, ?_⟩
    split at failed
    next inside =>
      right
      refine ⟨inside, ?_⟩
      dsimp only at failed
      split at failed
      next outgrown => exact .inl outgrown
      next =>
        right
        split at failed
        next =>
          cases ending : tape.atEnd index tape.tracks[index].block with
          | error cause =>
              rw [ending] at failed
              cases failed
              rfl
          | ok answer =>
              rw [ending] at failed
              cases failed
        next => cases failed
    next outside => exact .inl (Nat.le_of_not_lt outside)

/-- A tape plays nothing when it is empty. Otherwise it plays an interval of the current
block, which goes on, or ends with what the end of the block leads to. -/
theorem nextEdge_ok (played : tape.nextEdge = .ok (edge, after)) :
    (tape.current = none ∧ edge = silence ∧ after = tape) ∨
    ∃ index, ∃ inside : index < tape.tracks.size, tape.current = some index ∧
      let outcome := tape.tracks[index].step tape.config
      let moved := tape.putTrack index outcome.2
      (outcome.1.ends = false ∧ edge = ⟨outcome.1.tstates, outcome.1.flags⟩ ∧ after = moved) ∨
      (outcome.1.ends = true ∧ ∃ control move,
        tape.atEnd index tape.tracks[index].block = .ok (control, move) ∧
        edge.tstates = outcome.1.tstates ∧
        (edge.flags, after) = (moved.withControl control).follow move outcome.1.flags) := by
  unfold nextEdge at played
  split at played
  next => cases played
  next looked =>
    cases played
    rcases lookAhead_ok looked with ⟨none, -⟩ | ⟨_, _, _, ⟨-, same⟩ | ⟨-, _, _, same⟩⟩
    · exact .inl ⟨none, rfl, rfl⟩
    · cases same
    · cases same
  next advance looked =>
    have carried := Except.ok.inj played
    rcases lookAhead_ok looked with ⟨-, same⟩ | ⟨index, inside, here, outcome⟩
    · cases same
    · refine .inr ⟨index, inside, here, ?_⟩
      rcases outcome with ⟨goesOn, same⟩ | ⟨ends, ⟨control, move⟩, ended, same⟩
      · cases same
        cases carried
        exact .inl ⟨goesOn, rfl, rfl⟩
      · cases same
        cases carried
        exact .inr ⟨ends, control, move, ended, rfl, rfl⟩

@[simp] theorem blocks_follow (tape : Tape) (move : Move) (flags : EdgeFlags) :
    (tape.follow move flags).2.blocks = tape.blocks := by
  unfold follow
  rcases move with place | place
  · exact blocks_goTo tape place
  · dsimp only
    split
    · exact blocks_goTo tape place
    · exact blocks_goTo tape.resetControl 0

theorem config_follow (tape : Tape) (move : Move) (flags : EdgeFlags) :
    (tape.follow move flags).2.config = tape.config := by
  unfold follow
  rcases move with place | place
  · rfl
  · dsimp only
    split <;> rfl

theorem nextEdge_keeps (played : tape.nextEdge = .ok (edge, after)) :
    after.blocks = tape.blocks ∧ after.config = tape.config := by
  rcases nextEdge_ok played with ⟨-, -, rfl⟩ | ⟨index, inside, -, outcome⟩
  · exact ⟨rfl, rfl⟩
  · have blocks : (tape.putTrack index (tape.tracks[index].step tape.config).2).blocks =
        tape.blocks := blocks_putTrack (Track.block_step _ _)
    rcases outcome with ⟨-, -, rfl⟩ | ⟨-, control, move, -, -, followed⟩
    · exact ⟨blocks, rfl⟩
    · rw [show after = (edge.flags, after).2 from rfl, followed, blocks_follow,
        blocks_withControl, config_follow]
      exact ⟨blocks, rfl⟩

theorem nextEdge_error (failed : tape.nextEdge = .error error) :
    tape.lookAhead = .error error := by
  unfold nextEdge at failed
  split at failed
  next looked =>
    cases failed
    exact looked
  next => cases failed
  next => cases failed

end Tape

end ZxMedia
