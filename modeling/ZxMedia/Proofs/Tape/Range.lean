import ZxMedia.Proofs.Tape.Replay
import ZxMedia.Proofs.Tape.Words

/-!
# Numbers of a tape in the range of their words

`Tape.InWords` says that all numbers of a tape are in the range of their words, and that
its cursor and its loop are no further than to a limit. Such a tape need not be one that
playing leads to: the cursor may be off the tape, and a loop or a call may belong to no
block.

An operation keeps this, as what the blocks begin is held in range by the blocks, which
memory can hold. Only a block that is inserted in front of the cursor moves it on, by
one. So `InWords.run` says how far the cursor comes by any operations: to the limit and
as many blocks further as were added, or to the largest index.
-/

namespace ZxMedia

/-- The numbers of a loop and of a call are in the range of their words, and the loop
goes back to a place no further than a limit. -/
structure Control.InWords (control : Control) (limit : Nat) : Prop where
  loopBlock : ∀ start, control.loopBlock = some start → start ≤ limit
  loopCount : control.loopCount < UInt16.size
  call : ∀ call, control.call = some call → call.block < UInt64.size ∧ call.next < UInt64.size

namespace Control

theorem inWords_reset (limit : Nat) : ({} : Control).InWords limit where
  loopBlock _ begun := by cases begun
  loopCount := Nat.zero_lt_succ _
  call _ begun := by cases begun

theorem InWords.withLoop {control : Control} {limit start count : Nat}
    (words : control.InWords limit) (near : start ≤ limit) (short : count < UInt16.size) :
    InWords { control with loopBlock := some start, loopCount := count } limit where
  loopBlock _ begun := by
    cases begun
    exact near
  loopCount := short
  call := words.call

theorem InWords.endLoop {control : Control} {limit : Nat}
    (words : control.InWords limit) :
    InWords { control with loopBlock := none, loopCount := 0 } limit where
  loopBlock _ begun := by cases begun
  loopCount := Nat.zero_lt_succ _
  call := words.call

theorem InWords.withCall {control : Control} {limit block next : Nat}
    (words : control.InWords limit) (short : block < UInt64.size)
    (few : next < UInt64.size) :
    InWords { control with call := some { block, next } } limit where
  loopBlock := words.loopBlock
  loopCount := words.loopCount
  call _ begun := by
    cases begun
    exact ⟨short, few⟩

theorem InWords.endCall {control : Control} {limit : Nat}
    (words : control.InWords limit) :
    InWords { control with call := none } limit where
  loopBlock := words.loopBlock
  loopCount := words.loopCount
  call _ begun := by cases begun

end Control

namespace Tape

/-- The numbers of a tape are in the range of their words, and its cursor and its loop
are no further than a limit. -/
structure InWords (tape : Tape) (limit : Nat) : Prop where
  tracks : ∀ track ∈ tape.tracks, track.InWords
  current : ∀ index, tape.current = some index → index ≤ limit
  control : tape.toControl.InWords limit
  config : tape.config.frameTstates < UInt32.size

/-- What an operation brings to a tape is in the range of its words. -/
structure Operation.InWords (operation : Operation) : Prop where
  tracks : ∀ track ∈ operation.tracks, track.InWords
  config : ∀ config, operation = .setConfig config → config.frameTstates < UInt32.size

/-- The number of blocks that operations bring. -/
def added (operations : List Operation) : Nat :=
  (operations.flatMap Operation.tracks).length

variable {tape after : Tape} {index limit : Nat} {track : Track} {operation : Operation}

theorem added_cons (operation : Operation) (operations : List Operation) :
    added (operation :: operations) = operation.tracks.length + added operations := by
  simp [added]

/-! ## Numbers of blocks -/

theorem size_perform_le (tape : Tape) (operation : Operation) :
    (tape.perform operation).size ≤ tape.size + operation.tracks.length := by
  cases operation with
  | append track => exact Nat.le_of_eq (size_appendTrack tape track)
  | extend tracks => exact Nat.le_of_eq (size_foldl_appendTrack tape tracks)
  | insert index track =>
      simp only [perform]
      cases inserted : tape.insertTrack index track with
      | error error => exact Nat.le_add_right _ _
      | ok after => exact Nat.le_of_eq (size_insertTrack inserted)
  | remove index =>
      simp only [perform]
      cases removed : tape.removeTrack index with
      | error error => exact Nat.le_refl _
      | ok answer => exact Nat.le_of_succ_le (Nat.le_of_eq (size_removeTrack removed))
  | clear => exact Nat.zero_le _
  | select index =>
      simp only [perform, Tape.select]
      split
      · exact Nat.le_of_eq (size_goTo tape index)
      · exact Nat.le_refl _
  | rewind =>
      simp only [perform, Tape.rewind]
      split
      · exact Nat.le_refl _
      · exact Nat.le_of_eq (size_goTo tape.resetControl 0)
  | setConfig config => exact Nat.le_refl _
  | nextEdge =>
      simp only [perform]
      cases played : tape.nextEdge with
      | error error => exact Nat.le_refl _
      | ok answer => exact Nat.le_of_eq (size_eq_of_blocks (nextEdge_keeps played).1)

/-! ## Numbers of a tape -/

/-- What a block begins is in the range of its words, and a move to a block leads no
further than a limit. -/
structure Move.Within (limit : Nat) (control : Control) (move : Move) : Prop where
  control : control.InWords limit
  near : ∀ position, move = .to position → position ≤ limit

theorem Move.within_onTo {control : Control} (kept : control.InWords limit) :
    (Move.onTo index).Within limit control where
  control := kept
  near position leads := by cases leads

namespace InWords

theorem mono {higher : Nat} (words : tape.InWords limit) (le : limit ≤ higher) :
    tape.InWords higher where
  tracks := words.tracks
  current index here := Nat.le_trans (words.current index here) le
  control :=
    { loopBlock := fun start begun => Nat.le_trans (words.control.loopBlock start begun) le
      loopCount := words.control.loopCount
      call := words.control.call }
  config := words.config

theorem fits (words : tape.InWords limit) {block : Block}
    (found : tape.block? index = some block) :
    block.Fits := by
  obtain ⟨track, there, rfl⟩ := Option.map_eq_some_iff.mp found
  exact (words.tracks track (Array.mem_of_getElem? there)).fits

theorem withControl (words : tape.InWords limit) {control : Control}
    (begun : control.InWords limit) : (tape.withControl control).InWords limit where
  tracks := words.tracks
  current := words.current
  control := begun
  config := words.config

theorem goTo (words : tape.InWords limit) (near : index ≤ limit) :
    (tape.goTo index).InWords limit where
  tracks track member := by
    obtain ⟨place, inside, rfl⟩ := Array.mem_iff_getElem.mp member
    simp only [Tape.goTo, cueAt, Array.size_modify] at inside
    simp only [Tape.goTo, cueAt, Array.getElem_modify]
    have before := words.tracks tape.tracks[place] (Array.getElem_mem inside)
    split
    · exact Track.inWords_cue before.fits
    · exact before
  current place here := by
    cases here
    exact near
  control := words.control
  config := words.config

/-- Blocks may be edited, and the cursor set, where loops and calls are abandoned. -/
theorem edit (words : tape.InWords limit) {tracks : Array Track} {current : Option Nat}
    (each : ∀ track ∈ tracks, track.InWords)
    (near : ∀ index, current = some index → index ≤ limit) :
    ({ tape with tracks, current }.resetControl).InWords limit where
  tracks := each
  current := near
  control := Control.inWords_reset limit
  config := words.config

theorem appendTrack (words : tape.InWords limit) (brought : track.InWords) :
    (tape.appendTrack track).InWords limit := by
  have pushed : { tape with tracks := tape.tracks.push track }.InWords limit := by
    refine ⟨?_, words.current, words.control, words.config⟩
    intro found member
    rcases Array.mem_push.mp member with before | rfl
    · exact words.tracks found before
    · exact brought
  unfold Tape.appendTrack
  dsimp only
  split
  · exact pushed.goTo (Nat.zero_le limit)
  · exact pushed

theorem extend (words : tape.InWords limit) {tracks : List Track}
    (brought : ∀ track ∈ tracks, track.InWords) :
    (tracks.foldl Tape.appendTrack tape).InWords limit := by
  induction tracks generalizing tape with
  | nil => exact words
  | cons track tracks ih =>
      apply ih (words.appendTrack (brought track List.mem_cons_self))
      intro later member
      exact brought later (List.mem_cons_of_mem track member)

theorem insertTrack (words : tape.InWords limit) (limited : limit ≤ maxIndex)
    (brought : track.InWords) (inserted : tape.insertTrack index track = .ok after) :
    after.InWords (min (limit + 1) maxIndex) := by
  have higher := words.mono (Nat.le_min.mpr ⟨Nat.le_succ limit, limited⟩)
  obtain ⟨place, outcome⟩ := insertTrack_ok inserted
  have each : ∀ found ∈ tape.tracks.insertIdx index track place, found.InWords := by
    intro found member
    rcases Array.mem_insertIdx.mp member with rfl | before
    · exact brought
    · exact words.tracks found before
  rcases outcome with
      ⟨nowhere, rfl⟩ | ⟨current, here, -, near, rfl⟩ | ⟨current, here, -, rfl⟩
  · exact (higher.edit each higher.current).goTo (Nat.zero_le _)
  · apply higher.edit each
    rintro _ ⟨⟩
    exact Nat.le_min.mpr ⟨Nat.succ_le_succ (words.current current here), near⟩
  · exact higher.edit each higher.current

theorem removeTrack (words : tape.InWords limit) (size : tape.size ≤ limit)
    {answer : Track × Tape} (removed : tape.removeTrack index = .ok answer) :
    answer.2.InWords limit := by
  obtain ⟨inside, outcome⟩ := removeTrack_ok removed
  have each :
      ∀ found ∈ tape.tracks.eraseIdx index inside, found.InWords := fun found member =>
    words.tracks found (Array.mem_of_mem_eraseIdx member)
  have kept := words.edit each words.current
  rcases outcome with
      ⟨-, same⟩ | ⟨-, -, same⟩ | ⟨-, current, here, -, same⟩ | ⟨place, near, same⟩ |
    ⟨-, current, -, -, same⟩
  · rw [same]
    exact words.edit each (fun _ nowhere => by cases nowhere)
  · rw [same]
    exact kept
  · rw [same]
    apply words.edit each
    rintro _ ⟨⟩
    exact Nat.le_trans (Nat.sub_le current 1) (words.current current here)
  · have fewer := size_removeTrack removed
    rw [same, size_goTo] at fewer
    rw [same]
    exact kept.goTo (by omega)
  · rw [same]
    exact kept

theorem select (words : tape.InWords limit) (size : tape.size ≤ limit)
    (selected : tape.select index = .ok after) : after.InWords limit := by
  unfold Tape.select at selected
  split at selected
  next inside =>
    cases selected
    exact words.goTo (Nat.le_trans (Nat.le_of_lt inside) size)
  next => cases selected

theorem resetControl (words : tape.InWords limit) : tape.resetControl.InWords limit :=
  words.withControl (Control.inWords_reset limit)

theorem rewind (words : tape.InWords limit) : tape.rewind.InWords limit := by
  unfold Tape.rewind
  dsimp only
  split
  · exact words.resetControl
  · exact words.resetControl.goTo (Nat.zero_le limit)

theorem follow (words : tape.InWords limit) {move : Move} (size : tape.size ≤ limit)
    (near : ∀ position, move = .to position → position ≤ limit) (flags : EdgeFlags) :
    (tape.follow move flags).2.InWords limit := by
  unfold Tape.follow
  rcases move with place | place
  · exact words.goTo (near place rfl)
  · dsimp only
    split
    next inside => exact words.goTo (Nat.le_trans (Nat.le_of_lt inside) size)
    next => exact words.resetControl.goTo (Nat.zero_le limit)

theorem target_within {begun control : Control} {move : Move} {offset : Int16}
    (size : tape.size ≤ limit) (kept : begun.InWords limit)
    (moved : (tape.target index offset >>= fun position => pure (begun, Move.to position)) =
      .ok (control, move)) : move.Within limit control := by
  obtain ⟨position, reached, same⟩ := bind_ok.mp moved
  cases same
  refine ⟨kept, ?_⟩
  rintro _ ⟨⟩
  exact Nat.le_trans (Nat.le_of_lt (target_ok reached)) size

theorem returnFrom_within (words : tape.InWords limit) (size : tape.size ≤ limit)
    {call : CallState} {control : Control} {move : Move} (calling : tape.call = some call)
    (ended : tape.returnFrom call = .ok (control, move)) : move.Within limit control := by
  have kept := words.control
  obtain ⟨place, -⟩ := kept.call call calling
  unfold returnFrom at ended
  split at ended
  next offsets sequence =>
    split at ended
    next offset more =>
      obtain ⟨inside, -⟩ := Array.getElem?_eq_some_iff.mp more
      have fits : offsets.size < UInt64.size := words.fits sequence
      have next : call.next + 1 < UInt64.size := Nat.lt_of_le_of_lt inside fits
      exact target_within size (kept.withCall place next) ended
    next =>
      cases ended
      exact Move.within_onTo kept.endCall
  next => cases ended

theorem atEnd_within (words : tape.InWords limit) (size : tape.size ≤ limit)
    (limited : limit ≤ maxIndex) {block : Block} {control : Control} {move : Move}
    (inside : index < tape.size) (ended : tape.atEnd index block = .ok (control, move)) :
    move.Within limit control := by
  have kept := words.control
  have near : index + 1 ≤ limit := Nat.le_trans inside size
  cases block with
  | jump offset => exact target_within size kept ended
  | loopStart count =>
      cases ended
      exact Move.within_onTo (kept.withLoop near count.toNat_lt)
  | loopEnd =>
      unfold Tape.atEnd at ended
      dsimp only at ended
      split at ended
      next start begun =>
        split at ended
        next more =>
          have back := kept.loopBlock start begun
          have fewer := Nat.lt_of_le_of_lt (Nat.sub_le tape.loopCount 1) kept.loopCount
          cases ended
          refine ⟨⟨kept.loopBlock, fewer, kept.call⟩, ?_⟩
          rintro _ ⟨⟩
          exact back
        next =>
          cases ended
          exact Move.within_onTo kept.endLoop
      next =>
        cases ended
        exact Move.within_onTo kept
  | callSequence offsets =>
      unfold Tape.atEnd at ended
      dsimp only at ended
      split at ended
      next offset first =>
        have here : index < UInt64.size :=
          Nat.lt_of_le_of_lt (Nat.le_trans (Nat.le_of_lt near) limited) (by decide)
        exact target_within size (kept.withCall here (by decide)) ended
      next =>
        cases ended
        exact Move.within_onTo kept
  | callReturn =>
      unfold Tape.atEnd at ended
      dsimp only at ended
      split at ended
      next call calling => exact returnFrom_within words size calling ended
      next =>
        cases ended
        exact Move.within_onTo kept
  | _ =>
      cases ended
      exact Move.within_onTo kept

/-- Playing an interval keeps the numbers of a tape in the range of their words, and the
interval is in the range of its word. -/
theorem nextEdge (words : tape.InWords limit) (size : tape.size ≤ limit)
    (limited : limit ≤ maxIndex) {edge : Edge}
    (played : tape.nextEdge = .ok (edge, after)) :
    edge.tstates < UInt32.size ∧ after.InWords limit := by
  rcases nextEdge_ok played with ⟨-, rfl, rfl⟩ | ⟨index, inside, here, outcome⟩
  · exact ⟨Nat.zero_lt_succ _, words⟩
  · dsimp only at outcome
    obtain ⟨short, stepped⟩ :=
      (words.tracks _ (Array.getElem_mem inside)).step tape.config
    have moved : (tape.putTrack index (tape.tracks[index].step tape.config).2).InWords limit := by
      refine ⟨?_, words.current, words.control, words.config⟩
      intro found member
      rcases Array.mem_or_eq_of_mem_setIfInBounds member with before | rfl
      · exact words.tracks found before
      · exact stepped
    rcases outcome with ⟨-, rfl, rfl⟩ | ⟨-, control, move, ended, length, followed⟩
    · exact ⟨short, moved⟩
    · obtain ⟨begun, near⟩ := atEnd_within words size limited inside ended
      rw [length, show after = (edge.flags, after).2 from rfl, followed]
      refine ⟨short, (moved.withControl begun).follow ?_ near _⟩
      simpa [putTrack, Tape.size] using size

/-- Whatever is done to a tape, its numbers stay in the range of their words, and a
block that is added moves its cursor on by one at most. -/
theorem perform (words : tape.InWords limit) (size : tape.size ≤ limit)
    (limited : limit ≤ maxIndex)
    (brought : operation.InWords) :
    (tape.perform operation).InWords (min (limit + operation.tracks.length) maxIndex) := by
  have higher : limit ≤ min (limit + operation.tracks.length) maxIndex :=
    Nat.le_min.mpr ⟨Nat.le_add_right limit _, limited⟩
  cases operation with
  | append track =>
      exact (words.appendTrack (brought.tracks track (List.mem_singleton.mpr rfl))).mono higher
  | extend tracks => exact (words.extend brought.tracks).mono higher
  | insert index track =>
      simp only [Tape.perform]
      cases inserted : tape.insertTrack index track with
      | error error => exact words.mono higher
      | ok after =>
          have added := brought.tracks track (List.mem_singleton.mpr rfl)
          exact words.insertTrack limited added inserted
  | remove index =>
      simp only [Tape.perform]
      cases removed : tape.removeTrack index with
      | error error => exact words.mono higher
      | ok answer => exact (words.removeTrack size removed).mono higher
  | clear =>
      refine (words.edit ?_ ?_).mono higher
      · intro _ member
        exact absurd member (Array.not_mem_empty _)
      · intro _ nowhere
        cases nowhere
  | select index =>
      simp only [Tape.perform]
      cases selected : tape.select index with
      | error error => exact words.mono higher
      | ok after => exact (words.select size selected).mono higher
  | rewind => exact words.rewind.mono higher
  | setConfig config =>
      have changed : (tape.setConfig config).InWords limit :=
        ⟨words.tracks, words.current, words.control, brought.config config rfl⟩
      exact changed.mono higher
  | nextEdge =>
      simp only [Tape.perform]
      cases played : tape.nextEdge with
      | error error => exact words.mono higher
      | ok answer => exact (words.nextEdge size limited played).2.mono higher

end InWords

/-- The numbers of a tape stay in the range of their words, and each block that is added
moves its cursor on by one at most. -/
theorem InWords.run (words : tape.InWords limit) (size : tape.size ≤ limit)
    (limited : limit ≤ maxIndex) {operations : List Operation}
    (room : tape.size + added operations ≤ maxIndex)
    (brought : ∀ operation ∈ operations, operation.InWords) :
    (tape.run operations).InWords (min (limit + added operations) maxIndex) := by
  induction operations generalizing tape limit with
  | nil => exact words.mono (Nat.le_min.mpr ⟨Nat.le_add_right limit _, limited⟩)
  | cons operation operations ih =>
      rw [added_cons] at room ⊢
      have grown := tape.size_perform_le operation
      have first := words.perform size limited (brought operation List.mem_cons_self)
      have later :=
        ih first (by omega) (Nat.min_le_right _ _) (by omega) fun later member =>
        brought later (List.mem_cons_of_mem operation member)
      exact later.mono (by omega)

end Tape

end ZxMedia
