import ZxMedia.Tape.InPlace
import ZxMedia.Proofs.Tape.Overflow

/-!
# Operations in place leave what the others leave

An operation in place that fails leaves the tape as far as it has been changed, the
others give no tape then, and their caller keeps the one that it had. `settle` puts
these answers beside each other. They agree: an operation in place that fails has
changed nothing (`change_inPlace`). For playing an interval this is so because what can
fail is the end of a block that has no progress to be stored, and because a target is
found before the loop or the call that it belongs to is set.

One failure is left out. An insertion counts the cursor up after it has put the block in
its place, and finds only then that the index would outgrow its word.
-/

namespace ZxMedia.Tape

open ZxMedia.InPlace

variable {tape : Tape} {index : Nat} {operation : Operation}

/-- An operation, in place. -/
def Operation.inPlace : Operation → InPlace Tape Unit
  | .insert index track => InPlace.insertTrack index track
  | .remove index => discard (InPlace.removeTrack index)
  | .select index => InPlace.select index
  | .nextEdge => discard InPlace.nextEdge
  | operation => modify (·.perform operation)

namespace InPlace

/-! ## The end of a block -/

theorem change_target (tape : Tape) (index : Nat) (offset : Int16) :
    change tape (target index offset) = (tape.target index offset, tape) :=
  change_ask tape _

theorem change_jump (tape : Tape) (index : Nat) (offset : Int16) (control : Control) :
    change tape (do
        let position ← target index offset
        setControl control
        return Move.to position) =
      settle tape (do
        let position ← tape.target index offset
        return (.to position, tape.withControl control)) := by
  rw [change_bind, change_target]
  cases tape.target index offset <;> rfl

theorem change_returnFrom (tape : Tape) (call : CallState) :
    change tape (returnFrom call) =
      settle tape ((tape.returnFrom call).map fun (control, move) =>
        (move, tape.withControl control)) := by
  simp only [returnFrom, Tape.returnFrom, change_bind, change_get]
  cases tape.block? call.block with
  | none => rfl
  | some block =>
      cases block with
      | callSequence offsets =>
          dsimp only
          cases offsets[call.next]? with
          | none => rfl
          | some offset =>
              dsimp only
              rw [change_jump]
              cases tape.target call.block offset <;> rfl
      | _ => rfl

theorem change_takeEffect (tape : Tape) (index : Nat) (block : Block) :
    change tape (takeEffect index block) =
      settle tape ((tape.atEnd index block).map fun (control, move) =>
        (move, tape.withControl control)) := by
  unfold takeEffect atEnd
  cases block with
  | jump offset =>
      simp only [change_bind, change_get, change_target]
      cases tape.target index offset <;> rfl
  | callSequence offsets =>
      simp only [change_bind, change_get]
      cases offsets[0]? with
      | none => rfl
      | some offset =>
          dsimp only
          rw [change_jump]
          cases tape.target index offset <;> rfl
  | loopEnd =>
      simp only [change_bind, change_get]
      cases tape.loopBlock with
      | none => rfl
      | some start =>
          dsimp only
          split <;> rfl
  | callReturn =>
      simp only [change_bind, change_get]
      cases tape.call with
      | none => rfl
      | some call => exact change_returnFrom tape call
  | _ => rfl

theorem change_follow (tape : Tape) (move : Move) (flags : EdgeFlags) :
    change tape (follow move { flags with block := true }) =
      (.ok (tape.follow move flags).1, (tape.follow move flags).2) := by
  rcases move with place | place
  · rfl
  · simp only [follow, Tape.follow, change_bind, change_get]
    split <;> rfl

/-! ## Playing an interval -/

theorem atEnd_of_goesOn {track : Track} {config : PlaybackConfig}
    (goesOn : (track.step config).1.ends = false) (tape : Tape) (index : Nat) :
    tape.atEnd index track.block = .ok (tape.toControl, .onTo (index + 1)) := by
  obtain ⟨block, progress⟩ := track
  cases block with
  | jump | loopStart | loopEnd | callSequence | callReturn => cases goesOn
  | _ => rfl

theorem step_of_error {track : Track} {error : Error}
    (failed : tape.atEnd index track.block = .error error) (config : PlaybackConfig) :
    (track.step config).2 = track := by
  obtain ⟨block, progress⟩ := track
  cases block with
  | jump | loopStart | loopEnd | callSequence | callReturn => rfl
  | _ => cases failed

theorem putTrack_self {track : Track} (here : tape.tracks[index]? = some track) :
    tape.putTrack index track = tape := by
  obtain ⟨inside, rfl⟩ := Array.getElem?_eq_some_iff.mp here
  simp only [putTrack, Array.setIfInBounds, inside, dite_true, Array.set_getElem_self]

/-- Playing an interval in place leaves the tape as it was unless it succeeds. -/
theorem change_nextEdge (tape : Tape) :
    change tape nextEdge = settle tape tape.nextEdge := by
  simp only [nextEdge, Tape.nextEdge, lookAhead, change_bind, change_get]
  cases tape.current with
  | none => rfl
  | some index =>
      dsimp only
      by_cases inside : index < tape.tracks.size
      · have there := Array.getElem?_eq_getElem inside
        simp only [inside, there, dite_true]
        generalize tape.tracks[index] = track at there
        cases track.overflows with
        | true => rfl
        | false =>
            have goesOn := @atEnd_of_goesOn track tape.config
            have still := @step_of_error tape index track
            have unchanged :=
              atEnd_putTrack there (track.block_step tape.config) index track.block
            rcases stepped : track.step tape.config with ⟨step, played⟩
            rw [stepped] at goesOn unchanged
            simp only [Bool.false_eq_true, if_false, change_bind, change_modify,
              change_takeEffect, unchanged]
            cases ended : tape.atEnd index track.block with
            | error error =>
                cases ends : step.ends with
                | false =>
                    rw [goesOn ends tape index] at ended
                    cases ended
                | true =>
                    -- The progress that was stored is the one that the block had.
                    have same := still ended tape.config
                    rw [stepped] at same
                    dsimp only at same
                    subst same
                    rw [putTrack_self there]
                    rfl
            | ok ending =>
                obtain ⟨control, move⟩ := ending
                cases ends : step.ends with
                | false =>
                    rw [goesOn ends tape index] at ended
                    cases ended
                    rfl
                | true =>
                    simp only [Except.map, settle, if_true, change_bind, change_follow]
                    rfl
      · simp only [inside, getElem?_neg, not_false_eq_true, dite_false]
        rfl

/-! ## Editing -/

/-- An insertion answers the same in place, even where it has left a tape that is half
changed. -/
theorem answer_insertTrack (tape : Tape) (index : Nat) (track : Track) :
    (change tape (insertTrack index track)).1 =
      (tape.insertTrack index track).map fun _ => () := by
  simp only [insertTrack, Tape.insertTrack, change_bind, change_get]
  by_cases place : index ≤ tape.tracks.size
  · have inside : ¬tape.size < index := Nat.not_lt_of_le place
    simp only [place, inside, dite_true, if_false, change_bind, change_modify]
    cases tape.current with
    | none => rfl
    | some current =>
        dsimp only
        split
        next => split <;> rfl
        next => rfl
  · have outside : tape.size < index := Nat.lt_of_not_le place
    simp only [place, outside, dite_false, if_true]
    rfl

theorem change_insertTrack {track : Track}
    (counted : tape.insertTrack index track ≠ .error .overflow) :
    change tape (insertTrack index track) =
      settle tape ((tape.insertTrack index track).map fun after => ((), after)) := by
  simp only [insertTrack, Tape.insertTrack, change_bind, change_get] at counted ⊢
  by_cases place : index ≤ tape.tracks.size
  · have inside : ¬tape.size < index := Nat.not_lt_of_le place
    simp only [place, inside, dite_true, if_false, change_bind, change_modify,
      Array.insertIdxIfInBounds] at counted ⊢
    cases here : tape.current with
    | none => rfl
    | some current =>
        simp only [here] at counted ⊢
        split
        next before =>
          split
          next far =>
            rw [if_pos before, if_pos far] at counted
            exact absurd rfl counted
          next => rfl
        next => rfl
  · have outside : tape.size < index := Nat.lt_of_not_le place
    simp only [place, outside, dite_false, if_true]
    rfl

theorem change_removeTrack (tape : Tape) (index : Nat) :
    change tape (removeTrack index) = settle tape (tape.removeTrack index) := by
  simp only [removeTrack, Tape.removeTrack, change_bind, change_get]
  by_cases inside : index < tape.tracks.size
  · simp only [Array.getElem?_eq_getElem inside, inside, dite_true,
      change_bind, change_get, change_modify, Array.eraseIdxIfInBounds]
    split
    next => rfl
    next =>
      cases tape.current with
      | none => rfl
      | some current =>
          dsimp only
          split
          next => rfl
          next => split <;> rfl
  · simp only [inside, getElem?_neg, not_false_eq_true, dite_false]
    rfl

theorem change_select (tape : Tape) (index : Nat) :
    change tape (select index) =
      settle tape ((tape.select index).map fun after => ((), after)) := by
  simp only [select, Tape.select, change_bind, change_get]
  split <;> rfl

end InPlace

/-! ## Operations -/

/-- An operation in place leaves the tape that the operation gives, or the tape as it
was. -/
theorem change_inPlace (counted : tape.attempt operation ≠ .error .overflow) :
    change tape operation.inPlace =
      settle tape ((tape.attempt operation).map fun after => ((), after)) := by
  cases operation with
  | insert index track => exact InPlace.change_insertTrack counted
  | remove index => exact change_discard_settle (InPlace.change_removeTrack tape index)
  | select index => exact InPlace.change_select tape index
  | nextEdge => exact change_discard_settle (InPlace.change_nextEdge tape)
  | _ => rfl

theorem answer_inPlace (tape : Tape) (operation : Operation) :
    (change tape operation.inPlace).1 = (tape.attempt operation).map fun _ => () := by
  cases operation with
  | insert index track => exact InPlace.answer_insertTrack tape index track
  | remove index =>
      exact answer_of_settle (change_discard_settle (InPlace.change_removeTrack tape index))
  | select index => exact answer_of_settle (InPlace.change_select tape index)
  | nextEdge => exact answer_of_settle (change_discard_settle (InPlace.change_nextEdge tape))
  | _ => rfl

end ZxMedia.Tape
