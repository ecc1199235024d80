import ZxMedia.Proofs.Encoding
import ZxMedia.Recording.InPlace

/-!
# Operations on recordings in place leave what the others leave

An operation in place that fails leaves the recording as far as it has been changed. It
leaves what the operation that gives the recording anew leaves to its caller: the start
of playing leaves the recording idle when it fails, and the other operations have
changed nothing then.
-/

namespace ZxMedia.Recording.InPlace

open ZxMedia.InPlace

theorem change_enterInput (recording : Recording) (index : Nat) :
    change recording (enterInput index) =
      settle recording ((recording.enterInput index).map fun after => ((), after)) := by
  simp only [enterInput, Recording.enterInput, change_bind, change_ask]
  cases recording.inputAt index with
  | error error => rfl
  | ok block =>
      dsimp only
      split <;> rfl

theorem change_startPlayback (recording : Recording) :
    change recording startPlayback = recording.startPlayback := by
  have idle : { { recording with recording := none } with cursor := none } = recording.idle := rfl
  simp only [startPlayback, Recording.startPlayback, change_bind,
    change_modify, change_get, idle]
  rcases recording.idle.nextInput 0 with ⟨_ | index, snapshot⟩
  · rfl
  · simp only [change_bind, change_enterInput]
    cases recording.idle.enterInput index <;> rfl

theorem change_playback (recording : Recording) :
    change recording playback = settle recording recording.playback := by
  simp only [playback, Recording.playback, change_bind, change_ask]
  cases here : recording.cursor with
  | none =>
      simp only [position, here]
      rfl
  | some cursor =>
      simp only [position, here, ok_bind]
      cases recording.inputAt cursor.part with
      | error error => rfl
      | ok block =>
          simp only [ok_bind]
          split
          next => rfl
          next =>
            cases block.frames[cursor.inputFrame]?.bind fun frame =>
              frame.input[cursor.readCount]? with
            | none => rfl
            | some octet =>
                simp only [change_bind, change_modify, here]
                rfl

theorem change_playbackFrame (recording : Recording) :
    change recording playbackFrame = settle recording recording.playbackFrame := by
  simp only [playbackFrame, Recording.playbackFrame, change_bind, change_ask]
  cases recording.position with
  | error error => rfl
  | ok cursor =>
      simp only [ok_bind]
      cases recording.inputAt cursor.part with
      | error error => rfl
      | ok block =>
          simp only [ok_bind]
          split
          next => rfl
          next =>
            split
            next => rfl
            next =>
              cases block.frames[cursor.frame + 1]? with
              | some next =>
                  simp only [change_bind, change_modify]
                  cases next.repeats <;> rfl
              | none =>
                  simp only [change_bind, change_get]
                  rcases recording.nextInput (cursor.part + 1) with ⟨_ | index, snapshot⟩
                  · rfl
                  · simp only [change_bind, change_enterInput]
                    cases recording.enterInput index <;> rfl

theorem change_store (recording : Recording) (instructions : UInt16) (input : Octets) :
    change recording (store instructions input) =
      settle recording
        ((recording.store instructions input).map fun after => ((), after)) := by
  simp only [store, Recording.store, change_bind, change_ask]
  cases recording.frameToStore instructions input <;> rfl

end ZxMedia.Recording.InPlace
