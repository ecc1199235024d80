import ZxMedia.InPlace
import ZxMedia.Recording.Player

/-!
# Operations on recordings in place

A player works on a copy of its cursor and stores it in the recording when it knows
where to go. An operation in place that fails leaves the recording as far as it has been
changed until then: the start of playing has ended what was going on before, and the
others have changed nothing.
-/

namespace ZxMedia.Recording.InPlace

/-- Moves the player to the first frame of the input block at an index, which must have
octets of its own. -/
def enterInput (index : Nat) : InPlace Recording Unit := do
  let block ← InPlace.ask (·.inputAt index)
  if (block.frames[0]?.map Frame.repeats).getD false then throw (.corrupt .firstFrameRepeats)
  else modify fun recording => { recording with cursor := some { part := index } }

/-- Starts playing at the first frame, after the recording of input and any player were
stopped. -/
def startPlayback : InPlace Recording (Option Snapshot) := do
  modify fun recording => { recording with recording := none }
  modify fun recording => { recording with cursor := none }
  match (← get).nextInput 0 with
  | (none, _) => throw (.corrupt .noInput)
  | (some index, snapshot) =>
    enterInput index
    return snapshot

/-- Goes on to the next frame. -/
def playbackFrame : InPlace Recording FrameStep := do
  let cursor ← InPlace.ask position
  let block ← InPlace.ask (·.inputAt cursor.part)
  let recorded := frameInput block cursor.frame
  if cursor.readCount ≠ recorded then
    throw (.corrupt (.inputCount cursor.readCount recorded cursor.frame))
  else if maxIndex ≤ cursor.frame then throw .overflow
  else
    let cursor := { cursor with frame := cursor.frame + 1, readCount := 0 }
    match block.frames[cursor.frame]? with
    | some next =>
      let cursor :=
        if next.repeats then cursor else { cursor with inputFrame := cursor.frame }
      modify fun recording => { recording with cursor := some cursor }
      return .next
    | none => match (← get).nextInput (cursor.part + 1) with
      | (some index, snapshot) =>
        enterInput index
        return match snapshot with
          | some snapshot => .snapshot snapshot
          | none => .next
      | (none, _) =>
        modify fun recording => { recording with cursor := none }
        return .finished

/-- The next octet of the present frame. It is counted by the cursor of the recording,
not by the copy that the octet was found with. -/
def playback : InPlace Recording UInt8 := do
  let cursor ← InPlace.ask position
  let block ← InPlace.ask (·.inputAt cursor.part)
  let recorded := frameInput block cursor.frame
  if recorded ≤ cursor.readCount then throw (.corrupt (.inputExhausted recorded cursor.frame))
  else match block.frames[cursor.inputFrame]?.bind fun frame => frame.input[cursor.readCount]? with
    | none => throw (.corrupt .inputMissing)
    | some octet =>
      modify fun recording =>
        { recording with
          cursor := recording.cursor.map fun cursor =>
            { cursor with readCount := cursor.readCount + 1 } }
      return octet

/-- Stores a frame in the input block that is recorded. -/
def store (instructions : UInt16) (input : Octets) : InPlace Recording Unit := do
  let (index, frame) ← InPlace.ask (·.frameToStore instructions input)
  modify (·.pushFrame index frame)

end ZxMedia.Recording.InPlace
