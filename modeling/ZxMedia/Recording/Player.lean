import ZxMedia.Recording.Basic

/-!
# Playing recordings

The player goes through the frames of all input blocks in order. Within a frame the
recorded octets are asked for one by one, and the frame can only be left when all of
them have been. When a step enters another input block, the first snapshot that stands
between the two blocks comes with it.
-/

namespace ZxMedia

/-- What leaving a frame leads to. -/
inductive FrameStep where
  /-- The next frame. -/
  | next
  /-- The next frame, after a snapshot is loaded. -/
  | snapshot (snapshot : Snapshot)
  /-- The end of the recording. -/
  | finished
deriving Repr, DecidableEq

namespace Recording

/-- Looks for the first input block with frames among parts, which begin at an index:
its index if there is one, and the first snapshot before it. -/
def findInput : List Part → Nat → Option Snapshot → Option Nat × Option Snapshot
  | [], _, snapshot => (none, snapshot)
  | .input block :: parts, index, snapshot =>
    if block.frames.isEmpty then findInput parts (index + 1) snapshot
    else (some index, snapshot)
  | .snapshot found :: parts, index, snapshot =>
    findInput parts (index + 1) (snapshot.or (some found))
  | .signature _ :: parts, index, snapshot => findInput parts (index + 1) snapshot

/-- The first input block with frames from an index on, and the first snapshot before
it. -/
def nextInput (recording : Recording) (start : Nat) : Option Nat × Option Snapshot :=
  findInput (recording.parts.toList.drop start) start none

/-- The input block at an index. -/
def inputAt (recording : Recording) (index : Nat) : Except Error InputBlock :=
  match recording.parts[index]? with
  | some (.input block) => .ok block
  | _ => .error (.logic .cursorOffInput)

/-- The position of the player. -/
def position (recording : Recording) : Except Error PlayCursor :=
  match recording.cursor with
  | some cursor => .ok cursor
  | none => .error (.logic .notPlaying)

/-- Moves the player to the first frame of the input block at an index, which must have
octets of its own. -/
def enterInput (recording : Recording) (index : Nat) : Except Error Recording :=
  match recording.inputAt index with
  | .error error => .error error
  | .ok block =>
    if (block.frames[0]?.map Frame.repeats).getD false then .error (.corrupt .firstFrameRepeats)
    else .ok { recording with cursor := some { part := index } }

/-- A recording that is neither extended nor played. -/
def idle (recording : Recording) : Recording :=
  { recording with recording := none, cursor := none }

/-- Starts playing at the first frame: the first snapshot before it, and the recording,
which is left idle if it can not be played. -/
def startPlayback (recording : Recording) : Except Error (Option Snapshot) × Recording :=
  match recording.idle.nextInput 0 with
  | (none, _) => (.error (.corrupt .noInput), recording.idle)
  | (some index, snapshot) => match recording.idle.enterInput index with
    | .error error => (.error error, recording.idle)
    | .ok entered => (.ok snapshot, entered)

/-- The number of octets recorded for the frame at an index. -/
def frameInput (block : InputBlock) (frame : Nat) : Nat :=
  (block.frames[frame]?.map fun frame => frame.count.toNat).getD 0

/-- The largest index that a machine word can say. -/
def maxIndex : Nat := UInt64.size - 1

/-- Goes on to the next frame: what that leads to, and the recording. -/
def playbackFrame (recording : Recording) : Except Error (FrameStep × Recording) := do
  let cursor ← recording.position
  let block ← recording.inputAt cursor.part
  let recorded := frameInput block cursor.frame
  if cursor.readCount ≠ recorded then
    throw (.corrupt (.inputCount cursor.readCount recorded cursor.frame))
  if maxIndex ≤ cursor.frame then throw .overflow
  let frame := cursor.frame + 1
  match block.frames[frame]? with
  | some next =>
    let inputFrame := if next.repeats then cursor.inputFrame else frame
    let cursor : PlayCursor := { part := cursor.part, frame, inputFrame }
    return (.next, { recording with cursor := some cursor })
  | none => match recording.nextInput (cursor.part + 1) with
    | (none, _) => return (.finished, { recording with cursor := none })
    | (some index, snapshot) =>
      let entered ← recording.enterInput index
      return (match snapshot with
        | some snapshot => .snapshot snapshot
        | none => .next, entered)

/-- The next octet of the present frame, and the recording. -/
def playback (recording : Recording) : Except Error (UInt8 × Recording) := do
  let cursor ← recording.position
  let block ← recording.inputAt cursor.part
  let recorded := frameInput block cursor.frame
  if recorded ≤ cursor.readCount then
    throw (.corrupt (.inputExhausted recorded cursor.frame))
  match block.frames[cursor.inputFrame]?.bind fun frame => frame.input[cursor.readCount]? with
  | none => throw (.corrupt .inputMissing)
  | some octet =>
    let cursor := { cursor with readCount := cursor.readCount + 1 }
    return (octet, { recording with cursor := some cursor })

/-- Octets read one by one, the recording after them, and the error that ended the
reading. -/
structure Reading where
  octets : Octets := #[]
  recording : Recording
  error : Option Error := none
deriving Repr, DecidableEq

/-- Reads up to so many more octets of the present frame, up to an error. -/
def readOn : Nat → Reading → Reading
  | 0, reading => reading
  | count + 1, reading => match reading.recording.playback with
    | .error error => { reading with error := some error }
    | .ok (octet, recording) =>
      readOn count { reading with octets := reading.octets.push octet, recording }

/-- The number of octets recorded for the present frame. -/
def recordedCount (recording : Recording) : Nat :=
  match recording.cursor with
  | none => 0
  | some cursor => match recording.inputAt cursor.part with
    | .ok block => frameInput block cursor.frame
    | .error _ => 0

/-- Reads the octets recorded for the present frame. -/
def readFrame (recording : Recording) : Reading :=
  readOn recording.recordedCount { recording }

/-- The number of instructions of the present frame. -/
def instructions? (recording : Recording) : Option UInt16 := do
  let cursor ← recording.cursor
  match recording.parts[cursor.part]? with
  | some (.input block) => (block.frames[cursor.frame]?).map Frame.instructions
  | _ => none

end Recording

end ZxMedia
