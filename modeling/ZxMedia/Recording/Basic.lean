import ZxMedia.Notice

/-!
# Input recordings

A recording holds what a program read from outside its machine while it ran, so that the
run can be repeated. It is a sequence of parts: blocks of input, snapshots of the
machine, and signatures. A block of input is a sequence of frames, and a frame has the
number of instructions up to the next interrupt and the octets read in that time. A
frame whose octets are those of the frame before is stored as a repetition.

A recording can be extended frame by frame, and it can be played; `recording` and
`cursor` say where either happens.
-/

namespace ZxMedia

/-- The program that made a recording. -/
structure Creator where
  name : String := "SPECTAPE"
  major : UInt16 := 0
  minor : UInt16 := 1
  custom : Octets := #[]
deriving Repr, DecidableEq

/-- The name and the version of a program. -/
def Creator.describe (creator : Creator) : String :=
  s!"{creator.name} {creator.major}.{creator.minor}"

/-- What was read during one frame. -/
structure Frame where
  /-- The number of instructions in the frame. -/
  instructions : UInt16
  /-- The number of octets read. -/
  count : UInt16
  /-- Whether the octets are those of the frame before. -/
  repeats : Bool
  /-- The octets, if they are not those of the frame before. -/
  input : Octets
deriving Repr, DecidableEq

namespace Frame

/-- The number of octets that marks a repetition in files. -/
def repeatMark : Nat := 0xFFFF

/-- The frame of some octets, which must be fewer than the mark of a repetition. -/
def ofInput (instructions : UInt16) (input : Octets) : Except Error Frame :=
  if input.size < repeatMark then
    .ok { instructions, count := UInt16.ofNat input.size, repeats := false, input }
  else .error (.corrupt (.frameInput input.size))

/-- A frame that repeats the octets of the one before. -/
def repetition (instructions count : UInt16) : Frame :=
  { instructions, count, repeats := true, input := #[] }

end Frame

/-- A block of input. -/
structure InputBlock where
  /-- The T-state counter at the beginning of the block. -/
  tstates : UInt32
  frames : Array Frame := #[]
deriving Repr, DecidableEq

/-- The frame whose octets a repetition at the end of the block would have. -/
def InputBlock.lastInput? (block : InputBlock) : Option Frame :=
  block.frames.findRev? fun frame => !frame.repeats

/-- A snapshot of the machine. -/
structure Snapshot where
  /-- The extension of files of its format. -/
  extension : String
  /-- Whether the data only describes a file that holds the snapshot. -/
  external : Bool
  data : Octets
deriving Repr, DecidableEq

/-- A signature of the part of a file that precedes it. -/
structure SignInfo where
  keyId : UInt32
  /-- The week of the signing, counted from the beginning of 1970. -/
  week : UInt32
  signature : Octets
  /-- The size of the signed part. -/
  signedSize : Nat
deriving Repr, DecidableEq

/-- The position of the player in a recording. -/
structure PlayCursor where
  /-- The index of the input block. -/
  part : Nat
  /-- The index of the frame. -/
  frame : Nat := 0
  /-- How many octets of the frame were read. -/
  readCount : Nat := 0
  /-- The index of the frame that has the octets of the present one. -/
  inputFrame : Nat := 0
deriving Repr, DecidableEq

namespace Recording

/-- A part of a recording. -/
inductive Part where
  | input (block : InputBlock)
  | snapshot (snapshot : Snapshot)
  | signature (info : SignInfo)
deriving Repr, DecidableEq

/-- The number of frames in a part. -/
def Part.frameCount : Part → Nat
  | input block => block.frames.size
  | _ => 0

/-- The signature that a part is. -/
def Part.signature? : Part → Option SignInfo
  | .signature info => some info
  | _ => none

end Recording

/-- An input recording. -/
structure Recording where
  creator : Creator := {}
  parts : Array Recording.Part := #[]
  /-- The T-state counter of the block that is recorded or played. -/
  tstates : UInt32 := 0
  /-- The index of the input block that is recorded. -/
  recording : Option Nat := none
  cursor : Option PlayCursor := none
deriving Repr, DecidableEq

namespace Recording

/-- Takes out all parts, and ends recording and playing. -/
def clear (recording : Recording) : Recording :=
  { creator := recording.creator }

/-- Counts more T-states. The counter is a word of 32 bits. -/
def incrementTstates (recording : Recording) (delta : UInt32) : Recording :=
  { recording with tstates := recording.tstates + delta }

/-- The first signature, if the recording is signed. -/
def signInfo? (recording : Recording) : Option SignInfo :=
  recording.parts.toList.findSome? Part.signature?

/-- The identifier of the key that signed the recording. -/
def signedBy? (recording : Recording) : Option UInt32 :=
  recording.signInfo?.map SignInfo.keyId

/-- The number of frames in all input blocks. -/
def frameCount (recording : Recording) : Nat :=
  recording.parts.foldl (fun total part => total + part.frameCount) 0

/-- Ends the recording of input. -/
def stopInput (recording : Recording) : Recording :=
  { recording with recording := none }

/-- Puts a part at the end, which ends the recording of input. -/
def pushPart (recording : Recording) (part : Part) : Recording :=
  { recording with parts := recording.parts.push part, recording := none }

/-- Starts an input block. -/
def startInput (recording : Recording) (tstates : UInt32) : Recording :=
  { recording with
    parts := recording.parts.push (.input { tstates })
    recording := some recording.parts.size
    tstates }

/-- The frame that is stored for some octets: a repetition if the octets are those of
the last frame that has any of its own. -/
def nextFrame (block : InputBlock) (instructions : UInt16) (input : Octets) :
    Except Error Frame :=
  match block.lastInput? with
  | some last =>
    if last.input = input then .ok (.repetition instructions last.count)
    else Frame.ofInput instructions input
  | none => Frame.ofInput instructions input

/-- The frame that is stored for some octets, and the index of the input block that is
recorded. -/
def frameToStore (recording : Recording) (instructions : UInt16) (input : Octets) :
    Except Error (Nat × Frame) :=
  match recording.recording with
  | none => .error (.logic .notRecording)
  | some index => match recording.parts[index]? with
    | some (.input block) => (nextFrame block instructions input).map fun frame => (index, frame)
    | _ => .error (.logic .notRecording)

/-- Puts a frame at the end of the input block at an index. -/
def pushFrame (recording : Recording) (index : Nat) (frame : Frame) : Recording :=
  { recording with
    parts := recording.parts.modify index fun
      | .input block => .input { block with frames := block.frames.push frame }
      | part => part }

/-- Stores a frame in the input block that is recorded. -/
@[inline] def store (recording : Recording) (instructions : UInt16) (input : Octets) :
    Except Error Recording :=
  match recording.frameToStore instructions input with
  | .error error => .error error
  | .ok (index, frame) => .ok (recording.pushFrame index frame)

end Recording

end ZxMedia
