import ZxMedia.Recording.Basic
import ZxMedia.Saved.Value

/-!
# Saved recordings

A recording is saved with the place where it is extended or played.
-/

namespace ZxMedia.Saved

open Value

/-- Saves the program that made a recording. -/
def saveCreator (creator : Creator) : Value :=
  .object [("name", .text creator.name), ("major", .ofWord creator.major),
    ("minor", .ofWord creator.minor), ("custom", .ofOctets creator.custom)]

/-- Restores the program that made a recording. -/
def restoreCreator? (value : Value) : Option Creator := do
  let fields ← value.fields? ["name", "major", "minor", "custom"]
  return {
    name := ← field? fields "name" text?
    major := ← field? fields "major" word?
    minor := ← field? fields "minor" word?
    custom := ← field? fields "custom" octets? }

/-- Saves a frame. -/
def saveFrame (frame : Frame) : Value :=
  .object [("instructions", .ofWord frame.instructions), ("count", .ofWord frame.count),
    ("repeat_last", .bool frame.repeats), ("input", .ofOctets frame.input)]

/-- Restores a frame. -/
def restoreFrame? (value : Value) : Option Frame := do
  let fields ← value.fields? ["instructions", "count", "repeat_last", "input"]
  return {
    instructions := ← field? fields "instructions" word?
    count := ← field? fields "count" word?
    repeats := ← field? fields "repeat_last" bool?
    input := ← field? fields "input" octets? }

/-- Saves an input block. -/
def saveInput (block : InputBlock) : Value :=
  .object [("tstates", .ofLongWord block.tstates), ("frames", .ofArray saveFrame block.frames)]

/-- Restores an input block. -/
def restoreInput? (value : Value) : Option InputBlock := do
  let fields ← value.fields? ["tstates", "frames"]
  return {
    tstates := ← field? fields "tstates" longWord?
    frames := ← field? fields "frames" (array? restoreFrame?) }

/-- Saves a snapshot. -/
def saveSnapshot (snapshot : Snapshot) : Value :=
  .object [("extension", .text snapshot.extension), ("external", .bool snapshot.external),
    ("data", .ofOctets snapshot.data)]

/-- Restores a snapshot. -/
def restoreSnapshot? (value : Value) : Option Snapshot := do
  let fields ← value.fields? ["extension", "external", "data"]
  return {
    extension := ← field? fields "extension" text?
    external := ← field? fields "external" bool?
    data := ← field? fields "data" octets? }

/-- Saves a signature. -/
def saveSignInfo (info : SignInfo) : Value :=
  .object [("key_id", .ofLongWord info.keyId), ("week", .ofLongWord info.week),
    ("signature", .ofOctets info.signature), ("signed_len", .ofNat info.signedSize)]

/-- Restores a signature. -/
def restoreSignInfo? (value : Value) : Option SignInfo := do
  let fields ← value.fields? ["key_id", "week", "signature", "signed_len"]
  return {
    keyId := ← field? fields "key_id" longWord?
    week := ← field? fields "week" longWord?
    signature := ← field? fields "signature" octets?
    signedSize := ← field? fields "signed_len" index? }

/-- Saves a part of a recording. -/
def savePart : Recording.Part → Value
  | .input block => ofVariant "Input" (saveInput block)
  | .snapshot snapshot => ofVariant "Snapshot" (saveSnapshot snapshot)
  | .signature info => ofVariant "Sign" (saveSignInfo info)

/-- Restores a part of a recording. -/
def restorePart? (value : Value) : Option Recording.Part :=
  match value.variant? with
  | some ("Input", some content) => (restoreInput? content).map .input
  | some ("Snapshot", some content) => (restoreSnapshot? content).map .snapshot
  | some ("Sign", some content) => (restoreSignInfo? content).map .signature
  | _ => none

/-- Saves the position of the player. -/
def saveCursor (cursor : PlayCursor) : Value :=
  .object [("block", .ofNat cursor.part), ("frame", .ofNat cursor.frame),
    ("in_count", .ofNat cursor.readCount), ("data_frame", .ofNat cursor.inputFrame)]

/-- Restores the position of the player. -/
def restoreCursor? (value : Value) : Option PlayCursor := do
  let fields ← value.fields? ["block", "frame", "in_count", "data_frame"]
  return {
    part := ← field? fields "block" index?
    frame := ← field? fields "frame" index?
    readCount := ← field? fields "in_count" index?
    inputFrame := ← field? fields "data_frame" index? }

/-- Saves a recording. -/
def saveRecording (recording : Recording) : Value :=
  .object [("creator", saveCreator recording.creator),
    ("blocks", .ofArray savePart recording.parts), ("tstates", .ofLongWord recording.tstates),
    ("recording", .ofOption .ofNat recording.recording),
    ("cursor", .ofOption saveCursor recording.cursor)]

/-- Restores a recording. -/
def restoreRecording? (value : Value) : Option Recording := do
  let fields ← value.fields? ["creator", "blocks", "tstates", "recording", "cursor"]
  return {
    creator := ← field? fields "creator" restoreCreator?
    parts := ← field? fields "blocks" (array? restorePart?)
    tstates := ← field? fields "tstates" longWord?
    recording := ← optionalField? fields "recording" index?
    cursor := ← optionalField? fields "cursor" restoreCursor? }

end ZxMedia.Saved
