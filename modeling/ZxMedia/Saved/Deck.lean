import ZxMedia.Deck
import ZxMedia.Saved.Tape

/-!
# Saved recorders and decks

A recorder is saved with the octets received so far, and a deck with the tape in it.
-/

namespace ZxMedia.Saved

open Value

/-- Saves what a recorder is waiting for. -/
def saveRecordState : RecordState → Value
  | .idle => .text "Idle"
  | .lead count => ofVariant "Lead" (.object [("counter", .ofNat count)])
  | .sync1 => .text "Sync1"
  | .sync2 => .text "Sync2"
  | .data bits pulses =>
    ofVariant "Data" (.object [("current", .ofByte bits), ("pulse", .ofNat pulses)])

/-- The states of a recorder that have no content, by their names. -/
def plainRecordStates : List (String × RecordState) :=
  [("Idle", .idle), ("Sync1", .sync1), ("Sync2", .sync2)]

/-- Restores what a recorder is waiting for. -/
def restoreRecordState? (value : Value) : Option RecordState :=
  match choice? plainRecordStates value with
  | some state => some state
  | none => match value.variant? with
    | some ("Lead", some content) => do
      let fields ← content.entries?
      return .lead (← field? fields "counter" (below? UInt32.size))
    | some ("Data", some content) => do
      let fields ← content.entries?
      return .data (← field? fields "current" byte?) (← field? fields "pulse" (below? UInt8.size))
    | _ => none

/-- Saves a recorder. -/
def saveRecorder (recorder : Recorder) : Value :=
  .object [("state", saveRecordState recorder.state), ("data", .ofOctets recorder.data),
    ("pause", .ofWord recorder.pause)]

/-- Restores a recorder. -/
def restoreRecorder? (value : Value) : Option Recorder := do
  let fields ← value.fields? ["state", "data", "pause"]
  return {
    state := ← field? fields "state" restoreRecordState?
    data := ← field? fields "data" octets?
    pause := ← field? fields "pause" word? }

/-- Saves an inserted tape. -/
def saveCassette : Cassette → Value
  | .reader tape => ofVariant "Reader" (saveTape tape)
  | .writer tape recorder => ofVariant "Writer" <| .object
    [("tape", saveTape tape), ("recorder", saveRecorder recorder)]

/-- Restores an inserted tape. -/
def restoreCassette? (value : Value) : Option Cassette :=
  match value.variant? with
  | some ("Reader", some content) => (restoreTape? content).map .reader
  | some ("Writer", some content) => do
    let fields ← content.entries?
    return .writer (← field? fields "tape" restoreTape?)
      (← field? fields "recorder" restoreRecorder?)
  | _ => none

/-- Saves a deck. -/
def saveDeck (deck : Deck) : Value :=
  .object [("running", .bool deck.running), ("cassette", .ofOption saveCassette deck.cassette),
    ("stop_on_48k", .bool deck.stopOn48k), ("overshoot", .ofNat deck.overshoot)]

/-- Restores a deck. -/
def restoreDeck? (value : Value) : Option Deck := do
  let fields ← value.fields? ["running", "cassette", "stop_on_48k", "overshoot"]
  return {
    running := ← field? fields "running" bool?
    cassette := ← optionalField? fields "cassette" restoreCassette?
    stopOn48k := ← field? fields "stop_on_48k" bool?
    overshoot := ← field? fields "overshoot" (below? UInt32.size) }

end ZxMedia.Saved
