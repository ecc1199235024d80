import ZxMedia.Tape.PulseReader
import ZxMedia.Tape.Recorder

/-!
# A tape deck

A deck plays or records the tape that is inserted, frame by frame of the machine it is
connected to. A played pulse may extend past the end of a frame; the excess is kept as
overshoot and counts for the next frame, so that no time is lost or gained.

Playing a tape that was being recorded rewinds it, and recording on a tape that was
being played appends to it. Whenever a recording ends, the octets received so far become
a last block.
-/

namespace ZxMedia

/-- An inserted tape, for reading or for writing. -/
inductive Cassette where
  | reader (tape : Tape)
  | writer (tape : Tape) (recorder : Recorder)

namespace Cassette

/-- Whether the tape is inserted for writing. -/
def isWriter : Cassette → Bool
  | writer _ _ => true
  | reader _ => false

/-- The tape as it is. -/
def tape : Cassette → Tape
  | reader tape => tape
  | writer tape _ => tape

/-- The tape with what is being recorded put at its end. -/
def finish : Cassette → Except Error Tape
  | reader tape => .ok tape
  | writer tape recorder => match recorder.finish with
    | .error error => .error error
    | .ok (some block, _) => .ok (tape.append block)
    | .ok (none, _) => .ok tape

end Cassette

/-- What a deck does. -/
inductive DeckState where
  | idle | playing | recording
deriving Repr, DecidableEq

/-- A deck with the tape inserted in it. -/
structure Deck where
  /-- Whether the deck plays or records, if a tape is inserted. -/
  running : Bool := false
  cassette : Option Cassette := none
  /-- Whether the tape also stops where it should on a machine with 48K of memory. -/
  stopOn48k : Bool := false
  /-- How far the last pulse extends past the frame it was played in. -/
  overshoot : Nat := 0

namespace Deck

/-- A deck with a tape inserted for reading. -/
def ofTape (tape : Tape) : Deck :=
  { cassette := some (.reader tape) }

/-- What a deck does. -/
def state (deck : Deck) : DeckState :=
  if deck.running then
    match deck.cassette with
    | some (.reader _) => .playing
    | some (.writer _ _) => .recording
    | none => .idle
  else .idle

/-- Whether a tape is inserted. -/
def isInserted (deck : Deck) : Bool :=
  deck.cassette.isSome

/-- Whether a tape is played or recorded. -/
def isRunning (deck : Deck) : Bool :=
  deck.running && deck.isInserted

/-- Whether a tape is played. -/
def isPlaying (deck : Deck) : Bool :=
  deck.state = .playing

/-- Whether a tape is recorded. -/
def isRecording (deck : Deck) : Bool :=
  deck.state = .recording

/-- The inserted tape. -/
def tape? (deck : Deck) : Option Tape :=
  deck.cassette.map Cassette.tape

/-- The inserted tape with its recording brought to an end. -/
def finishTape (deck : Deck) : Except Error (Option Tape) :=
  match deck.cassette with
  | none => .ok none
  | some cassette => cassette.finish.map some

/-- Puts a cassette in the place of the inserted one, which comes out as a tape. -/
def exchange (deck : Deck) (cassette : Cassette) : Except Error (Option Tape × Deck) := do
  let out ← deck.finishTape
  return (out, { deck with cassette := some cassette, overshoot := 0 })

/-- Inserts a tape for reading. -/
def insert (deck : Deck) (tape : Tape) : Except Error (Option Tape × Deck) :=
  deck.exchange (.reader tape)

/-- Inserts a tape for writing. -/
def insertAsWriter (deck : Deck) (tape : Tape) : Except Error (Option Tape × Deck) :=
  deck.exchange (.writer tape {})

/-- Stops the deck and takes the tape out. -/
def eject (deck : Deck) : Except Error (Option Tape × Deck) := do
  let out ← deck.finishTape
  return (out, { deck with running := false, cassette := none, overshoot := 0 })

/-- Starts playing: whether that changes anything, and the deck. A tape that was
inserted for writing is brought to its end and rewound. -/
def play (deck : Deck) : Except Error (Bool × Deck) :=
  match deck.cassette with
  | some (.writer tape recorder) => do
    let tape ← (Cassette.writer tape recorder).finish
    return (true,
      { deck with running := true, cassette := some (.reader tape.rewind), overshoot := 0 })
  | _ => .ok (!deck.running, { deck with running := true })

/-- Starts recording: whether that changes anything, and the deck. -/
def record (deck : Deck) : Bool × Deck :=
  match deck.cassette with
  | some (.reader tape) =>
    (true, { deck with running := true, cassette := some (.writer tape {}) })
  | _ => (!deck.running, { deck with running := true })

/-- Stops playing or recording. -/
def stop (deck : Deck) : Deck :=
  { deck with running := false }

/-- Rewinds a tape that is inserted for reading: whether there is one, and the deck. -/
def rewind (deck : Deck) : Bool × Deck :=
  match deck.cassette with
  | some (.reader tape) =>
    (true, { deck with cassette := some (.reader tape.rewind), overshoot := 0 })
  | _ => (false, deck)

/-- Reads pulses until so much time has passed or the tape ends: the time, the pulses
and the reader. Every pulse takes time, so the budget bounds the steps. -/
def gather (patience budget : Nat) :
    Nat → Nat → Array Nat → PulseReader → Except Error (Nat × Array Nat × PulseReader)
  | 0, elapsed, pulses, reader => .ok (elapsed, pulses, reader)
  | steps + 1, elapsed, pulses, reader =>
    if budget ≤ elapsed then .ok (elapsed, pulses, reader)
    else match reader.next patience with
      | (.pulse tstates, reader) =>
        gather patience budget steps (addTstates elapsed tstates) (pulses.push tstates) reader
      | (.finished, reader) => .ok (elapsed, pulses, reader)
      | (.outOfPatience, _) => .error .endless

/-- The answer of a deck to a request for the pulses of a frame. -/
structure Frame where
  result : Except Error (Array Nat)
  deck : Deck
  notices : Array Notice := #[]

/-- Plays a frame of so many T-states, looking at so many intervals for each pulse at
most. The pulses are those that begin in the frame, and the last one may extend past its
end. The deck stops when the tape does. -/
def earPulses (patience : Nat) (deck : Deck) (budget : Nat) : Frame :=
  match deck.running, deck.cassette with
  | true, some (.reader tape) =>
    if budget ≤ deck.overshoot then
      { result := .ok #[], deck := { deck with overshoot := deck.overshoot - budget } }
    else match gather patience budget budget deck.overshoot #[] (.ofTape tape deck.stopOn48k) with
      | .error error => { result := .error error, deck }
      | .ok (elapsed, pulses, reader) =>
        let played :=
          { deck with
            running := !reader.done
            cassette := some (.reader reader.tape)
            overshoot := if reader.done then 0 else elapsed - budget }
        let result := match reader.error with
          | some error => .error error
          | none => .ok pulses
        { result, deck := played, notices := reader.notices }
  | _, _ => { result := .ok #[], deck }

/-- Records the pulses of a frame, if the deck records: how many blocks came out, and
the deck. -/
def recordMicPulses (deck : Deck) (pulses : List Nat) : Except Error (Nat × Deck) :=
  match deck.running, deck.cassette with
  | true, some (.writer tape recorder) => do
    let (count, tape, recorder) ← recorder.record tape pulses
    return (count, { deck with cassette := some (.writer tape recorder) })
  | _, _ => .ok (0, deck)

end Deck

end ZxMedia
