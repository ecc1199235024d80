import ZxMedia.Tape.Playback

/-!
# Pulses of a tape

A pulse is the time between two edges of the signal. A reader plays a tape interval by
interval, joins the intervals that end without an edge to the ones after them, and ends
with the interval at which the tape stops or fails.

A tape whose blocks lead to each other without a signal is played for ever without a
pulse. Whoever asks for pulses therefore says how many intervals to play at most (the
patience), and running out of patience is an answer of its own.
-/

namespace ZxMedia

/-- A tape being played pulse by pulse. -/
structure PulseReader where
  tape : Tape
  /-- The time since the last edge. -/
  pending : Nat := 0
  /-- Whether the tape also stops where it should on a machine with 48K of memory. -/
  stopOn48k : Bool := false
  /-- Whether the tape has stopped or failed. -/
  done : Bool := false
  /-- The error that ended the playing. -/
  error : Option Error := none
  notices : Array Notice := #[]

/-- The answer to a request for a pulse. -/
inductive Turn where
  | pulse (tstates : Nat)
  | finished
  /-- The patience ran out before an edge came. -/
  | outOfPatience
deriving Repr, DecidableEq

namespace PulseReader

/-- The reader of a tape from its present position. -/
def ofTape (tape : Tape) (stopOn48k : Bool) : PulseReader :=
  { tape, stopOn48k }

/-- Gives the time that is pending as the next pulse, if there is any. -/
def flush (reader : PulseReader) : Option Nat × PulseReader :=
  (if reader.pending = 0 then none else some reader.pending, { reader with pending := 0 })

/-- Plays one interval: the pulse that ends with it, if one does. -/
def step : PulseReader → Option Nat × PulseReader
  | ⟨tape, pending, stopOn48k, done, error, notices⟩ =>
    let notices := notices ++ tape.notice?.toArray
    match tape.nextEdge with
    | .error error => (none, ⟨tape, pending, stopOn48k, true, some error, notices⟩)
    | .ok (edge, tape) =>
      let stops := edge.flags.stop || stopOn48k && edge.flags.stop48
      let reader : PulseReader :=
        ⟨tape, addTstates pending edge.tstates, stopOn48k, done || stops, error, notices⟩
      if edge.isEdge then reader.flush else (none, reader)

/-- The next pulse, if it comes within so many intervals. -/
def next (patience : Nat) (reader : PulseReader) : Turn × PulseReader :=
  if reader.done then
    match reader.flush with
    | (some tstates, reader) => (.pulse tstates, reader)
    | (none, reader) => (.finished, reader)
  else match patience with
    | 0 => (.outOfPatience, reader)
    | patience + 1 => match reader.step with
      | (some tstates, reader) => (.pulse tstates, reader)
      | (none, reader) => next patience reader
termination_by structural patience

/-- Up to `count` pulses, each within so many intervals. -/
def take (patience : Nat) :
    Nat → PulseReader → Array Nat → Except Error (Array Nat × PulseReader)
  | 0, reader, pulses => .ok (pulses, reader)
  | count + 1, reader, pulses => match reader.next patience with
    | (.pulse tstates, reader) => take patience count reader (pulses.push tstates)
    | (.finished, reader) => .ok (pulses, reader)
    | (.outOfPatience, _) => .error .endless

end PulseReader

/-- The duration of a tape up to the end of the current block, within so many
intervals. -/
def Tape.untilBlockEnd : Nat → Tape → Nat → Except Error Nat
  | 0, _, _ => .error .endless
  | patience + 1, tape, total => match tape.nextEdge with
    | .error error => .error error
    | .ok (edge, tape) =>
      let total := total + edge.tstates
      if edge.flags.block then .ok total else untilBlockEnd patience tape total

/-- No block has more intervals than this: a pilot tone or a tone, two synchronization
pulses, two pulses or one sample for each bit, a pulse for each length, and a pause. -/
def Block.maxIntervals (block : Block) : Nat :=
  let lengths := match block with
    | .pulses lengths => lengths.size
    | _ => 0
  65536 + 16 * (block.data?.getD #[]).size + lengths + 4

/-- The duration in T-states of a block when it is played from its beginning, whatever
has been played of it. Blocks that are no signals take no time. The total is a number
without a limit: one that is kept in 64 bits is not outgrown before the block has more
than 2 ^ 47 intervals. -/
def Track.duration (track : Track) (config : PlaybackConfig) : Except Error Nat :=
  if track.block.isTimed then
    (Tape.appendTrack { config } track).untilBlockEnd track.block.maxIntervals 0
  else .ok 0

/-- The duration of a block of which nothing has been played. -/
def Block.duration (block : Block) (config : PlaybackConfig) : Except Error Nat :=
  (Track.ofBlock block).duration config

end ZxMedia
