import ZxMedia.Deck

/-!
# Playing on and copying

A deck is asked for the pulses of one frame after another. A tape is copied by giving
what one deck plays in a frame to another deck that records.
-/

namespace ZxMedia.Deck

/-- Frames that a deck has played. -/
structure Played where
  frames : Array (Array Nat) := #[]
  /-- The deck after them. -/
  deck : Deck
  /-- The error that ended the playing. -/
  error : Option Error := none
  notices : Array Notice := #[]

/-- Plays one more frame. -/
def Played.next (patience budget : Nat) (played : Played) : Played :=
  let frame := played.deck.earPulses patience budget
  let played :=
    { played with deck := frame.deck, notices := played.notices ++ frame.notices }
  match frame.result with
  | .error error => { played with error := some error }
  | .ok pulses => { played with frames := played.frames.push pulses }

/-- Plays up to so many more frames, until the deck has stopped or failed. -/
def playOn (patience budget : Nat) : Nat → Played → Played
  | 0, played => played
  | count + 1, played =>
    let played := played.next patience budget
    if played.deck.isPlaying && played.error.isNone then playOn patience budget count played
    else played

/-- What was copied from a deck to another. -/
structure Copied where
  source : Deck
  target : Deck
  /-- The number of frames. -/
  frames : Nat := 0
  /-- The number of blocks that came out. -/
  blocks : Nat := 0
  /-- The error that ended the copying. -/
  error : Option Error := none
  notices : Array Notice := #[]

/-- Copies up to so many more frames, until the source stops or an error. -/
def copyOn (patience budget : Nat) : Nat → Copied → Copied
  | 0, copied => copied
  | count + 1, copied =>
    if copied.source.isPlaying then
      let frame := copied.source.earPulses patience budget
      let copied :=
        { copied with source := frame.deck, notices := copied.notices ++ frame.notices }
      match frame.result with
      | .error error => { copied with error := some error }
      | .ok pulses => match copied.target.recordMicPulses pulses.toList with
        | .error error => { copied with error := some error }
        | .ok (blocks, target) =>
          copyOn patience budget count
            { copied with target, frames := copied.frames + 1, blocks := copied.blocks + blocks }
    else copied

end ZxMedia.Deck
