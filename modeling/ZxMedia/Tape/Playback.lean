import ZxMedia.Tape.Basic

/-!
# Playing a tape

`nextEdge` plays one interval of the current block and moves on: it first looks ahead to
what the interval comes to, and then carries it out. Control blocks take no time: a jump
moves the cursor, a loop sends it back until it has been played often enough, and a call
sequence visits its blocks in turn, each up to the return that ends it. Past the last
block the cursor goes back to the first one, with the flags that stop the player.

A jump or a call that leads off the tape is an error, and an error leaves the tape as it
was.
-/

namespace ZxMedia

namespace Tape

/-- Where the cursor goes when a block has ended. -/
inductive Move where
  /-- To the block at an index. -/
  | to (index : Nat)
  /-- To the block at an index, or past the end of the tape. -/
  | onTo (index : Nat)
deriving Repr, DecidableEq

/-- The index of the block at an offset from another one. -/
def target (tape : Tape) (index : Nat) (offset : Int16) : Except Error Nat :=
  let position := (index : Int) + offset.toInt
  if 0 ≤ position ∧ position < tape.size then .ok position.toNat
  else .error (.corrupt (.jumpOutside index offset.toInt tape.size))

/-- What the end of a call leads to: the next call of the sequence, or what follows the
sequence after the last one. -/
def returnFrom (tape : Tape) (call : CallState) : Except Error (Control × Move) :=
  match tape.block? call.block with
  | some (.callSequence offsets) => match offsets[call.next]? with
    | some offset => do
      let position ← tape.target call.block offset
      return ({ tape.toControl with call := some { call with next := call.next + 1 } },
        .to position)
    | none => .ok ({ tape.toControl with call := none }, .onTo (call.block + 1))
  | _ => .error (.logic .callWithoutSequence)

/-- What the end of a block does to loops and calls, and where the cursor goes. -/
def atEnd (tape : Tape) (index : Nat) (block : Block) : Except Error (Control × Move) :=
  let control := tape.toControl
  match block with
  | .jump offset => do
    let position ← tape.target index offset
    return (control, .to position)
  | .loopStart count =>
    .ok ({ control with loopBlock := some (index + 1), loopCount := count.toNat },
      .onTo (index + 1))
  | .loopEnd => match control.loopBlock with
    | some start =>
      if 1 < control.loopCount then
        .ok ({ control with loopCount := control.loopCount - 1 }, .to start)
      else .ok ({ control with loopBlock := none, loopCount := 0 }, .onTo (index + 1))
    | none => .ok (control, .onTo (index + 1))
  | .callSequence offsets => match offsets[0]? with
    | some offset => do
      let position ← tape.target index offset
      return ({ control with call := some { block := index, next := 1 } }, .to position)
    | none => .ok (control, .onTo (index + 1))
  | .callReturn => match control.call with
    | some call => tape.returnFrom call
    | none => .ok (control, .onTo (index + 1))
  | _ => .ok (control, .onTo (index + 1))

/-- Makes a move at the end of a block: the flags of the block's last interval and the
tape. -/
def follow (tape : Tape) (move : Move) (flags : EdgeFlags) : EdgeFlags × Tape :=
  let flags := { flags with block := true }
  match move with
  | .to index => (flags, tape.goTo index)
  | .onTo index =>
    if index < tape.size then (flags, tape.goTo index)
    else ({ flags with stop := true, tape := true }, tape.resetControl.goTo 0)

/-- The interval of a tape without blocks. -/
def silence : Edge :=
  { tstates := 0, flags := { stop := true, tape := true, noEdge := true } }

/-- What playing one interval of a block comes to. -/
structure Advance where
  step : Step
  /-- The index of the block. -/
  index : Nat
  /-- The block as it is after the interval. -/
  track : Track
  /-- What the end of the block leads to, if the interval is its last one. -/
  ending : Option (Control × Move)

/-- What playing the next interval would come to: nothing on a tape without blocks. -/
def lookAhead (tape : Tape) : Except Error (Option Advance) :=
  match tape.current with
  | none => .ok none
  | some index =>
    if h : index < tape.tracks.size then
      let track := tape.tracks[index]
      if track.overflows then .error .overflow
      else
        let (step, played) := track.step tape.config
        if step.ends then do
          let ending ← tape.atEnd index track.block
          return some { step, index, track := played, ending := some ending }
        else .ok (some { step, index, track := played, ending := none })
    else .error (.logic (.cursorOffTape index tape.size))

/-- The tape with another progress of the block at an index. -/
def putTrack (tape : Tape) (index : Nat) (track : Track) : Tape :=
  { tape with tracks := tape.tracks.setIfInBounds index track }

/-- Carries out what was looked ahead to: the interval with what holds at its end, and
the tape. -/
def carryOut (tape : Tape) (advance : Advance) : Edge × Tape :=
  let tape := tape.putTrack advance.index advance.track
  match advance.ending with
  | none => ({ tstates := advance.step.tstates, flags := advance.step.flags }, tape)
  | some (control, move) =>
    let (flags, tape) := (tape.withControl control).follow move advance.step.flags
    ({ tstates := advance.step.tstates, flags }, tape)

/-- Plays one interval. Whatever can fail is looked ahead to, so that the tape is only
changed when nothing fails. -/
@[inline] def nextEdge (tape : Tape) : Except Error (Edge × Tape) :=
  match tape.lookAhead with
  | .error error => .error error
  | .ok none => .ok (silence, tape)
  | .ok (some advance) => .ok (tape.carryOut advance)

/-- What is odd about the interval that is played next: a loop that ends and has not
begun, or a return from a call that was not made. -/
def notice? (tape : Tape) : Option Notice :=
  match tape.current, tape.currentTrack? with
  | some index, some track => match track.block, tape.loopBlock, tape.call with
    | .loopEnd, none, _ => some (.loopEndAlone index)
    | .callReturn, _, none => some (.returnAlone index)
    | _, _, _ => none
  | _, _ => none

/-- A stretch of a tape that has been played. -/
structure Stretch where
  edges : Array Edge := #[]
  /-- The tape after it. -/
  tape : Tape
  /-- The error that ended it. -/
  error : Option Error := none
  notices : Array Notice := #[]

/-- Plays up to so many more intervals, up to the first one that satisfies a condition
or an error. -/
def playOn (ends : Edge → Bool) : Nat → Stretch → Stretch
  | 0, played => played
  | count + 1, ⟨edges, tape, error, notices⟩ =>
    let notices := notices ++ tape.notice?.toArray
    match tape.nextEdge with
    | .error error => ⟨edges, tape, some error, notices⟩
    | .ok (edge, tape) =>
      let played := ⟨edges.push edge, tape, error, notices⟩
      if ends edge then played else playOn ends count played

end Tape

end ZxMedia
