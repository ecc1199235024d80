import ZxMedia.InPlace
import ZxMedia.Tape.Playback

/-!
# Operations on tapes in place

An operation in place that fails leaves the tape as far as it has been changed until
then, so it matters that whatever can fail comes first. The operations below make their
changes in the order in which a player makes them: the progress of the current block,
then what control blocks begin and end, and then the cursor.

They answer as the operations that give a tape anew, and leave the same tape.
-/

namespace ZxMedia.Tape

namespace InPlace

/-- The index of the block at an offset from another one. -/
def target (index : Nat) (offset : Int16) : InPlace Tape Nat :=
  InPlace.ask (·.target index offset)

/-- Sets what control blocks have begun. -/
def setControl (control : Control) : InPlace Tape Unit :=
  modify (·.withControl control)

/-- The end of a call takes effect: the next call of the sequence begins, or the calls
are over. -/
def returnFrom (call : CallState) : InPlace Tape Move := do
  let tape ← get
  match tape.block? call.block with
  | some (.callSequence offsets) => match offsets[call.next]? with
    | some offset =>
      let position ← target call.block offset
      setControl { tape.toControl with call := some { call with next := call.next + 1 } }
      return .to position
    | none =>
      setControl { tape.toControl with call := none }
      return .onTo (call.block + 1)
  | _ => throw (.logic .callWithoutSequence)

/-- A control block takes effect. The answer is where the cursor goes from the block at
its end. -/
def takeEffect (index : Nat) (block : Block) : InPlace Tape Move := do
  let control := (← get).toControl
  match block with
  | .jump offset =>
    let position ← target index offset
    return .to position
  | .loopStart count =>
    setControl { control with loopBlock := some (index + 1), loopCount := count.toNat }
    return .onTo (index + 1)
  | .loopEnd => match control.loopBlock with
    | some start =>
      if 1 < control.loopCount then
        setControl { control with loopCount := control.loopCount - 1 }
        return .to start
      else
        setControl { control with loopBlock := none, loopCount := 0 }
        return .onTo (index + 1)
    | none => return .onTo (index + 1)
  | .callSequence offsets => match offsets[0]? with
    | some offset =>
      let position ← target index offset
      setControl { control with call := some { block := index, next := 1 } }
      return .to position
    | none => return .onTo (index + 1)
  | .callReturn => match control.call with
    | some call => returnFrom call
    | none => return .onTo (index + 1)
  | _ => return .onTo (index + 1)

/-- Moves the cursor at the end of a block. Past the end of the tape it goes back to the
first block, and loops and calls are abandoned. -/
def follow (move : Move) (flags : EdgeFlags) : InPlace Tape EdgeFlags := do
  match move with
  | .to index =>
    modify (·.goTo index)
    return flags
  | .onTo index =>
    if index < (← get).size then
      modify (·.goTo index)
      return flags
    else
      modify (·.resetControl)
      modify (·.goTo 0)
      return { flags with stop := true, tape := true }

/-- Plays one interval. The progress of the block is stored before it is known whether
the end of the block can be followed. -/
def nextEdge : InPlace Tape Edge := do
  let tape ← get
  match tape.current with
  | none => return silence
  | some index => match tape.tracks[index]? with
    | none => throw (.logic (.cursorOffTape index tape.size))
    | some track =>
      if track.overflows then
        throw .overflow
      else
        let (step, played) := track.step tape.config
        modify (·.putTrack index played)
        let move ← takeEffect index track.block
        if step.ends then
          let flags ← follow move { step.flags with block := true }
          return { tstates := step.tstates, flags }
        else return { tstates := step.tstates, flags := step.flags }

/-- Puts a block in front of the one at an index, or at the end. Then loops and calls
are abandoned, and the cursor goes with its block. -/
def insertTrack (index : Nat) (track : Track) : InPlace Tape Unit := do
  let tape ← get
  if tape.size < index then
    throw (tape.noSuchBlock index)
  else
    modify fun tape => { tape with tracks := tape.tracks.insertIdxIfInBounds index track }
    modify (·.resetControl)
    match tape.current with
    | none => modify (·.goTo 0)
    | some current =>
      if index ≤ current then
        if maxIndex ≤ current then throw .overflow
        else modify fun tape => { tape with current := some (current + 1) }
      else return ()

/-- Takes the block at an index off the tape. Then loops and calls are abandoned, and
the cursor goes with its block, or to the block behind the one that was taken off. -/
def removeTrack (index : Nat) : InPlace Tape Track := do
  let tape ← get
  match tape.tracks[index]? with
  | none => throw (tape.noSuchBlock index)
  | some track =>
    modify fun tape => { tape with tracks := tape.tracks.eraseIdxIfInBounds index }
    modify (·.resetControl)
    let size := (← get).size
    if size = 0 then modify fun tape => { tape with current := none }
    else match tape.current with
      | none => pure ()
      | some current =>
        if index < current then modify fun tape => { tape with current := some (current - 1) }
        else if current = index then modify (·.goTo (if current = size then 0 else current))
        else pure ()
    return track

/-- Makes the block at an index the current one. -/
def select (index : Nat) : InPlace Tape Unit := do
  let tape ← get
  if index < tape.size then modify (·.goTo index) else throw (tape.noSuchBlock index)

end InPlace

end ZxMedia.Tape
