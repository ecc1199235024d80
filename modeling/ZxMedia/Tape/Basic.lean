import ZxMedia.Notice
import ZxMedia.Tape.Signal

/-!
# Tapes

A tape is a sequence of blocks with a cursor at the block that is played. Beside the
cursor it keeps what the control blocks have begun: a loop, as the block to go back to
and the number of times left, and a call, as the block with the sequence and the number
of the next one to call.

Editing a tape keeps the cursor at the block where it was and abandons loops and calls.
`blocks` is the list of blocks as a reader of the tape sees it, whatever has been played
of them.
-/

namespace ZxMedia

/-- A call sequence in progress. -/
structure CallState where
  /-- The index of the block with the sequence. -/
  block : Nat
  /-- The number of the next call in the sequence. -/
  next : Nat
deriving Repr, DecidableEq

/-- What control blocks have begun. -/
structure Control where
  /-- The index of the first block of the present loop. -/
  loopBlock : Option Nat := none
  /-- How many times the present loop is left to be played. -/
  loopCount : Nat := 0
  call : Option CallState := none
deriving Repr, DecidableEq

/-- A sequence of blocks with a cursor. -/
structure Tape extends Control where
  tracks : Array Track := #[]
  /-- The index of the current block. -/
  current : Option Nat := none
  config : PlaybackConfig := {}

namespace Tape

/-- The largest index that a machine word can say. -/
def maxIndex : Nat := UInt64.size - 1

/-- The number of blocks. -/
def size (tape : Tape) : Nat :=
  tape.tracks.size

/-- The blocks in order. -/
def blocks (tape : Tape) : List Block :=
  tape.tracks.toList.map Track.block

/-- The block at an index. -/
def block? (tape : Tape) (index : Nat) : Option Block :=
  tape.tracks[index]?.map Track.block

/-- The current block, with how far it has been played. -/
def currentTrack? (tape : Tape) : Option Track :=
  tape.current.bind fun index => tape.tracks[index]?

/-- Makes the block at an index ready to be played from its beginning. -/
def cueAt (tape : Tape) (index : Nat) : Tape :=
  { tape with tracks := tape.tracks.modify index Track.cue }

/-- Moves the cursor to an index and makes the block there ready. -/
def goTo (tape : Tape) (index : Nat) : Tape :=
  { tape with current := some index }.cueAt index

/-- Sets the loop and the call in progress. -/
def withControl (tape : Tape) (control : Control) : Tape :=
  { tape with toControl := control }

/-- Abandons the loop and the call in progress. -/
def resetControl (tape : Tape) : Tape :=
  tape.withControl {}

/-- Puts a block at the end, with whatever had been played of it. It becomes the current
one if there was none, and is made ready then. -/
def appendTrack (tape : Tape) (track : Track) : Tape :=
  let tape := { tape with tracks := tape.tracks.push track }
  match tape.current with
  | none => tape.goTo 0
  | some _ => tape

/-- Puts a block at the end. It becomes the current one if there was none. -/
def append (tape : Tape) (block : Block) : Tape :=
  tape.appendTrack (.ofBlock block)

/-- Puts blocks at the end, one after another. -/
def extend (tape : Tape) (blocks : List Block) : Tape :=
  blocks.foldl append tape

/-- The tape of some blocks. -/
def ofBlocks (blocks : List Block) : Tape :=
  extend {} blocks

/-- The error of an index at which there is no block. -/
def noSuchBlock (tape : Tape) (index : Nat) : Error :=
  .corrupt (.noSuchBlock index tape.size)

/-- Puts a block in front of the one at an index, or at the end, with whatever had been
played of it. -/
def insertTrack (tape : Tape) (index : Nat) (track : Track) : Except Error Tape :=
  if h : index ≤ tape.tracks.size then
    let edited := { tape with tracks := tape.tracks.insertIdx index track h }.resetControl
    match tape.current with
    | none => .ok (edited.goTo 0)
    | some current =>
      if index ≤ current then
        if maxIndex ≤ current then .error .overflow
        else .ok { edited with current := some (current + 1) }
      else .ok edited
  else .error (tape.noSuchBlock index)

/-- Puts a block in front of the one at an index, or at the end. -/
def insert (tape : Tape) (index : Nat) (block : Block) : Except Error Tape :=
  tape.insertTrack index (.ofBlock block)

/-- Takes the block at an index off the tape, with whatever had been played of it. If it
was the current one, the block after it becomes the current one, or the first one if
there is none. -/
def removeTrack (tape : Tape) (index : Nat) : Except Error (Track × Tape) :=
  if h : index < tape.tracks.size then
    let track := tape.tracks[index]
    let edited := { tape with tracks := tape.tracks.eraseIdx index h }.resetControl
    if edited.size = 0 then .ok (track, { edited with current := none })
    else match tape.current with
      | none => .ok (track, edited)
      | some current =>
        if index < current then .ok (track, { edited with current := some (current - 1) })
        else if current = index then
          .ok (track, edited.goTo (if current = edited.size then 0 else current))
        else .ok (track, edited)
  else .error (tape.noSuchBlock index)

/-- Takes the block at an index off the tape. -/
def remove (tape : Tape) (index : Nat) : Except Error (Block × Tape) :=
  (tape.removeTrack index).map fun (track, tape) => (track.block, tape)

/-- Takes all blocks off the tape. -/
def clear (tape : Tape) : Tape :=
  { tape with tracks := #[], current := none }.resetControl

/-- Makes the block at an index the current one, as when one of the offered choices is
taken. -/
def select (tape : Tape) (index : Nat) : Except Error Tape :=
  if index < tape.size then .ok (tape.goTo index) else .error (tape.noSuchBlock index)

/-- Moves the cursor back to the first block. -/
def rewind (tape : Tape) : Tape :=
  let tape := tape.resetControl
  if tape.size = 0 then tape else tape.goTo 0

/-- Changes how pauses are timed. -/
def setConfig (tape : Tape) (config : PlaybackConfig) : Tape :=
  { tape with config }

@[simp] theorem blocks_cueAt (tape : Tape) (index : Nat) :
    (tape.cueAt index).blocks = tape.blocks := by
  unfold blocks cueAt
  apply List.ext_getElem?
  intro i
  simp only [List.getElem?_map, Array.getElem?_toList, Array.getElem?_modify]
  split <;> cases tape.tracks[i]? <;> rfl

@[simp] theorem blocks_goTo (tape : Tape) (index : Nat) :
    (tape.goTo index).blocks = tape.blocks := by
  unfold goTo
  rw [blocks_cueAt]
  rfl

@[simp] theorem blocks_appendTrack (tape : Tape) (track : Track) :
    (tape.appendTrack track).blocks = tape.blocks ++ [track.block] := by
  unfold appendTrack
  dsimp only
  split
  · rw [blocks_goTo]
    simp [blocks]
  · simp [blocks]

@[simp] theorem blocks_append (tape : Tape) (block : Block) :
    (tape.append block).blocks = tape.blocks ++ [block] :=
  blocks_appendTrack tape (.ofBlock block)

@[simp] theorem blocks_extend (tape : Tape) (added : List Block) :
    (tape.extend added).blocks = tape.blocks ++ added := by
  induction added generalizing tape with
  | nil => simp [extend]
  | cons block added ih =>
    have step := ih (tape.append block)
    simp only [extend, List.foldl_cons] at step ⊢
    rw [step]
    simp

@[simp] theorem blocks_ofBlocks (added : List Block) :
    (ofBlocks added).blocks = added := by
  rw [ofBlocks, blocks_extend]
  simp [blocks]

@[simp] theorem blocks_rewind (tape : Tape) : tape.rewind.blocks = tape.blocks := by
  unfold rewind
  dsimp only
  split
  · rfl
  · rw [blocks_goTo]; rfl

end Tape

end ZxMedia
