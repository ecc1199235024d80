import ZxMedia.Proofs.Recording.InPlace
import ZxMedia.Proofs.Recording.Session

/-!
# The position of the player

A recording that is played can be extended at the same time, even in the block of input
that is played, and any operation may fail. Still the player is always in a frame of a
block of input. The octets of this frame are those of the last frame up to it that is no
repetition, they are as many as the frame counts, and no more of them have been read. So
while a recording is played, a step of the player fails only for one reason: the host
has read too many octets, or too few.
-/

namespace ZxMedia

/-- The player is in a frame of a block, and the octets of the frame are those of its
own frame. -/
structure PlayCursor.Inside (cursor : PlayCursor) (block : InputBlock)
    (frame own : Frame) :
    Prop where
  here : block.frames[cursor.frame]? = some frame
  source : block.frames[cursor.inputFrame]? = some own
  /-- The own frame is the last one up to the present one that is no repetition. -/
  hasOctets : own.repeats = false
  notBehind : cursor.inputFrame ≤ cursor.frame
  between : ∀ place other, cursor.inputFrame < place → place ≤ cursor.frame →
    block.frames[place]? = some other → other.repeats = true
  counted : frame.count.toNat = own.input.size
  read : cursor.readCount ≤ frame.count.toNat

/-- A frame of a well formed block can stand behind the frames in front of it. -/
theorem InputBlock.WellFormed.follows {block : InputBlock} (wellFormed : block.WellFormed)
    {index : Nat} {frame : Frame} (found : block.frames[index]? = some frame) :
    frame.Follows (block.frames.toList.take index) := by
  rw [← Array.getElem?_toList] at found
  obtain ⟨inside, same⟩ := List.getElem?_eq_some_iff.mp found
  apply wellFormed _ frame (block.frames.toList.drop (index + 1))
  rw [← same, ← List.drop_eq_getElem_cons inside, List.take_append_drop]

namespace PlayCursor.Inside

variable {cursor : PlayCursor} {block : InputBlock} {frame own later : Frame}

theorem lastOwn? (inside : cursor.Inside block frame own) :
    Frame.lastOwn? (block.frames.toList.take (cursor.frame + 1)) = some own := by
  have upTo : ∀ place, cursor.inputFrame ≤ place → place ≤ cursor.frame →
      Frame.lastOwn? (block.frames.toList.take (place + 1)) = some own := by
    intro place ahead
    induction place, ahead using Nat.le_induction with
    | base =>
        intro _
        have found := inside.source
        rw [← Array.getElem?_toList] at found
        simp [List.take_add_one, found, inside.hasOctets]
    | succ place ahead ih =>
        intro notBehind
        obtain ⟨lower, -⟩ := Array.getElem?_eq_some_iff.mp inside.here
        have found : block.frames[place + 1]? = some block.frames[place + 1] :=
          Array.getElem?_eq_getElem (by omega)
        have repeats := inside.between (place + 1) _ (by omega) notBehind found
        rw [← Array.getElem?_toList] at found
        rw [List.take_add_one, found, Option.toList_some,
          Frame.lastOwn?_append, if_pos repeats]
        exact ih (by omega)
  exact upTo cursor.frame inside.notBehind (Nat.le_refl _)

/-- The first frame of a well formed block has octets of its own. -/
theorem first (wellFormed : block.WellFormed) (found : block.frames[0]? = some frame)
    (part : Nat) :
    frame.repeats = false ∧ ({ part } : PlayCursor).Inside block frame frame := by
  have follows := wellFormed.follows found
  unfold Frame.Follows at follows
  split at follows
  next =>
    obtain ⟨-, last, none, -⟩ := follows
    cases none
  next repeats =>
    have own : frame.repeats = false := by simpa using repeats
    refine ⟨own, found, found, own, Nat.le_refl 0, ?_, follows.1, Nat.zero_le _⟩
    intro place _ behind upTo
    exact absurd behind (Nat.not_lt.mpr upTo)

theorem next (inside : cursor.Inside block frame own) (wellFormed : block.WellFormed)
    (found : block.frames[cursor.frame + 1]? = some later) :
    ∃ own, PlayCursor.Inside
      { part := cursor.part, frame := cursor.frame + 1
        inputFrame := if later.repeats then cursor.inputFrame else cursor.frame + 1 }
      block later own := by
  have follows := wellFormed.follows found
  unfold Frame.Follows at follows
  split at follows
  next repeats =>
    obtain ⟨-, last, same, counted⟩ := follows
    rw [inside.lastOwn?] at same
    cases same
    have ownFollows := wellFormed.follows inside.source
    rw [Frame.Follows, inside.hasOctets] at ownFollows
    rw [if_pos repeats]
    refine ⟨own, found, inside.source, inside.hasOctets,
      Nat.le_succ_of_le inside.notBehind, ?_, ?_, Nat.zero_le _⟩
    · intro place other behind upTo here
      rcases Nat.le_succ_iff.mp upTo with earlier | rfl
      · exact inside.between place other behind earlier here
      · rw [found] at here
        cases here
        exact repeats
    · rw [counted]
      exact ownFollows.1
  next repeats =>
    have own : later.repeats = false := by simpa using repeats
    rw [if_neg repeats]
    refine ⟨later, found, found, own, Nat.le_refl _, ?_, follows.1, Nat.zero_le _⟩
    intro place _ behind upTo
    exact absurd behind (Nat.not_lt.mpr upTo)

/-- A frame that is stored behind the others changes nothing about them. -/
theorem push (inside : cursor.Inside block frame own) (added : Frame) :
    cursor.Inside { block with frames := block.frames.push added } frame own := by
  obtain ⟨lower, -⟩ := Array.getElem?_eq_some_iff.mp inside.here
  have same : ∀ place, place ≤ cursor.frame →
      (block.frames.push added)[place]? = block.frames[place]? := by
    intro place upTo
    have within : place < block.frames.size := Nat.lt_of_le_of_lt upTo lower
    rw [Array.getElem?_push_lt within, Array.getElem?_eq_getElem within]
  refine ⟨?_, ?_, inside.hasOctets, inside.notBehind, ?_, inside.counted, inside.read⟩
  · rw [same _ (Nat.le_refl _)]
    exact inside.here
  · rw [same _ inside.notBehind]
    exact inside.source
  · intro place other behind upTo here
    rw [same place upTo] at here
    exact inside.between place other behind upTo here

end PlayCursor.Inside

namespace Recording

open ZxMedia.InPlace (change settle change_discard)
open Packing (Packer)

variable {recording after : Recording} {cursor : PlayCursor} {block : InputBlock}
variable {frame own : Frame} {error : Error}

/-- The player is in a frame of a block of input. -/
def Holds (recording : Recording) (cursor : PlayCursor) : Prop :=
  ∃ block frame own, recording.parts[cursor.part]? = some (.input block) ∧
    cursor.Inside block frame own

/-- The blocks of input are well formed, and the player is in a frame of one of them
while the recording is played. -/
structure Sound (recording : Recording) : Prop where
  inputs : recording.InputsWellFormed
  playing : ∀ cursor, recording.cursor = some cursor → recording.Holds cursor

theorem position_ok (positioned : recording.position = .ok cursor) :
    recording.cursor = some cursor := by
  unfold position at positioned
  split at positioned
  next here =>
    cases positioned
    exact here
  next => cases positioned

theorem inputAt_ok {index : Nat} (found : recording.parts[index]? = some (.input block)) :
    recording.inputAt index = .ok block := by
  simp only [inputAt, found]

theorem Sound.wellFormed (sound : recording.Sound) {index : Nat}
    (found : recording.parts[index]? = some (.input block)) : block.WellFormed :=
  sound.inputs block (Array.mem_of_getElem? found)

theorem InputsWellFormed.sound (inputs : recording.InputsWellFormed)
    (unplayed : recording.cursor = none) : recording.Sound := by
  refine ⟨inputs, ?_⟩
  intro cursor here
  rw [unplayed] at here
  cases here

theorem Sound.finished (sound : recording.Sound) :
    ({ recording with cursor := none } : Recording).Sound :=
  InputsWellFormed.sound sound.inputs rfl

/-! ## Steps of the player -/

theorem frameInput_eq (inside : cursor.Inside block frame own) :
    frameInput block cursor.frame = frame.count.toNat := by
  simp [frameInput, inside.here]

theorem playback_more (here : recording.cursor = some cursor)
    (found : recording.parts[cursor.part]? = some (.input block))
    (inside : cursor.Inside block frame own)
    (more : cursor.readCount ≠ frame.count.toNat) :
    ∃ octet, own.input[cursor.readCount]? = some octet ∧
      recording.playback = .ok (octet,
        { recording with cursor := some { cursor with readCount := cursor.readCount + 1 } }) := by
  have left : cursor.readCount < frame.count.toNat := Nat.lt_of_le_of_ne inside.read more
  have within : cursor.readCount < own.input.size := inside.counted ▸ left
  refine ⟨own.input[cursor.readCount], Array.getElem?_eq_getElem within, ?_⟩
  simp only [playback, position, here, ok_bind, inputAt_ok found, frameInput_eq inside,
    inside.source, Option.bind_some, Array.getElem?_eq_getElem within]
  rw [if_neg (Nat.not_le.mpr left)]
  rfl

theorem playback_exhausted (here : recording.cursor = some cursor)
    (found : recording.parts[cursor.part]? = some (.input block))
    (inside : cursor.Inside block frame own)
    (all : cursor.readCount = frame.count.toNat) :
    recording.playback =
      .error (.corrupt (.inputExhausted frame.count.toNat cursor.frame)) := by
  simp only [playback, position, here, ok_bind, inputAt_ok found, frameInput_eq inside]
  rw [if_pos (Nat.le_of_eq all.symm)]
  rfl

theorem playbackFrame_early (here : recording.cursor = some cursor)
    (found : recording.parts[cursor.part]? = some (.input block))
    (inside : cursor.Inside block frame own)
    (more : cursor.readCount ≠ frame.count.toNat) :
    recording.playbackFrame =
      .error (.corrupt (.inputCount cursor.readCount frame.count.toNat cursor.frame)) := by
  simp only [playbackFrame, position, here, ok_bind, inputAt_ok found,
    frameInput_eq inside]
  rw [if_pos more]
  rfl

theorem nextInput_some {start index : Nat} {snapshot : Option Snapshot}
    (next : recording.nextInput start = (some index, snapshot)) :
    ∃ block frame, recording.parts[index]? = some (.input block) ∧
      block.frames[0]? = some frame := by
  rcases finds_findInput (recording.parts.toList.drop start) start none with
    ⟨found, search, -⟩ | ⟨skipped, block, rest, found, split, search, some, -⟩
  · rw [nextInput, search] at next
    cases next
  · rw [nextInput, search] at next
    cases next
    obtain ⟨frame, frames, same⟩ := List.exists_cons_of_ne_nil some
    refine ⟨block, frame, ?_, ?_⟩
    · rw [← Array.getElem?_toList, ← List.getElem?_drop, split]
      simp
    · rw [← Array.getElem?_toList, same]
      rfl

theorem Sound.enterInput (sound : recording.Sound) {index : Nat}
    (found : recording.parts[index]? = some (.input block))
    (first : block.frames[0]? = some frame) :
    recording.enterInput index = .ok { recording with cursor := some { part := index } } ∧
      ({ recording with cursor := some { part := index } } : Recording).Sound := by
  obtain ⟨own, inside⟩ := PlayCursor.Inside.first (sound.wellFormed found) first index
  constructor
  · simp [Recording.enterInput, inputAt_ok found, first, own]
  · refine ⟨sound.inputs, ?_⟩
    rintro _ ⟨⟩
    exact ⟨block, frame, frame, found, inside⟩

/-- A frame of which all octets were read is left for the next one, if there is any. -/
theorem Sound.leaves (sound : recording.Sound) (here : recording.cursor = some cursor)
    (found : recording.parts[cursor.part]? = some (.input block))
    (inside : cursor.Inside block frame own) (all : cursor.readCount = frame.count.toNat)
    (few : cursor.frame < maxIndex) :
    ∃ step after, recording.playbackFrame = .ok (step, after) ∧ after.Sound := by
  simp only [playbackFrame, position, here, ok_bind, inputAt_ok found,
    frameInput_eq inside]
  rw [if_neg (not_not.mpr all), if_neg (Nat.not_le.mpr few)]
  cases behind : block.frames[cursor.frame + 1]? with
  | some later =>
      obtain ⟨own, moved⟩ := inside.next (sound.wellFormed found) behind
      refine ⟨_, _, rfl, sound.inputs, ?_⟩
      rintro _ ⟨⟩
      exact ⟨block, later, own, found, moved⟩
  | none =>
      cases next : recording.nextInput (cursor.part + 1) with
      | mk place snapshot =>
          cases place with
          | none => exact ⟨_, _, rfl, sound.finished⟩
          | some index =>
              obtain ⟨block, frame, found, first⟩ := nextInput_some next
              obtain ⟨entered, moved⟩ := sound.enterInput found first
              simp only [entered]
              exact ⟨_, _, rfl, moved⟩

/-! ## Every operation -/

theorem Sound.playback (sound : recording.Sound) {octet : UInt8}
    (done : recording.playback = .ok (octet, after)) : after.Sound := by
  obtain ⟨cursor, positioned, -⟩ := bind_ok.mp done
  have here := position_ok positioned
  obtain ⟨block, frame, own, found, inside⟩ := sound.playing cursor here
  by_cases all : cursor.readCount = frame.count.toNat
  · rw [playback_exhausted here found inside all] at done
    cases done
  · obtain ⟨_, -, same⟩ := playback_more here found inside all
    rw [same] at done
    cases done
    refine ⟨sound.inputs, ?_⟩
    rintro _ ⟨⟩
    have more : cursor.readCount + 1 ≤ frame.count.toNat :=
      Nat.lt_of_le_of_ne inside.read all
    exact ⟨block, frame, own, found, { inside with read := more }⟩

theorem Sound.playbackFrame (sound : recording.Sound) {step : FrameStep}
    (done : recording.playbackFrame = .ok (step, after)) : after.Sound := by
  obtain ⟨cursor, positioned, -⟩ := bind_ok.mp done
  have here := position_ok positioned
  obtain ⟨block, frame, own, found, inside⟩ := sound.playing cursor here
  by_cases all : cursor.readCount = frame.count.toNat
  · by_cases few : cursor.frame < maxIndex
    · obtain ⟨_, _, same, moved⟩ := sound.leaves here found inside all few
      rw [same] at done
      cases done
      exact moved
    · simp only [Recording.playbackFrame, position, here, ok_bind, inputAt_ok found,
        frameInput_eq inside, if_neg (not_not.mpr all), if_pos (Nat.not_lt.mp few)] at done
      cases done
  · rw [playbackFrame_early here found inside all] at done
    cases done

theorem Sound.startPlayback (sound : recording.Sound) :
    recording.startPlayback.2.Sound := by
  have idle : recording.idle.Sound := InputsWellFormed.sound sound.inputs rfl
  unfold Recording.startPlayback
  split
  next => exact idle
  next index snapshot next =>
    obtain ⟨block, frame, found, first⟩ := nextInput_some next
    obtain ⟨entered, moved⟩ := idle.enterInput found first
    simp only [entered]
    exact moved

theorem Sound.pushPart (sound : recording.Sound) {part : Part}
    (wellFormed : ∀ block, part = .input block → block.WellFormed) :
    (recording.pushPart part).Sound where
  inputs := sound.inputs.pushPart wellFormed
  playing cursor here := by
    obtain ⟨block, frame, own, found, inside⟩ := sound.playing cursor here
    obtain ⟨lower, -⟩ := Array.getElem?_eq_some_iff.mp found
    refine ⟨block, frame, own, ?_, inside⟩
    simp only [Recording.pushPart, Array.getElem?_push_lt lower]
    rw [← found, Array.getElem?_eq_getElem lower]

theorem Sound.startInput (sound : recording.Sound) (tstates : UInt32) :
    (recording.startInput tstates).Sound := by
  have pushed : (recording.pushPart (.input { tstates })).Sound := by
    apply sound.pushPart
    rintro _ ⟨⟩
    exact InputBlock.wellFormed_empty tstates
  exact ⟨pushed.inputs, pushed.playing⟩

theorem getElem?_pushFrame {index place : Nat} :
    (recording.pushFrame index frame).parts[place]? =
      if index = place then recording.parts[place]?.map fun
        | .input block => .input { block with frames := block.frames.push frame }
        | part => part
      else recording.parts[place]? :=
  Array.getElem?_modify

theorem Sound.store (sound : recording.Sound) {instructions : UInt16} {input : Octets}
    (done : recording.store instructions input = .ok after) : after.Sound := by
  obtain ⟨index, stored, frame, -, found, next, rfl⟩ := store_ok done
  have follows := nextFrame_follows next
  constructor
  · intro block member
    obtain ⟨place, here⟩ := Array.mem_iff_getElem?.mp member
    rw [getElem?_pushFrame] at here
    split at here
    next same =>
      subst same
      rw [found] at here
      cases here
      exact (sound.wellFormed found).push follows
    next => exact sound.wellFormed here
  · intro cursor here
    obtain ⟨block, current, own, at_, inside⟩ := sound.playing cursor here
    unfold Holds
    rw [getElem?_pushFrame]
    split
    next same =>
      rw [at_]
      exact ⟨_, current, own, rfl, inside.push frame⟩
    next => exact ⟨block, current, own, at_, inside⟩

/-! ## Recordings that are read -/

theorem cursor_addRecords {packer : Packer} {records : List Record} {place : Nat}
    {draft final : Draft}
    (added : Draft.addRecords packer place records draft = .ok final) :
    final.recording.cursor = draft.recording.cursor := by
  induction records generalizing place draft with
  | nil =>
      cases added
      rfl
  | cons record records ih =>
      obtain ⟨next, first, others⟩ := bind_ok.mp added
      rw [ih others]
      cases Draft.add_ok first <;> rfl

theorem cursor_read {packer : Packer} {file : Octets}
    (answered : (read file packer).result = .ok recording) : recording.cursor = none := by
  obtain ⟨_, records, -, -, added⟩ := read_ok_iff_comprises.mp answered
  exact cursor_addRecords added

/-! ## Operations in any order -/

/-- Something to be done with a recording. -/
inductive Operation where
  | startPlayback
  | playback
  | playbackFrame
  | startInput (tstates : UInt32)
  | store (instructions : UInt16) (input : Octets)
  | stopInput
  | addSnapshot (content : Snapshot)
  | incrementTstates (delta : UInt32)
  | clear

/-- The error of an operation, if there is one, and the recording after it. -/
def attempt {α : Type} (recording : Recording) (after : α → Recording) :
    Except Error α → Option Error × Recording
  | .ok answer => (none, after answer)
  | .error error => (some error, recording)

/-- What a recording and an operation with it come to: the error, if there is one, and
the recording after the operation. -/
def perform (recording : Recording) : Operation → Option Error × Recording
  | .startPlayback => match recording.startPlayback with
    | (.ok _, after) => (none, after)
    | (.error error, after) => (some error, after)
  | .playback => recording.attempt Prod.snd recording.playback
  | .playbackFrame => recording.attempt Prod.snd recording.playbackFrame
  | .startInput tstates => (none, recording.startInput tstates)
  | .store instructions input => recording.attempt id (recording.store instructions input)
  | .stopInput => (none, recording.stopInput)
  | .addSnapshot content => (none, recording.pushPart (.snapshot content))
  | .incrementTstates delta => (none, recording.incrementTstates delta)
  | .clear => (none, recording.clear)

/-- An operation, in place. -/
def Operation.inPlace : Operation → InPlace Recording Unit
  | .startPlayback => discard InPlace.startPlayback
  | .playback => discard InPlace.playback
  | .playbackFrame => discard InPlace.playbackFrame
  | .store instructions input => InPlace.store instructions input
  | operation => modify fun recording => (recording.perform operation).2

/-- A recording that operations lead to from a new one or from one that was read from a
file. -/
inductive Reachable (packer : Packer) : Recording → Prop where
  | new : Reachable packer {}
  | read {file : Octets} {recording : Recording}
      (answered : (Recording.read file packer).result = .ok recording) : Reachable packer recording
  | perform {recording : Recording} (reached : Reachable packer recording)
      (operation : Operation) : Reachable packer (recording.perform operation).2

/-- The recording after operations one after another. -/
def run (recording : Recording) (operations : List Operation) : Recording :=
  operations.foldl (fun recording operation => (recording.perform operation).2) recording

theorem Reachable.run {packer : Packer} (reached : recording.Reachable packer)
    (operations : List Operation) : (recording.run operations).Reachable packer := by
  induction operations generalizing recording with
  | nil => exact reached
  | cons operation operations ih => exact ih (reached.perform operation)

theorem Sound.attempt {α : Type} (sound : recording.Sound) {outcome : Except Error α}
    {after : α → Recording}
    (done : ∀ answer, outcome = .ok answer → (after answer).Sound) :
    (recording.attempt after outcome).2.Sound := by
  cases outcome with
  | error error => exact sound
  | ok answer => exact done answer rfl

theorem attempt_failed {α : Type} {outcome : Except Error α} {after : α → Recording}
    (failed : (recording.attempt after outcome).1 ≠ none) :
    (recording.attempt after outcome).2 = recording := by
  cases outcome with
  | error error => rfl
  | ok answer => exact absurd rfl failed

theorem change_discard_attempt {α : Type} {action : InPlace Recording α}
    {outcome : Except Error (α × Recording)}
    (agrees : change recording action = settle recording outcome) :
    change recording (discard action) =
      ((recording.attempt Prod.snd outcome).1.elim (.ok ()) .error,
        (recording.attempt Prod.snd outcome).2) := by
  rw [change_discard, agrees]
  cases outcome <;> rfl

/-- In place an operation fails exactly if it fails otherwise, and it leaves the same
recording. -/
theorem change_inPlace (recording : Recording) (operation : Operation) :
    change recording operation.inPlace =
      ((recording.perform operation).1.elim (.ok ()) .error, (recording.perform operation).2) := by
  cases operation with
  | startPlayback =>
      simp only [Operation.inPlace, change_discard, InPlace.change_startPlayback, perform]
      rcases recording.startPlayback with ⟨_ | _, after⟩ <;> rfl
  | playback => exact change_discard_attempt (InPlace.change_playback recording)
  | playbackFrame => exact change_discard_attempt (InPlace.change_playbackFrame recording)
  | store instructions input =>
      refine (InPlace.change_store recording instructions input).trans ?_
      simp only [perform]
      cases recording.store instructions input <;> rfl
  | _ => rfl

/-- Whether an operation fails or not, the player stays in a frame. -/
theorem Sound.perform (sound : recording.Sound) (operation : Operation) :
    (recording.perform operation).2.Sound := by
  cases operation with
  | startPlayback =>
      have started := sound.startPlayback
      simp only [Recording.perform]
      split
      next same =>
        rw [same] at started
        exact started
      next same =>
        rw [same] at started
        exact started
  | playback => exact sound.attempt fun _ done => sound.playback done
  | playbackFrame => exact sound.attempt fun _ done => sound.playbackFrame done
  | startInput tstates => exact sound.startInput tstates
  | store instructions input => exact sound.attempt fun _ done => sound.store done
  | stopInput => exact ⟨sound.inputs, sound.playing⟩
  | addSnapshot content => exact sound.pushPart nofun
  | incrementTstates delta => exact ⟨sound.inputs, sound.playing⟩
  | clear => exact InputsWellFormed.sound nofun rfl

theorem Reachable.sound {packer : Packer} (reached : recording.Reachable packer) :
    recording.Sound := by
  induction reached with
  | new => exact InputsWellFormed.sound nofun rfl
  | read answered => exact (inputsWellFormed_read answered).sound (cursor_read answered)
  | perform _ operation ih => exact ih.perform operation

/-- However a recording came about, while it is played the player is in a frame of a
block of input and knows the frame that has the octets. It reads an octet exactly if one
is left, and goes on to the next frame exactly if none is left, where an index can count
the frames of the block.

In place, operations answer as they do otherwise and leave the same recording. One that
fails leaves the recording as it was, so that it fails again in the same way, but for
the start of playing. -/
theorem player_inside {packer : Packer} (reached : recording.Reachable packer) :
    (∀ cursor, recording.cursor = some cursor → ∃ block frame own,
      recording.parts[cursor.part]? = some (.input block) ∧
      cursor.Inside block frame own ∧
      (cursor.readCount = frame.count.toNat →
        recording.playback =
          .error (.corrupt (.inputExhausted frame.count.toNat cursor.frame))) ∧
      (cursor.readCount ≠ frame.count.toNat → ∃ octet,
        own.input[cursor.readCount]? = some octet ∧
        recording.playback = .ok (octet,
          { recording with cursor := some { cursor with readCount := cursor.readCount + 1 } })) ∧
      (cursor.readCount ≠ frame.count.toNat →
        recording.playbackFrame =
          .error (.corrupt (.inputCount cursor.readCount frame.count.toNat cursor.frame))) ∧
      (cursor.readCount = frame.count.toNat → block.frames.size ≤ maxIndex →
        ∃ step after, recording.playbackFrame = .ok (step, after))) ∧
    (∀ operation : Operation, change recording operation.inPlace =
      ((recording.perform operation).1.elim (.ok ()) .error, (recording.perform operation).2)) ∧
    (∀ (operation : Operation) (error : Error) (after : Recording), operation ≠ .startPlayback →
      change recording operation.inPlace = (.error error, after) →
        after = recording ∧ change after operation.inPlace = (.error error, after)) ∧
    ∀ operation, operation ≠ .startPlayback → (recording.perform operation).1 ≠ none →
      (recording.perform operation).2 = recording := by
  have sound := reached.sound
  have unchanged (operation : Operation) (other : operation ≠ .startPlayback)
      (failed : (recording.perform operation).1 ≠ none) :
      (recording.perform operation).2 = recording := by
    cases operation with
    | startPlayback => exact absurd rfl other
    | playback | playbackFrame | store => exact attempt_failed failed
    | _ => exact absurd rfl failed
  refine ⟨?_, change_inPlace recording, ?_, unchanged⟩
  · intro cursor here
    obtain ⟨block, frame, own, found, inside⟩ := sound.playing cursor here
    refine ⟨block, frame, own, found, inside, playback_exhausted here found inside,
      playback_more here found inside, playbackFrame_early here found inside, ?_⟩
    intro all few
    obtain ⟨lower, -⟩ := Array.getElem?_eq_some_iff.mp inside.here
    obtain ⟨step, after, left, -⟩ :=
      sound.leaves here found inside all (Nat.lt_of_lt_of_le lower few)
    exact ⟨step, after, left⟩
  · intro operation error after other failed
    have same := (change_inPlace recording operation).symm.trans failed
    obtain ⟨answered, left⟩ := Prod.mk.inj same
    have kept := unchanged operation other fun none => by simp [none] at answered
    obtain rfl : recording = after := kept.symm.trans left
    exact ⟨rfl, failed⟩

/-- Operations that play a block with a repetition and extend the recording meanwhile.
Two of them fail, the one to leave a frame too early and the one to read an octet too
many. -/
def busy : List Operation :=
  [.startInput 5, .store 10 #[7, 8], .store 11 #[7, 8], .startPlayback, .playback, .playbackFrame,
    .playback, .playback, .playbackFrame, .startInput 6, .store 12 #[9], .playback]

theorem player_inside_busy :
    (run {} busy).Reachable Packing.Zlib.packer ∧
    (run {} busy).cursor =
      some { part := 0, frame := 1, readCount := 1, inputFrame := 0 } ∧
    (∃ played, (run {} busy).playback = .ok (8, played)) ∧
    (run {} busy).playbackFrame = .error (.corrupt (.inputCount 1 2 1)) := by
  have reached : (run {} busy).Reachable Packing.Zlib.packer := Reachable.new.run busy
  have here : (run {} busy).cursor =
      some { part := 0, frame := 1, readCount := 1, inputFrame := 0 } := by decide +kernel
  have part : (run {} busy).parts[0]? = some (.input
      { tstates := 5, frames := #[⟨10, 2, false, #[7, 8]⟩, ⟨11, 2, true, #[]⟩] }) := by
    decide +kernel
  obtain ⟨block, frame, own, found, inside, -, more, early, -⟩ :=
    (player_inside reached).1 _ here
  obtain rfl := Part.input.inj (Option.some.inj (part.symm.trans found))
  obtain rfl : (⟨11, 2, true, #[]⟩ : Frame) = frame := Option.some.inj inside.here
  obtain rfl : (⟨10, 2, false, #[7, 8]⟩ : Frame) = own := Option.some.inj inside.source
  obtain ⟨octet, isNext, played⟩ := more (by decide)
  obtain rfl : (8 : UInt8) = octet := Option.some.inj isNext
  exact ⟨reached, here, ⟨_, played⟩, early (by decide)⟩

end Recording

end ZxMedia
