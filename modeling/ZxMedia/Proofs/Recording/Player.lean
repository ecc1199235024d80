import ZxMedia.Proofs.Encoding
import ZxMedia.Proofs.Recording.Frames
import ZxMedia.Recording.Player

/-!
# Playing gives back what was recorded

What happened during a recording is a sequence of entries: the frames, each with the
octets read in it, and the snapshots taken between them. A host that plays a recording
asks in each frame for as many octets as the frame has, and goes on to the next frame.
It gets the entries back in order, frame by frame, and with each step the first snapshot
on the way.

The player only knows a position in the blocks of input. `Place` describes the same
position by what is in front of it and behind it, and `At` says that the player is
there.
-/

namespace ZxMedia.Recording

/-! ## What happened during a recording -/

/-- A frame or a snapshot. -/
inductive Entry where
  | frame (instructions : UInt16) (input : Octets)
  | snapshot (content : Snapshot)
deriving DecidableEq

namespace Entry

/-- Whether an entry is a snapshot. -/
def isSnapshot : Entry → Bool
  | frame _ _ => false
  | snapshot _ => true

/-- The number of octets read in a frame. -/
def count? : Entry → Option Nat
  | frame _ input => some input.size
  | snapshot _ => none

end Entry

/-- The octets read in a frame that stands behind others. -/
def inputOf (before : List Frame) (frame : Frame) : Octets :=
  if frame.repeats then ((Frame.lastOwn? before).map Frame.input).getD #[] else frame.input

/-- The entries of frames that stand behind others. -/
def entriesFrom (before : List Frame) : List Frame → List Entry
  | [] => []
  | frame :: frames =>
    .frame frame.instructions (inputOf before frame) :: entriesFrom (before ++ [frame]) frames

/-- The entries of a part. -/
def Part.entries : Part → List Entry
  | .input block => entriesFrom [] block.frames.toList
  | .snapshot content => [.snapshot content]
  | .signature _ => []

theorem entriesFrom_append (before frames others : List Frame) :
    entriesFrom before (frames ++ others) =
      entriesFrom before frames ++ entriesFrom (before ++ frames) others := by
  induction frames generalizing before with
  | nil => simp [entriesFrom]
  | cons frame frames ih => simp [entriesFrom, ih]

/-! ## The host -/

/-- What a host gets in a frame. -/
structure Played where
  instructions : Option UInt16
  input : Octets
  /-- What leaving the frame leads to. -/
  step : FrameStep
deriving DecidableEq

/-- A host that asks for so many octets in each of the coming frames, and leaves it
then. -/
def play : List Nat → Recording → Except Error (List Played × Recording)
  | [], recording => .ok ([], recording)
  | count :: counts, recording =>
    let reading := readOn count { recording }
    match reading.error with
    | some error => .error error
    | none => do
      let (step, next) ← reading.recording.playbackFrame
      let (later, final) ← play counts next
      return ({ instructions := recording.instructions?, input := reading.octets, step } :: later,
        final)

/-- What leaving a frame has to lead to when `entries` are behind it and a snapshot was
found: the first snapshot in front of the next frame, if there is a next frame. -/
def stepTo : List Entry → Option Snapshot → FrameStep
  | [], _ => .finished
  | .snapshot content :: entries, found => stepTo entries (found.or (some content))
  | .frame _ _ :: _, some found => .snapshot found
  | .frame _ _ :: _, none => .next

/-- What a host has to get when it plays entries. -/
def replay : List Entry → List Played
  | [] => []
  | .snapshot _ :: entries => replay entries
  | .frame instructions input :: entries =>
    { instructions := some instructions, input, step := stepTo entries none } :: replay entries

theorem replay_dropWhile (entries : List Entry) :
    replay (entries.dropWhile Entry.isSnapshot) = replay entries := by
  induction entries with
  | nil => rfl
  | cons entry entries ih =>
      cases entry with
      | frame instructions input => rfl
      | snapshot content => exact ih

theorem counts_dropWhile (entries : List Entry) :
    (entries.dropWhile Entry.isSnapshot).filterMap Entry.count? =
      entries.filterMap Entry.count? := by
  induction entries with
  | nil => rfl
  | cons entry entries ih =>
      cases entry with
      | frame instructions input => rfl
      | snapshot content => exact ih

/-! ## Looking for the next block of input -/

/-- The step to a frame, after a snapshot was found on the way to it. -/
def stepWith : Option Snapshot → FrameStep
  | some found => .snapshot found
  | none => .next

/-- What looking for the next block of input comes to: either no frame is left, or the
first block with frames is found, and the first snapshot in front of it. -/
def Finds (parts : List Part) (index : Nat) (snapshot : Option Snapshot) : Prop :=
  (∃ found, findInput parts index snapshot = (none, found) ∧
    stepTo (parts.flatMap Part.entries) snapshot = .finished ∧
    (parts.flatMap Part.entries).dropWhile Entry.isSnapshot = []) ∨
  ∃ skipped block rest found, parts = skipped ++ .input block :: rest ∧
    findInput parts index snapshot = (some (index + skipped.length), found) ∧
    block.frames.toList ≠ [] ∧ stepTo (parts.flatMap Part.entries) snapshot = stepWith found ∧
    (parts.flatMap Part.entries).dropWhile Entry.isSnapshot =
      entriesFrom [] block.frames.toList ++ rest.flatMap Part.entries

theorem Finds.cons {part : Part} {parts : List Part} {index : Nat}
    {before after : Option Snapshot}
    (passes : findInput (part :: parts) index before = findInput parts (index + 1) after)
    (steps : ∀ entries, stepTo (part.entries ++ entries) before = stepTo entries after)
    (drops : ∀ entries, (part.entries ++ entries).dropWhile Entry.isSnapshot =
      entries.dropWhile Entry.isSnapshot)
    (later : Finds parts (index + 1) after) : Finds (part :: parts) index before := by
  unfold Finds
  rw [passes, List.flatMap_cons, steps, drops]
  rcases later with ⟨found, search, finished, none⟩ |
    ⟨skipped, block, rest, found, rfl, search, frames, step, entries⟩
  · exact .inl ⟨found, search, finished, none⟩
  · refine .inr ⟨part :: skipped, block, rest, found, rfl, ?_, frames, step, entries⟩
    rw [search, List.length_cons]
    simp
    omega

theorem finds_findInput (parts : List Part) (index : Nat) (snapshot : Option Snapshot) :
    Finds parts index snapshot := by
  induction parts generalizing index snapshot with
  | nil => exact .inl ⟨snapshot, rfl, rfl, rfl⟩
  | cons part parts ih =>
      cases part with
      | signature info => exact .cons rfl (fun _ => rfl) (fun _ => rfl) (ih _ _)
      | snapshot content => exact .cons rfl (fun _ => rfl) (fun _ => rfl) (ih _ _)
      | input block =>
          by_cases empty : block.frames.toList = []
          · have passes : findInput (.input block :: parts) index snapshot =
                findInput parts (index + 1) snapshot := by
              simp [findInput, ← Array.toList_eq_nil_iff, empty]
            have none : Part.entries (.input block) = [] := by
              simp [Part.entries, empty, entriesFrom]
            apply Finds.cons passes _ _ (ih _ _)
            · intro entries
              rw [none, List.nil_append]
            · intro entries
              rw [none, List.nil_append]
          · obtain ⟨frame, frames, split⟩ := List.exists_cons_of_ne_nil empty
            refine .inr ⟨[], block, parts, snapshot, rfl, ?_, empty, ?_, ?_⟩
            · simp [findInput, ← Array.toList_eq_nil_iff, empty]
            · cases snapshot <;> simp [Part.entries, split, entriesFrom, stepTo, stepWith]
            · simp [Part.entries, split, entriesFrom, Entry.isSnapshot]

/-! ## Positions -/

/-- Parts that can be played: their blocks of input are well formed, and their frames
can be counted. -/
def Playable (parts : List Part) : Prop :=
  ∀ block, .input block ∈ parts → block.WellFormed ∧ block.frames.size ≤ maxIndex

/-- A frame of one of the blocks of input among parts. -/
structure Place (parts : List Part) where
  front : List Part
  block : InputBlock
  back : List Part
  inParts : parts = front ++ .input block :: back
  before : List Frame
  frame : Frame
  after : List Frame
  inBlock : block.frames.toList = before ++ frame :: after

namespace Place

variable {parts : List Part}

/-- The octets read in the frame. -/
def input (place : Place parts) : Octets :=
  inputOf place.before place.frame

/-- What happened after the frame. -/
def behind (place : Place parts) : List Entry :=
  entriesFrom (place.before ++ [place.frame]) place.after ++ place.back.flatMap Part.entries

/-- What happened from the frame on. -/
def entries (place : Place parts) : List Entry :=
  .frame place.frame.instructions place.input :: place.behind

theorem member (place : Place parts) : .input place.block ∈ parts := by
  have inside :
      .input place.block ∈ place.front ++ .input place.block :: place.back := by simp
  exact (congrArg (Part.input place.block ∈ ·) place.inParts).mpr inside

/-- The frame with the octets read in the frame of a place has as many as the frame
counts. -/
theorem source (place : Place parts) (playable : Playable parts) :
    ∃ own, Frame.lastOwn? (place.before ++ [place.frame]) = some own ∧
      own.input = place.input ∧
      place.frame.count.toNat = place.input.size := by
  obtain ⟨wellFormed, -⟩ := playable place.block place.member
  have follows := wellFormed place.before place.frame place.after place.inBlock
  rw [Frame.lastOwn?_append]
  unfold input inputOf
  unfold Frame.Follows at follows
  split at follows
  next repeats =>
    obtain ⟨-, last, found, same⟩ := follows
    have own : last.repeats = false := by simpa using List.find?_some found
    obtain ⟨first, between, split⟩ :=
      List.append_of_mem (List.mem_reverse.mp (List.mem_of_find?_eq_some found))
    have inBlock := place.inBlock
    rw [split, List.append_assoc, List.cons_append] at inBlock
    have counted := wellFormed first last _ inBlock
    rw [Frame.Follows, own] at counted
    exact ⟨last, by simp [repeats, found], by simp [repeats, found],
      by simpa [repeats, found, same] using counted.1⟩
  next own =>
    exact ⟨place.frame, by simp [own], by simp [own], by simpa [own] using follows.1⟩

end Place

/-- The player is at a place, where so many octets were read. -/
structure At {parts : List Part} (recording : Recording) (place : Place parts)
    (readCount : Nat) :
    Prop where
  parts : recording.parts.toList = parts
  cursor : ∃ inputFrame, recording.cursor = some {
      part := place.front.length, frame := place.before.length, readCount, inputFrame } ∧
    place.block.frames[inputFrame]? = Frame.lastOwn? (place.before ++ [place.frame])

theorem getElem?_parts {recording : Recording} {front back : List Part} {part : Part}
    (parts : recording.parts.toList = front ++ part :: back) :
    recording.parts[front.length]? = some part := by
  rw [← Array.getElem?_toList, parts]
  simp

theorem getElem?_frames {block : InputBlock} {before after : List Frame} {frame : Frame}
    (frames : block.frames.toList = before ++ frame :: after) :
    block.frames[before.length]? = some frame := by
  rw [← Array.getElem?_toList, frames]
  simp

namespace At

variable {parts : List Part} {place : Place parts} {recording : Recording}
    {readCount : Nat}

theorem part (stands : recording.At place readCount) :
    recording.parts[place.front.length]? = some (.input place.block) :=
  getElem?_parts (stands.parts.trans place.inParts)

theorem inputAt (stands : recording.At place readCount) :
    recording.inputAt place.front.length = .ok place.block := by
  simp only [Recording.inputAt, stands.part]

theorem instructions? (stands : recording.At place readCount) :
    recording.instructions? = some place.frame.instructions := by
  obtain ⟨inputFrame, cursor, -⟩ := stands.cursor
  simp [Recording.instructions?, cursor, stands.part, getElem?_frames place.inBlock]

theorem playback (stands : recording.At place readCount) (playable : Playable parts)
    (more : readCount < place.input.size) :
    ∃ read, recording.playback = .ok (place.input[readCount], read) ∧
      read.At place (readCount + 1) := by
  obtain ⟨inputFrame, cursor, found⟩ := stands.cursor
  obtain ⟨own, last, same, counted⟩ := place.source playable
  have recorded : frameInput place.block place.before.length = place.input.size := by
    simp [frameInput, getElem?_frames place.inBlock, counted]
  have octet : own.input[readCount]? = some place.input[readCount] := by
    rw [same]
    exact Array.getElem?_eq_getElem more
  refine ⟨{ recording with cursor := some {
    part := place.front.length, frame := place.before.length, readCount := readCount + 1,
    inputFrame } }, ?_, stands.parts, inputFrame, rfl, found⟩
  simp only [Recording.playback, position, cursor, ok_bind, stands.inputAt,
    recorded, found, last]
  rw [if_neg (Nat.not_le.mpr more), Option.bind_some, octet]
  rfl

theorem readOn (playable : Playable parts) (count : Nat) {recording : Recording}
    {readCount : Nat}
    (stands : recording.At place readCount)
    (left : readCount + count = place.input.size) :
    ∃ read, Recording.readOn count { octets := place.input.extract 0 readCount, recording } =
        { octets := place.input, recording := read } ∧
      read.At place place.input.size := by
  induction count generalizing recording readCount with
  | zero =>
      have all : place.input.extract 0 readCount = place.input :=
        Array.extract_eq_self_of_le (Nat.le_of_eq left.symm)
      rw [all]
      exact ⟨recording, rfl, left ▸ stands⟩
  | succ count ih =>
      have more : readCount < place.input.size := by omega
      obtain ⟨next, octet, further⟩ := stands.playback playable more
      have taken : (place.input.extract 0 readCount).push place.input[readCount] =
          place.input.extract 0 (readCount + 1) := by
        simp
      simp only [Recording.readOn, octet, taken]
      exact ih further (by omega)

theorem readOn_input (stands : recording.At place 0) (playable : Playable parts) :
    ∃ read, Recording.readOn place.input.size { recording } =
        { octets := place.input, recording := read } ∧
      read.At place place.input.size := by
  have reading := readOn playable place.input.size stands (Nat.zero_add _)
  rwa [Array.extract_zero] at reading

end At

theorem enterInput_at {parts : List Part} (playable : Playable parts)
    {recording : Recording}
    (same : recording.parts.toList = parts) {front back : List Part} {block : InputBlock}
    (inParts : parts = front ++ .input block :: back)
    (frames : block.frames.toList ≠ []) :
    ∃ entered, recording.enterInput front.length = .ok entered ∧
      ∃ place : Place parts, entered.At place 0 ∧
        place.entries =
          entriesFrom [] block.frames.toList ++ back.flatMap Part.entries := by
  obtain ⟨frame, after, inBlock⟩ := List.exists_cons_of_ne_nil frames
  let place : Place parts := ⟨front, block, back, inParts, [], frame, after, inBlock⟩
  have own : frame.repeats = false := by
    have follows := (playable block place.member).1 [] frame after inBlock
    cases repeats : frame.repeats with
    | false => rfl
    | true =>
        rw [Frame.Follows, repeats] at follows
        obtain ⟨-, last, found, -⟩ := follows
        cases found
  have first : block.frames[0]? = some frame := by
    rw [← Array.getElem?_toList, inBlock]
    rfl
  have last : Frame.lastOwn? [frame] = some frame := by
    simp [Frame.lastOwn?, own]
  have found : recording.inputAt front.length = .ok block := by
    simp only [inputAt, getElem?_parts (same.trans inParts)]
  refine ⟨{ recording with cursor := some { part := front.length } }, ?_, place,
    ⟨same, 0, rfl, ?_⟩, ?_⟩
  · simp [enterInput, found, first, own]
  · simp [place, first, last]
  · rw [inBlock]
    rfl

/-! ## Steps -/

namespace At

variable {parts : List Part} {place : Place parts} {recording : Recording}

/-- What leaving a frame depends on, when all its octets were read. -/
theorem playbackFrame_eq (stands : recording.At place place.input.size)
    (playable : Playable parts) :
    ∃ inputFrame,
      place.block.frames[inputFrame]? = Frame.lastOwn? (place.before ++ [place.frame]) ∧
      recording.playbackFrame = match place.block.frames[place.before.length + 1]? with
        | some next => .ok (.next, { recording with cursor := some {
            part := place.front.length
            frame := place.before.length + 1
            inputFrame := if next.repeats then inputFrame else place.before.length + 1 } })
        | none => match recording.nextInput (place.front.length + 1) with
          | (none, _) => .ok (.finished, { recording with cursor := none })
          | (some index, snapshot) => do
            let entered ← recording.enterInput index
            return (stepWith snapshot, entered) := by
  obtain ⟨inputFrame, cursor, found⟩ := stands.cursor
  obtain ⟨own, last, same, counted⟩ := place.source playable
  have recorded : frameInput place.block place.before.length = place.input.size := by
    simp [frameInput, getElem?_frames place.inBlock, counted]
  have small : ¬maxIndex ≤ place.before.length := by
    have bound := (playable place.block place.member).2
    have inside : place.before.length < place.block.frames.size := by
      rw [← Array.length_toList, place.inBlock]
      simp
    omega
  refine ⟨inputFrame, found, ?_⟩
  simp only [Recording.playbackFrame, position, cursor, ok_bind,
    stands.inputAt, recorded, small, if_false, ne_eq, not_true_eq_false]
  rfl

/-- Leaving a frame leads to the next frame of the block. -/
theorem next (stands : recording.At place place.input.size) (playable : Playable parts)
    {following : Frame} {rest : List Frame} (more : place.after = following :: rest) :
    ∃ stepped, recording.playbackFrame = .ok (.next, stepped) ∧
      ∃ coming : Place parts, stepped.At coming 0 ∧ coming.entries = place.behind := by
  obtain ⟨inputFrame, found, step⟩ := stands.playbackFrame_eq playable
  have inBlock : place.block.frames.toList =
      (place.before ++ [place.frame]) ++ following :: rest := by
    rw [place.inBlock, more]
    simp
  have present := getElem?_frames inBlock
  rw [List.length_append, List.length_singleton] at present
  rw [present] at step
  let coming : Place parts :=
    ⟨place.front, place.block, place.back, place.inParts, place.before ++ [place.frame], following,
      rest, inBlock⟩
  refine ⟨_, step, coming, ⟨stands.parts,
    if following.repeats then inputFrame else place.before.length + 1, ?_, ?_⟩, ?_⟩
  · simp [coming]
  · change place.block.frames[_]? = Frame.lastOwn? ((place.before ++ [place.frame]) ++ [following])
    rw [Frame.lastOwn?_append]
    cases following.repeats with
    | true => exact found
    | false => exact present
  · rw [Place.behind, more]
    rfl

/-- Leaving the last frame of a block leads to the next block of input with frames, if
there is one. -/
theorem leave (stands : recording.At place place.input.size) (playable : Playable parts)
    (last : place.after = []) :
    ∃ next, recording.playbackFrame =
        .ok (stepTo (place.back.flatMap Part.entries) none, next) ∧
      ((place.back.flatMap Part.entries).dropWhile Entry.isSnapshot = [] ∨
        ∃ coming : Place parts, next.At coming 0 ∧
          coming.entries = (place.back.flatMap Part.entries).dropWhile Entry.isSnapshot) := by
  obtain ⟨inputFrame, -, step⟩ := stands.playbackFrame_eq playable
  have absent : place.block.frames[place.before.length + 1]? = none := by
    rw [Array.getElem?_eq_none_iff, ← Array.length_toList, place.inBlock, last]
    simp
  have behind : recording.parts.toList.drop (place.front.length + 1) = place.back := by
    rw [stands.parts.trans place.inParts]
    simp
  rw [absent] at step
  simp only [nextInput, behind] at step
  rcases finds_findInput place.back (place.front.length + 1) none with
    ⟨found, search, finished, none⟩ |
    ⟨skipped, block, rest, found, split, search, frames, leads, left⟩
  · rw [search] at step
    rw [finished]
    exact ⟨_, step, .inl none⟩
  · have inParts : parts = (place.front ++ .input place.block :: skipped) ++ .input block :: rest :=
      place.inParts.trans (by simp [split])
    obtain ⟨entered, enters, coming, arrived, same⟩ :=
      enterInput_at playable stands.parts inParts frames
    have index : place.front.length + 1 + skipped.length =
        (place.front ++ .input place.block :: skipped).length := by
      simp
      omega
    rw [search, index] at step
    simp only [enters] at step
    rw [leads, left, ← same]
    exact ⟨entered, step, .inr ⟨coming, arrived, rfl⟩⟩

/-- In a frame the host gets the octets of the frame, and the step leads to what is
behind it. -/
theorem step (stands : recording.At place 0) (playable : Playable parts) :
    ∃ read next,
      Recording.readOn place.input.size { recording } =
        { octets := place.input, recording := read } ∧
      read.playbackFrame = .ok (stepTo place.behind none, next) ∧
      (place.behind.dropWhile Entry.isSnapshot = [] ∨
        ∃ coming : Place parts, next.At coming 0 ∧
          coming.entries = place.behind.dropWhile Entry.isSnapshot) := by
  obtain ⟨read, reading, finished⟩ := stands.readOn_input playable
  cases after : place.after with
  | nil =>
      have same : place.behind = place.back.flatMap Part.entries := by
        simp [Place.behind, after, entriesFrom]
      rw [same]
      obtain ⟨next, steps, coming⟩ := finished.leave playable after
      exact ⟨read, next, reading, steps, coming⟩
  | cons following rest =>
      obtain ⟨next, steps, coming, arrived, same⟩ := finished.next playable after
      rw [← same]
      exact ⟨read, next, reading, steps, .inr ⟨coming, arrived, rfl⟩⟩

end At

/-- A host that plays on from a place gets everything that happened from there on. -/
theorem play_entries {parts : List Part} (playable : Playable parts) (bound : Nat)
    {recording : Recording} {place : Place parts} (stands : recording.At place 0)
    (inside : place.entries.length ≤ bound) :
    ∃ final, play (place.entries.filterMap Entry.count?) recording =
      .ok (replay place.entries, final) := by
  -- A step may pass over snapshots and empty blocks, so the induction is on a bound of
  -- the number of entries, not on the entries.
  induction bound generalizing recording place with
  | zero => cases inside
  | succ bound ih =>
      obtain ⟨read, next, reading, steps, coming⟩ := stands.step playable
      have later : ∃ final, play (place.behind.filterMap Entry.count?) next =
          .ok (replay place.behind, final) := by
        rw [← replay_dropWhile, ← counts_dropWhile]
        rcases coming with none | ⟨coming, arrived, left⟩
        · rw [none]
          exact ⟨next, rfl⟩
        · have dropped :=
            (List.dropWhile_sublist Entry.isSnapshot (l := place.behind)).length_le
          rw [← left] at dropped ⊢
          exact ih arrived (Nat.le_trans dropped (Nat.le_of_succ_le_succ inside))
      obtain ⟨final, played⟩ := later
      refine ⟨final, ?_⟩
      simp only [Place.entries, List.filterMap_cons, Entry.count?, play,
        reading, steps, ok_bind, played, stands.instructions?, replay]
      rfl

/-- A recording with a frame can be played from the beginning, and gives back what
happened. -/
theorem play_startPlayback {recording : Recording}
    (playable : Playable recording.parts.toList)
    (some : (recording.parts.toList.flatMap Part.entries).dropWhile Entry.isSnapshot ≠ []) :
    ∃ snapshot started final, recording.startPlayback = (.ok snapshot, started) ∧
      play ((recording.parts.toList.flatMap Part.entries).filterMap Entry.count?) started =
        .ok (replay (recording.parts.toList.flatMap Part.entries), final) := by
  rcases finds_findInput recording.parts.toList 0 none with
    ⟨-, -, -, none⟩ | ⟨skipped, block, rest, found, inParts, search, frames, -, left⟩
  · exact absurd none some
  · have same : recording.idle.parts.toList = recording.parts.toList := rfl
    obtain ⟨entered, enters, place, stands, entries⟩ :=
      enterInput_at playable same inParts frames
    obtain ⟨final, played⟩ := play_entries playable _ stands (Nat.le_refl _)
    refine ⟨found, entered, final, ?_, ?_⟩
    · have looked : recording.idle.nextInput 0 = (.some skipped.length, found) := by
        rw [nextInput, same, List.drop_zero, search, Nat.zero_add]
      simp only [startPlayback, looked, enters]
    · rw [← replay_dropWhile, ← counts_dropWhile, left, ← entries]
      exact played

end ZxMedia.Recording
