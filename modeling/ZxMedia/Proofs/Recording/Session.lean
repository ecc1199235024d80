import ZxMedia.Proofs.Recording.File
import ZxMedia.Proofs.Recording.Player

/-!
# What was recorded is played

A session of recording is a sequence of actions. Its history is what the actions were
meant to record: the frames that could be stored, with the octets given for them, and
the snapshots. The parts of the recording always hold the history, although a frame that
repeats the octets of the one before is stored without them. So the file that is written
of the recording, packed or not, is played as the history.
-/

namespace ZxMedia.Recording

open Packing (Packer)

/-- Something that is done with a recording that is made. -/
inductive Action where
  | startInput (tstates : UInt32)
  | store (instructions : UInt16) (input : Octets)
  | stopInput
  | addSnapshot (content : Snapshot)

/-- A recording that is made, and what happened so far. -/
structure Session where
  recording : Recording := {}
  history : List Entry := []

namespace Session

/-- The session after an action. A frame that can not be stored changes nothing. -/
def perform (session : Session) : Action → Session
  | .startInput tstates => { session with recording := session.recording.startInput tstates }
  | .store instructions input => match session.recording.store instructions input with
    | .ok recording => { recording, history := session.history ++ [.frame instructions input] }
    | .error _ => session
  | .stopInput => { session with recording := session.recording.stopInput }
  | .addSnapshot content => {
      recording := session.recording.pushPart (.snapshot content)
      history := session.history ++ [.snapshot content] }

/-- The session after actions on a new recording. -/
def run (actions : List Action) : Session :=
  actions.foldl perform {}

/-- The parts of the recording hold what happened, and a block of input that is recorded
is the last part. -/
structure Kept (session : Session) : Prop where
  creator : session.recording.creator = {}
  history : session.recording.parts.toList.flatMap Part.entries = session.history
  parts : ∀ part ∈ session.recording.parts.toList, part.WellFormed ∧ part.isUnsigned = true
  last : ∀ index, session.recording.recording = some index →
    ∃ front block, session.recording.parts.toList = front ++ [.input block] ∧ index = front.length

end Session

/-- A frame that is stored has the number of instructions and the octets it was
given. -/
theorem nextFrame_entry {block : InputBlock} {instructions : UInt16} {input : Octets}
    {frame : Frame}
    (next : nextFrame block instructions input = .ok frame) :
    frame.instructions = instructions ∧ inputOf block.frames.toList frame = input := by
  have ofInput : Frame.ofInput instructions input = .ok frame →
      frame.instructions = instructions ∧ inputOf block.frames.toList frame = input := by
    intro made
    unfold Frame.ofInput at made
    split at made
    next =>
      obtain rfl := Except.ok.inj made
      exact ⟨rfl, rfl⟩
    next => cases made
  unfold nextFrame at next
  split at next
  next last found =>
    rw [InputBlock.lastInput?_eq] at found
    split at next
    next same =>
      obtain rfl := Except.ok.inj next
      exact ⟨rfl, by simp [inputOf, Frame.repetition, found, same]⟩
    next => exact ofInput next
  next => exact ofInput next

/-- A frame is stored at the end of the block of input that is recorded. -/
theorem store_ok {recording stored : Recording} {instructions : UInt16} {input : Octets}
    (done : recording.store instructions input = .ok stored) :
    ∃ index block frame, recording.recording = some index ∧
      recording.parts[index]? = some (.input block) ∧
      nextFrame block instructions input = .ok frame ∧
      stored = recording.pushFrame index frame := by
  unfold store frameToStore at done
  cases current : recording.recording with
  | none =>
      rw [current] at done
      cases done
  | some index =>
      rw [current] at done
      dsimp only at done
      split at done
      next => cases done
      next made =>
        split at made
        next block found =>
          cases next : nextFrame block instructions input with
          | error error =>
              rw [next] at made
              cases made
          | ok frame =>
              rw [next] at made
              obtain ⟨rfl, rfl⟩ := Prod.mk.inj (Except.ok.inj made)
              exact ⟨index, block, frame, rfl, found, next, (Except.ok.inj done).symm⟩
        next => cases made

theorem parts_pushFrame {recording : Recording} {front : List Part} {block : InputBlock}
    (split : recording.parts.toList = front ++ [.input block]) (frame : Frame) :
    (recording.pushFrame front.length frame).parts.toList =
      front ++ [.input { block with frames := block.frames.push frame }] := by
  have atEnd (change : Part → Part) :
      (front ++ [Part.input block]).modify front.length change =
        front ++ [change (.input block)] := by
    clear split
    induction front with
    | nil => rfl
    | cons part front ih => simp [ih]
  simp [pushFrame, split, atEnd]

namespace Session

variable {session : Session}

theorem Kept.startInput (kept : session.Kept) (tstates : UInt32) :
    (session.perform (.startInput tstates)).Kept where
  creator := kept.creator
  history := by
    simp [perform, Recording.startInput, kept.history, Part.entries, entriesFrom]
  parts := by
    intro part member
    simp only [perform, Recording.startInput, Array.toList_push, List.mem_append,
      List.mem_singleton] at member
    rcases member with earlier | rfl
    · exact kept.parts part earlier
    · exact ⟨InputBlock.wellFormed_empty tstates, rfl⟩
  last := by
    intro index current
    obtain rfl := Option.some.inj current
    exact ⟨session.recording.parts.toList, { tstates },
      by simp [perform, Recording.startInput], by simp⟩

theorem Kept.stopInput (kept : session.Kept) : (session.perform .stopInput).Kept where
  creator := kept.creator
  history := kept.history
  parts := kept.parts
  last := nofun

theorem Kept.addSnapshot (kept : session.Kept) {content : Snapshot}
    (fits : FitsField extensionSize content.extension) :
    (session.perform (.addSnapshot content)).Kept where
  creator := kept.creator
  history := by
    simp [perform, pushPart, kept.history, Part.entries]
  parts := by
    intro part member
    simp only [perform, pushPart, Array.toList_push, List.mem_append,
      List.mem_singleton] at member
    rcases member with earlier | rfl
    · exact kept.parts part earlier
    · exact ⟨fits, rfl⟩
  last := nofun

theorem Kept.store (kept : session.Kept) (instructions : UInt16) (input : Octets) :
    (session.perform (.store instructions input)).Kept := by
  unfold perform
  dsimp only
  split
  next stored done =>
    obtain ⟨index, block, frame, current, found, next, rfl⟩ := store_ok done
    obtain ⟨front, last, split, rfl⟩ := kept.last index current
    obtain rfl : last = block := by
      rw [getElem?_parts split] at found
      exact Part.input.inj (Option.some.inj found)
    have parts := parts_pushFrame split frame
    obtain ⟨same, heard⟩ := nextFrame_entry next
    have wellFormed : last.WellFormed := (kept.parts (.input last) (by simp [split])).1
    refine ⟨kept.creator, ?_, ?_, ?_⟩
    · have before := kept.history
      rw [split] at before
      rw [parts, ← before]
      simp [Part.entries, entriesFrom_append, entriesFrom, same, heard]
    · intro part member
      rw [parts, List.mem_append, List.mem_singleton] at member
      rcases member with earlier | rfl
      · exact kept.parts part (by simp [split, earlier])
      · exact ⟨wellFormed.push (nextFrame_follows next), rfl⟩
    · intro index same
      obtain rfl := Option.some.inj (current.symm.trans same)
      exact ⟨front, _, parts, rfl⟩
  next => exact kept

theorem kept_run {actions : List Action}
    (fits : ∀ content, .addSnapshot content ∈ actions → FitsField extensionSize content.extension) :
    (run actions).Kept := by
  have start : ({} : Session).Kept := ⟨rfl, rfl, nofun, nofun⟩
  unfold run
  generalize ({} : Session) = session at start
  induction actions generalizing session with
  | nil => exact start
  | cons action actions ih =>
      have later : ∀ content, .addSnapshot content ∈ actions →
          FitsField extensionSize content.extension := by
        intro content member
        exact fits content (List.mem_cons_of_mem _ member)
      apply ih later
      cases action with
      | startInput tstates => exact start.startInput tstates
      | store instructions input => exact start.store instructions input
      | stopInput => exact start.stopInput
      | addSnapshot content => exact start.addSnapshot (fits content List.mem_cons_self)

end Session

/-- A recording that was made, written and read is played as what happened. -/
theorem play_read_write_run {packer : Packer} (restores : packer.Restores)
    (actions : List Action)
    (fits : ∀ content, .addSnapshot content ∈ actions → FitsField extensionSize content.extension)
    (stored : ∃ instructions input, .frame instructions input ∈ (Session.run actions).history)
    (compress : Bool) (file : Octets)
    (written : ((Session.run actions).recording.write { compress } packer).result = .ok file) :
    ∃ back snapshot started final, (read file packer).result = .ok back ∧
      back.startPlayback = (.ok snapshot, started) ∧
      play ((Session.run actions).history.filterMap Entry.count?) started =
        .ok (replay (Session.run actions).history, final) := by
  have kept := Session.kept_run fits
  generalize Session.run actions = session at kept stored written
  have name : FitsField nameSize session.recording.creator.name := by
    rw [kept.creator]
    decide
  have wellFormed : ∀ part ∈ session.recording.parts, part.WellFormed := by
    intro part member
    exact (kept.parts part member.val).1
  have unsigned :
      session.recording.parts.filter Part.isUnsigned = session.recording.parts := by
    rw [Array.filter_eq_self]
    intro part member
    exact (kept.parts part member.val).2
  have back :=
    @read_of_write packer restores session.recording { compress } file rfl wellFormed
    name written
  rw [unsigned] at back
  have playable : Playable session.recording.parts.toList := by
    intro block member
    refine ⟨(kept.parts _ member).1, ?_⟩
    have few := frames_lt_of_write rfl written (Array.mem_def.mpr member)
    exact Nat.le_of_lt (Nat.lt_trans few (by decide))
  have frames : session.history.dropWhile Entry.isSnapshot ≠ [] := by
    obtain ⟨instructions, input, member⟩ := stored
    rw [ne_eq, List.dropWhile_eq_nil_iff]
    intro all
    cases all _ member
  rw [← kept.history] at frames ⊢
  obtain ⟨snapshot, started, final, starts, played⟩ := @play_startPlayback
    { creator := session.recording.creator, parts := session.recording.parts } playable frames
  exact ⟨_, snapshot, started, final, back, starts, played⟩

/-- A session with repetitions, an empty block of input, two snapshots between two
frames, and a frame that can not be stored. -/
def outing : List Action := [
  .addSnapshot { extension := "z80", external := false, data := #[1, 2, 3] },
  .startInput 5, .store 10 #[7, 8], .store 11 #[7, 8], .store 12 #[],
  .addSnapshot { extension := "sna", external := true, data := #[4] },
  .addSnapshot { extension := "szx", external := false, data := #[] },
  .startInput 6, .startInput 7, .store 13 #[], .store 14 #[], .stopInput, .store 15 #[9],
  .startInput 8, .store 16 #[9]]

theorem play_read_write_run_outing :
    ∃ file back snapshot started final,
      ((Session.run outing).recording.write { compress := true }).result = .ok file ∧
      (read file).result = .ok back ∧ back.startPlayback = (.ok snapshot, started) ∧
      play [2, 2, 0, 0, 0, 1] started = .ok ([
        { instructions := some 10, input := #[7, 8], step := .next },
        { instructions := some 11, input := #[7, 8], step := .next },
        { instructions := some 12, input := #[],
          step := .snapshot { extension := "sna", external := true, data := #[4] } },
        { instructions := some 13, input := #[], step := .next },
        { instructions := some 14, input := #[], step := .next },
        { instructions := some 16, input := #[9], step := .finished }], final) := by
  have history : (Session.run outing).history = [
      .snapshot { extension := "z80", external := false, data := #[1, 2, 3] },
      .frame 10 #[7, 8], .frame 11 #[7, 8], .frame 12 #[],
      .snapshot { extension := "sna", external := true, data := #[4] },
      .snapshot { extension := "szx", external := false, data := #[] },
      .frame 13 #[], .frame 14 #[], .frame 16 #[9]] := by decide +kernel
  have fits : ∀ content, .addSnapshot content ∈ outing →
      FitsField extensionSize content.extension := by
    intro content member
    simp only [outing, List.mem_cons, Action.addSnapshot.injEq, reduceCtorEq,
      false_or, or_false, List.not_mem_nil] at member
    rcases member with rfl | rfl | rfl <;> decide
  have isWritten :
      ((Session.run outing).recording.write { compress := false }).result.toBool = true := by
    decide +kernel
  cases plain : ((Session.run outing).recording.write { compress := false }).result with
  | error error =>
      rw [plain] at isWritten
      cases isWritten
  | ok octets =>
      obtain ⟨file, written, -⟩ := @write_packed _ _ { compress := false } _ rfl plain
      have stored : ∃ instructions input,
          .frame instructions input ∈ (Session.run outing).history := by
        rw [history]
        exact ⟨10, #[7, 8], by decide⟩
      obtain ⟨back, snapshot, started, final, answered, starts, played⟩ :=
        play_read_write_run Packing.Zlib.packer_restores outing fits stored true file written
      rw [history] at played
      exact ⟨file, back, snapshot, started, final, written, answered, starts, played⟩

end ZxMedia.Recording
