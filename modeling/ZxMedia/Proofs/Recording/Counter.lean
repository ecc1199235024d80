import ZxMedia.Proofs.Recording.Cursor

/-!
# The counter of T-states

A block of input says what the counter was at its beginning. The counter is set to that
when a block is started, and from then on it is counted up as a word of 32 bits. It is
not set when the player comes into a block: whoever plays a recording finds the counter
as the last recording left it, and in a recording that was read from a file it is zero.
So the counter is that of the block that is played only if it happened to be.
-/

namespace ZxMedia.Recording

variable {recording after : Recording} {block : InputBlock}

/-- Something done with a recording: an operation, or any part put at its end. -/
inductive Change where
  | operate (operation : Operation)
  | push (part : Part)

namespace Change

/-- The recording after a change, which may have failed. -/
def apply (recording : Recording) : Change → Recording
  | operate operation => (recording.perform operation).2
  | push part => recording.pushPart part

/-- Whether a change sets the counter anew. -/
def restarts : Change → Bool
  | operate (.startInput _) | operate .clear => true
  | _ => false

/-- The T-states that a change counts. -/
def delta : Change → Nat
  | operate (.incrementTstates delta) => delta.toNat
  | _ => 0

end Change

/-- The recording after changes one after another. -/
def changed (recording : Recording) (changes : List Change) : Recording :=
  changes.foldl Change.apply recording

/-- The T-states that changes count. -/
def counted (changes : List Change) : Nat :=
  (changes.map Change.delta).sum

/-- The block of input that the player is in. -/
def played? (recording : Recording) : Option InputBlock :=
  recording.cursor.bind fun cursor => (recording.inputAt cursor.part).toOption

/-- The block of input that an operation makes the current one: the one that it starts,
or the one that it leads the player into. There is none if the operation fails, if the
player stays in its block, and if it comes to the end. -/
def entered? (recording : Recording) (operation : Operation) : Option InputBlock :=
  match operation, recording.perform operation with
  | .startInput tstates, _ => some { tstates }
  | .startPlayback, (none, after) => after.played?
  | .playbackFrame, (none, after) =>
    if after.cursor.map PlayCursor.part = recording.cursor.map PlayCursor.part then none
    else after.played?
  | _, _ => none

/-! ## What the player does to the counter -/

theorem tstates_enterInput {index : Nat}
    (entered : recording.enterInput index = .ok after) :
    after.tstates = recording.tstates := by
  unfold enterInput at entered
  split at entered
  next => cases entered
  next =>
    split at entered
    next => cases entered
    next =>
      cases entered
      rfl

theorem tstates_startPlayback (recording : Recording) :
    recording.startPlayback.2.tstates = recording.tstates := by
  unfold startPlayback
  split
  next => rfl
  next =>
    split
    next => rfl
    next moved =>
      have kept := tstates_enterInput moved
      exact kept

theorem tstates_playback {octet : UInt8}
    (done : recording.playback = .ok (octet, after)) :
    after.tstates = recording.tstates := by
  obtain ⟨cursor, -, done⟩ := bind_ok.mp done
  obtain ⟨block, -, done⟩ := bind_ok.mp done
  dsimp only at done
  split at done
  next => cases done
  next =>
    split at done
    next => cases done
    next =>
      cases done
      rfl

theorem tstates_playbackFrame {step : FrameStep}
    (done : recording.playbackFrame = .ok (step, after)) :
    after.tstates = recording.tstates := by
  obtain ⟨cursor, -, done⟩ := bind_ok.mp done
  obtain ⟨block, -, done⟩ := bind_ok.mp done
  dsimp only at done
  split at done
  next => cases done
  next =>
    split at done
    next => cases done
    next =>
      split at done
      next =>
        cases done
        rfl
      next =>
        split at done
        next =>
          cases done
          rfl
        next =>
          obtain ⟨entered, moved, done⟩ := bind_ok.mp done
          cases done
          exact tstates_enterInput moved

/-! ## Changes one after another -/

theorem tstates_attempt {α : Type} {outcome : Except Error α} {after : α → Recording}
    (kept : ∀ answer, outcome = .ok answer → (after answer).tstates = recording.tstates) :
    (recording.attempt after outcome).2.tstates = recording.tstates := by
  cases outcome with
  | error error => rfl
  | ok answer => exact kept answer rfl

/-- A change that does not set the counter adds what it counts. -/
theorem tstates_apply {change : Change} (counts : change.restarts = false) :
    (change.apply recording).tstates = recording.tstates + UInt32.ofNat change.delta := by
  have nothing : recording.tstates = recording.tstates + UInt32.ofNat 0 :=
    (UInt32.add_zero _).symm
  cases change with
  | push part => exact nothing
  | operate operation =>
      cases operation with
      | startInput tstates => cases counts
      | clear => cases counts
      | incrementTstates delta =>
          change recording.tstates + delta = recording.tstates + UInt32.ofNat delta.toNat
          rw [UInt32.ofNat_toNat]
      | stopInput => exact nothing
      | addSnapshot content => exact nothing
      | startPlayback =>
          have kept := tstates_startPlayback recording
          rw [nothing] at kept
          simp only [Change.apply, perform]
          split
          next same => rwa [same] at kept
          next same => rwa [same] at kept
      | playback =>
          refine (tstates_attempt ?_).trans nothing
          rintro ⟨octet, after⟩ done
          exact tstates_playback done
      | playbackFrame =>
          refine (tstates_attempt ?_).trans nothing
          rintro ⟨step, after⟩ done
          exact tstates_playbackFrame done
      | store instructions input =>
          refine (tstates_attempt ?_).trans nothing
          intro after done
          obtain ⟨index, stored, frame, -, -, -, rfl⟩ := store_ok done
          rfl

theorem tstates_changed {changes : List Change}
    (counting : ∀ change ∈ changes, change.restarts = false) :
    (recording.changed changes).tstates =
      recording.tstates + UInt32.ofNat (counted changes) := by
  induction changes generalizing recording with
  | nil => exact (UInt32.add_zero _).symm
  | cons change changes ih =>
      rw [List.forall_mem_cons] at counting
      have first := @tstates_apply recording change counting.1
      have others := @ih (change.apply recording) counting.2
      rw [first, UInt32.add_assoc, ← UInt32.ofNat_add] at others
      exact others

/-- The counter is that of a block which is started, and stays when the player comes
into one. -/
theorem tstates_of_entered {operation : Operation}
    (entered : recording.entered? operation = some block) :
    (∃ tstates, operation = .startInput tstates) ∧
        (recording.perform operation).2.tstates = block.tstates ∨
      (∀ tstates, operation ≠ .startInput tstates) ∧
        (recording.perform operation).2.tstates = recording.tstates := by
  have kept (counts : (Change.operate operation).restarts = false)
      (nothing : (Change.operate operation).delta = 0) :
      (recording.perform operation).2.tstates = recording.tstates := by
    have added := @tstates_apply recording _ counts
    rw [nothing] at added
    exact added.trans (UInt32.add_zero _)
  cases operation with
  | startInput tstates =>
      obtain rfl := Option.some.inj entered
      exact .inl ⟨⟨tstates, rfl⟩, rfl⟩
  | startPlayback | playbackFrame => exact .inr ⟨nofun, kept rfl rfl⟩
  | _ => cases entered

/-- The counter is that of a block that became the current one, and of what was counted
since, if the block was just started. If the player came into it, the counter goes on
from where it was, so it is that of the block only if it was before. -/
theorem counter_of_entered {operation : Operation}
    (entered : recording.entered? operation = some block) {changes : List Change}
    (counting : ∀ change ∈ changes, change.restarts = false) :
    let after := (recording.perform operation).2.changed changes
    ((∃ tstates, operation = .startInput tstates) →
      after.tstates.toNat = (block.tstates.toNat + counted changes) % UInt32.size) ∧
    ((∀ tstates, operation ≠ .startInput tstates) →
      after.tstates.toNat = (recording.tstates.toNat + counted changes) % UInt32.size) ∧
    (after.tstates.toNat = (block.tstates.toNat + counted changes) % UInt32.size ↔
      (∃ tstates, operation = .startInput tstates) ∨ recording.tstates = block.tstates) := by
  intro after
  have sum : after.tstates.toNat =
      ((recording.perform operation).2.tstates.toNat + counted changes) % UInt32.size := by
    rw [tstates_changed counting, UInt32.toNat_add, UInt32.toNat_ofNat', Nat.add_mod_mod]
  rcases tstates_of_entered entered with ⟨started, same⟩ | ⟨unstarted, same⟩
  · rw [same] at sum
    refine ⟨fun _ => sum, ?_, fun _ => .inl started, fun _ => sum⟩
    intro unstarted
    obtain ⟨tstates, isStart⟩ := started
    exact absurd isStart (unstarted tstates)
  · rw [same] at sum
    have notStarted : ¬∃ tstates, operation = .startInput tstates :=
      not_exists.mpr unstarted
    refine ⟨fun started => absurd started notStarted, fun _ => sum, ?_⟩
    rw [sum, or_iff_right notStarted, ← UInt32.toNat_inj]
    have mine := recording.tstates.toNat_lt
    have others := block.tstates.toNat_lt
    simp only [UInt32.size]
    omega

/-- Operations that record two blocks of input, of one frame each. -/
def twoBlocks : List Operation :=
  [.startInput 12345, .store 100 #[1], .startInput 200, .store 101 #[2]]

/-- A block that is started late counts beyond the largest number. The first of two
blocks is played with the counter of the second one. -/
theorem counter_of_entered_twoBlocks :
    (changed (perform {} (.startInput 4294967295)).2
      [.operate (.incrementTstates 7)]).tstates.toNat = 6 ∧
    (changed ((run {} twoBlocks).perform .startPlayback).2
      [.operate (.incrementTstates 7), .operate .playback]).tstates.toNat = 207 := by
  have started :
      entered? {} (.startInput 4294967295) = some { tstates := 4294967295 } := rfl
  have entered : (run {} twoBlocks).entered? .startPlayback =
      some { tstates := 12345, frames := #[⟨100, 1, false, #[1]⟩] } := by decide +kernel
  have counts :
      ∀ change ∈ [Change.operate (.incrementTstates 7)], change.restarts = false := by
    simp [Change.restarts]
  have plays : ∀ change ∈ [Change.operate (.incrementTstates 7), .operate .playback],
      change.restarts = false := by simp [Change.restarts]
  have before : (run {} twoBlocks).tstates.toNat = 200 := by decide +kernel
  have recorded := (counter_of_entered started counts).1 ⟨_, rfl⟩
  have played := (counter_of_entered entered plays).2.1 nofun
  rw [before] at played
  exact ⟨recorded, played⟩

/-- When the player comes into a block of input, be it at the start or from another
block, the counter is not what the block says. -/
theorem counter_not_of_entered :
    (run {} twoBlocks).entered? .startPlayback =
      some { tstates := 12345, frames := #[⟨100, 1, false, #[1]⟩] } ∧
    (run {} (twoBlocks ++ ([.startPlayback] : List Operation))).tstates = 200 ∧
    (run {} (twoBlocks ++
        ([.startPlayback, .incrementTstates 7, .playback] : List Operation))).entered?
      .playbackFrame = some { tstates := 200, frames := #[⟨101, 1, false, #[2]⟩] } ∧
    (run {} (twoBlocks ++
        ([.startPlayback, .incrementTstates 7, .playback, .playbackFrame] :
          List Operation))).tstates = 207 := by
  decide +kernel

end ZxMedia.Recording
