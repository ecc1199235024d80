import ZxMedia.Proofs.Tape.Circle

/-!
# What holds of the current block

While a tape is edited the cursor keeps to its block, and every block that the cursor
comes to is made ready. So what holds of blocks that were made ready, and is kept when
an interval of them is played, holds of the current block whatever is done to the tape
(`CurrentIs.perform`).

A cursor off the tape is an exception, as a block that is added behind the others
becomes the current one as it is. Such a block has to have the property itself.
-/

namespace ZxMedia.Tape

/-- The current block, if there is one, has a property. -/
def CurrentIs (Holds : Track → Prop) (tape : Tape) : Prop :=
  ∀ track, tape.currentTrack? = some track → Holds track

/-- The cursor is at one of the blocks, or nowhere. -/
def Inside (tape : Tape) : Prop :=
  ∀ index, tape.current = some index → index < tape.size

variable {Holds : Track → Prop} {tape after : Tape} {index : Nat} {track : Track}

theorem Inside.appendTrack (inside : tape.Inside) (track : Track) :
    (tape.appendTrack track).Inside := by
  intro place at_
  rw [size_appendTrack]
  unfold Tape.appendTrack at at_
  dsimp only at at_
  split at at_
  next =>
    cases at_
    exact Nat.succ_pos _
  next => exact Nat.lt_succ_of_lt (inside place at_)

theorem CurrentIs.keep (holds : tape.CurrentIs Holds)
    (same : after.currentTrack? = tape.currentTrack?) : after.CurrentIs Holds :=
  fun track here => holds track (same ▸ here)

theorem fresh_iff_currentIs :
    tape.Fresh ↔ tape.CurrentIs fun track => track.cue = track := by
  unfold Fresh CurrentIs
  cases here : tape.currentTrack? with
  | none => simp
  | some track => simp

section Operations

variable (cued : ∀ track : Track, Holds track.cue)
include cued

theorem Fresh.currentIs (fresh : tape.Fresh) : tape.CurrentIs Holds := by
  intro track here
  rw [← fresh_iff_currentIs.mp fresh track here]
  exact cued track

namespace CurrentIs

variable (holds : tape.CurrentIs Holds)
include holds

theorem appendTrack (ready : tape.Inside ∨ Holds track) :
    (tape.appendTrack track).CurrentIs Holds := by
  unfold Tape.appendTrack
  dsimp only
  split
  · exact (fresh_goTo _ 0).currentIs cued
  next index here =>
    intro found there
    simp only [currentTrack?, here, Option.bind_some, Array.getElem?_push] at there
    split at there
    next last =>
      rcases ready with inside | ready
      · exact absurd last (Nat.ne_of_lt (inside index here))
      · cases there
        exact ready
    next => exact holds found (by simpa [currentTrack?, here] using there)

theorem extend {tracks : List Track}
    (ready : tape.Inside ∨ ∀ track ∈ tracks, Holds track) :
    (tracks.foldl Tape.appendTrack tape).CurrentIs Holds := by
  induction tracks generalizing tape with
  | nil => exact holds
  | cons track tracks ih =>
      refine ih (holds.appendTrack cued ?_) ?_
      · exact ready.imp id fun all => all track List.mem_cons_self
      · exact ready.imp (fun inside => inside.appendTrack track)
          fun all later member => all later (List.mem_cons_of_mem track member)

theorem insertTrack (inserted : tape.insertTrack index track = .ok after) :
    after.CurrentIs Holds := by
  obtain ⟨place, outcome⟩ := insertTrack_ok inserted
  rcases outcome with
      ⟨-, rfl⟩ | ⟨current, here, before, -, rfl⟩ | ⟨current, here, ahead, rfl⟩
  · exact (fresh_goTo _ 0).currentIs cued
  · apply holds.keep
    have behind : index < current + 1 := Nat.lt_succ_of_le before
    simp [currentTrack?, here, Array.getElem?_insertIdx, Nat.not_lt_of_gt behind,
      Nat.ne_of_gt behind]
  · apply holds.keep
    simp [currentTrack?, here, Array.getElem?_insertIdx, ahead]

theorem removeTrack {answer : Track × Tape}
    (removed : tape.removeTrack index = .ok answer) :
    answer.2.CurrentIs Holds := by
  obtain ⟨inside, outcome⟩ := removeTrack_ok removed
  rcases outcome with ⟨-, same⟩ | ⟨-, nowhere, same⟩ | ⟨-, current, here, before, same⟩ |
    ⟨place, -, same⟩ | ⟨-, current, here, ahead, same⟩
  · rw [same]
    intro track here
    cases here
  · rw [same]
    apply holds.keep
    simp [currentTrack?, nowhere]
  · rw [same]
    apply holds.keep
    have back : current - 1 + 1 = current := by omega
    have kept : ¬current - 1 < index := by omega
    simp [currentTrack?, here, Array.getElem?_eraseIdx, kept, back]
  · rw [same]
    exact (fresh_goTo _ place).currentIs cued
  · rw [same]
    apply holds.keep
    simp [currentTrack?, here, Array.getElem?_eraseIdx, ahead]

/-- Playing an interval leaves the current block played on, or it makes a block
ready. -/
theorem nextEdge {edge : Edge} (played : tape.nextEdge = .ok (edge, after))
    (stepped : ∀ track, tape.currentTrack? = some track → Holds (track.step tape.config).2) :
    after.CurrentIs Holds := by
  rcases nextEdge_ok played with ⟨-, -, rfl⟩ | ⟨index, inside, here, outcome⟩
  · exact holds
  · rcases outcome with ⟨-, -, rfl⟩ | ⟨-, control, move, -, -, followed⟩
    · intro track there
      have current : tape.currentTrack? = some tape.tracks[index] := by
        simp [currentTrack?, here, inside]
      rw [currentTrack?_putTrack here,
        if_pos (show index < tape.size from inside)] at there
      cases there
      exact stepped _ current
    · rw [show after = (edge.flags, after).2 from rfl, followed]
      exact (fresh_follow _ move _).currentIs cued

/-- Whatever is done to a tape, its current block keeps what holds of blocks that were
made ready and played on. -/
theorem perform {operation : Operation}
    (ready : tape.Inside ∨ ∀ track ∈ operation.tracks, Holds track)
    (stepped : ∀ track, tape.currentTrack? = some track → Holds (track.step tape.config).2) :
    (tape.perform operation).CurrentIs Holds := by
  cases operation with
  | append track =>
      exact holds.appendTrack cued (ready.imp id fun all => all track (List.mem_singleton.mpr rfl))
  | extend tracks => exact holds.extend cued ready
  | insert index track =>
      simp only [Tape.perform]
      cases inserted : tape.insertTrack index track with
      | error error => exact holds
      | ok after => exact holds.insertTrack cued inserted
  | remove index =>
      simp only [Tape.perform]
      cases removed : tape.removeTrack index with
      | error error => exact holds
      | ok answer => exact holds.removeTrack cued removed
  | clear =>
      intro track here
      cases here
  | select index =>
      simp only [Tape.perform, Tape.select]
      split
      · exact (fresh_goTo tape index).currentIs cued
      · exact holds
  | rewind =>
      simp only [Tape.perform, Tape.rewind]
      split
      · exact holds.keep rfl
      · exact (fresh_goTo _ 0).currentIs cued
  | setConfig config => exact holds.keep rfl
  | nextEdge =>
      simp only [Tape.perform]
      cases played : tape.nextEdge with
      | error error => exact holds
      | ok answer => exact holds.nextEdge cued played stepped

end CurrentIs

end Operations

end ZxMedia.Tape
