import Mathlib
import ZxMedia.Deck.Copy
import ZxMedia.Proofs.Deck.Frames
import ZxMedia.Proofs.Tape.Transfer

/-!
# Copying a tape from deck to deck

What one deck plays in a frame is given to another deck that records. A frame without
pulses ends the transfer that is being recorded, so it must not come in the middle of
one. It cannot, if a frame is as long as the longest pulse of a signal: an overshoot
that covers a whole frame is then left by a pause, and behind a pause the recorder
rests.

`Copying` is what every frame preserves, and the time that is still ahead gets less with
every frame until the source stops.
-/

namespace ZxMedia.Deck

open PulseReader Recorder

/-- Copies a frame for each of these times, until the source stops or an error. -/
def copyEach (patience : Nat) : List Nat → Copied → Copied
  | [], copied => copied
  | budget :: budgets, copied =>
    let copied := copyOn patience budget 1 copied
    if copied.error.isNone then copyEach patience budgets copied else copied

variable {copied : Copied} {patience budget : Nat} {session after : Session}
    {tape written : Tape}
variable {ahead back : List Nat} {target : Deck} {budgets : List Nat}

theorem copyOn_stopped (stopped : copied.source.isPlaying = false) (count : Nat) :
    copyOn patience budget count copied = copied := by
  cases count with
  | zero => rfl
  | succ count => simp [copyOn, stopped]

theorem copyEach_stopped (stopped : copied.source.isPlaying = false)
    (budgets : List Nat) :
    copyEach patience budgets copied = copied := by
  induction budgets with
  | nil => rfl
  | cons budget budgets ih => simp [copyEach, copyOn_stopped stopped, ih]

/-- Copying with frames of one length is a case of copying with frames of any. -/
theorem copyOn_eq_copyEach (fine : copied.error = none) (count : Nat) :
    copyOn patience budget count copied =
      copyEach patience (List.replicate count budget) copied := by
  induction count generalizing copied with
  | zero => rfl
  | succ count ih =>
      by_cases playing : copied.source.isPlaying = true
      · rw [List.replicate_succ, copyEach, copyOn, copyOn]
        simp only [playing, if_true]
        split
        next => rfl
        next =>
          split
          next => rfl
          next =>
            simp only [copyOn, fine, Option.isNone_none, if_true]
            exact ih rfl
      · have stopped : copied.source.isPlaying = false := by simpa using playing
        rw [copyOn_stopped stopped, copyEach_stopped stopped]

/-! ## The deck that records -/

theorem recordMicPulses_ok (recording : target.running = true)
    (inserted : target.cassette = some (.writer session.tape session.recorder))
    {pulses : List Nat} (recorded : session.record pulses = .ok after) :
    ∃ count, after.count = session.count + count ∧ target.recordMicPulses pulses =
      .ok (count, { target with cassette := some (.writer after.tape after.recorder) }) := by
  unfold Session.record at recorded
  obtain ⟨⟨count, tape, recorder⟩, taken, same⟩ := bind_ok.mp recorded
  cases same
  refine ⟨count, rfl, ?_⟩
  obtain ⟨running, cassette, stopOn48k, overshoot⟩ := target
  cases recording
  cases inserted
  unfold recordMicPulses
  dsimp only
  rw [taken]
  rfl

theorem finish_writer (sound : session.recorder.Sound) :
    (Cassette.writer session.tape session.recorder).finish = .ok session.finish.tape := by
  unfold Cassette.finish Session.finish
  dsimp only
  rw [sound.finish]
  cases session.recorder.block? <;> rfl

theorem eject_writer (sound : session.recorder.Sound)
    (inserted : target.cassette = some (.writer session.tape session.recorder)) :
    ∃ deck, target.eject = .ok (some session.finish.tape, deck) := by
  refine ⟨{ target with running := false, cassette := none, overshoot := 0 }, ?_⟩
  unfold eject finishTape
  rw [inserted]
  dsimp only
  rw [finish_writer sound]
  rfl

theorem finish_finish (session : Session) : session.finish.finish = session.finish :=
  (rests_finish session).finish

/-! ## Frame by frame -/

/-- In the middle of copying: the pulses ahead are what the source is going to play, the
target is going to hear all of them, and the tape will be written then. -/
structure Copying (patience : Nat) (written tape : Tape) (session : Session)
    (ahead : List Nat)
    (copied : Copied) : Prop where
  playing : copied.source.running = true
  source : copied.source.cassette = some (.reader tape)
  whole : ∃ last,
    YieldsAll patience (.ofTape tape copied.source.stopOn48k) ahead last ∧ last.error = none
  recording : copied.target.running = true
  target : copied.target.cassette = some (.writer session.tape session.recorder)
  sound : session.recorder.Sound
  heard : session.recorder.heard ahead = ahead
  written : (ahead.foldl Session.hear session).finish.tape = written
  /-- Pauses are longer than the pulses of a signal, and nothing is in between. -/
  apart : ∀ tstates ∈ ahead, 0 < tstates ∧ (tstates ≤ 2168 ∨ 2418 ≤ tstates)
  /-- An overshoot that can cover a frame was left by a pause. -/
  resting : 2168 ≤ copied.source.overshoot → session.recorder.Rests
  fine : copied.error = none

/-- The copy is complete. -/
structure Complete (written : Tape) (copied : Copied) : Prop where
  stopped : copied.source.running = false
  ejected : ∃ deck, copied.target.eject = .ok (some written, deck)
  fine : copied.error = none

/-- The time that is ahead: the pulses and what is left of the last one. -/
def timeAhead (ahead : List Nat) (copied : Copied) : Nat :=
  ahead.sum + copied.source.overshoot

theorem Copying.copyOn_one (copying : Copying patience written tape session ahead copied)
    {pulses : Array Nat}
    (given : (copied.source.earPulses patience budget).result = .ok pulses)
    (recorded : session.record pulses.toList = .ok after) :
    ∃ next, copyOn patience budget 1 copied = next ∧
      next.source = (copied.source.earPulses patience budget).deck ∧
      next.target.running = true ∧
      next.target.cassette = some (.writer after.tape after.recorder) ∧
      next.error = none := by
  obtain ⟨count, -, taken⟩ := recordMicPulses_ok copying.recording copying.target recorded
  have playing : copied.source.isPlaying = true := by
    simp [isPlaying, state, copying.playing, copying.source]
  refine ⟨_, rfl, ?_⟩
  simp only [copyOn, playing, if_true, given, taken, copying.recording,
    copying.fine, and_self]

/-- What the recorder has heard after a frame: what follows it is heard, too, the same
tape will be written, and behind a pause the recorder rests. -/
structure Heard (written : Tape) (back : List Nat) (overshoot : Nat) (after : Session) :
    Prop where
  sound : after.recorder.Sound
  heard : after.recorder.heard back = back
  written : (back.foldl Session.hear after).finish.tape = written
  resting : 2168 ≤ overshoot → after.recorder.Rests

/-- The pulses of a frame are recorded. If there are none, the overshoot covered the
frame, and the recorder rests. Otherwise a long overshoot is a part of the last one, and
that is a pause then. -/
theorem Copying.record_some {given : List Nat}
    (copying : Copying patience written tape session (given ++ back) copied)
    (enough : 2168 ≤ budget)
    (filled : budget ≤ given.foldl addTstates copied.source.overshoot ∨ given.length = budget)
    (begun : given ≠ [] → given.dropLast.foldl addTstates copied.source.overshoot < budget) :
    ∃ after, session.record given = .ok after ∧
      Heard written back (given.foldl addTstates copied.source.overshoot - budget) after ∧
      given.foldl addTstates copied.source.overshoot - budget <
        given.sum + copied.source.overshoot := by
  rcases List.eq_nil_or_concat given with rfl | ⟨front, last, rfl⟩
  · -- A frame without pulses ends a transfer, so here the recorder has to be at rest
    -- already.
    have covered : budget ≤ copied.source.overshoot := by
      rcases filled with covered | none
      · exact covered
      · simp only [List.length_nil] at none
        omega
    have rests := copying.resting (enough.trans covered)
    have recorded := copying.sound.record_nil
    rw [rests.finish] at recorded
    have heard : Heard written back (copied.source.overshoot - budget) session :=
      ⟨copying.sound, copying.heard, copying.written, fun _ => rests⟩
    refine ⟨session, recorded, heard, ?_⟩
    simp only [List.foldl_nil, List.sum_nil]
    omega
  · -- The overshoot is a part of the last pulse: if it is long, so is that one.
    rw [List.concat_eq_append] at *
    have some : front ++ [last] ≠ [] := List.append_ne_nil_of_right_ne_nil front
      (List.cons_ne_nil last [])
    have apart := copying.apart last (by simp)
    have before := begun some
    rw [List.dropLast_concat] at before
    have within :
        (front ++ [last]).foldl addTstates copied.source.overshoot - budget < last := by
      have bounded : addTstates (front.foldl addTstates copied.source.overshoot) last ≤
          front.foldl addTstates copied.source.overshoot + last := Nat.min_le_left _ _
      rw [List.foldl_append, List.foldl_cons, List.foldl_nil]
      omega
    obtain ⟨all, later⟩ := heard_append copying.heard
    have recorded := copying.sound.record some
    rw [all] at recorded
    refine ⟨_, recorded, ⟨copying.sound.hearAll _, later, ?_, ?_⟩, ?_⟩
    · rw [← List.foldl_append]
      exact copying.written
    · intro long
      rw [List.foldl_append]
      exact (copying.sound.hearAll front).rests_hear (by omega)
    · rw [List.sum_append, List.sum_singleton]
      omega

/-- When all pulses are recorded that were ahead, the tape is written but for the last
transfer. -/
theorem Copying.record_all
    (copying : Copying patience written tape session ahead copied) :
    ∃ after, session.record ahead = .ok after ∧ after.recorder.Sound ∧
      after.finish.tape = written := by
  by_cases none : ahead = []
  · subst none
    refine ⟨session.finish, copying.sound.record_nil, Sound.finishSession session, ?_⟩
    rw [finish_finish]
    exact copying.written
  · have recorded := copying.sound.record none
    rw [copying.heard] at recorded
    exact ⟨_, recorded, copying.sound.hearAll ahead, copying.written⟩

/-- A frame is copied: less time is ahead than before, or the copy is complete. -/
theorem Copying.step (copying : Copying patience written tape session ahead copied)
    (enough : 2168 ≤ budget) :
    (∃ tape session back,
      Copying patience written tape session back (copyOn patience budget 1 copied) ∧
        timeAhead back (copyOn patience budget 1 copied) < timeAhead ahead copied) ∨
    Complete written (copyOn patience budget 1 copied) := by
  obtain ⟨last, whole, fine⟩ := copying.whole
  obtain ⟨pulses, given⟩ :
      ∃ pulses, (copied.source.earPulses patience budget).result = .ok pulses :=
    earPulses_total copying.playing copying.source whole fine
  obtain ⟨reached, yields, ends⟩ := earPulses_ok copying.playing copying.source given
  obtain ⟨back, rfl, rest⟩ := whole.rest yields
  generalize frame : (copied.source.earPulses patience budget).deck = source at ends
  cases ends with
  | running fresh filled begun =>
      left
      obtain ⟨after, recorded, heard, less⟩ := copying.record_some enough filled begun
      obtain ⟨next, same, source, recording, target, noError⟩ :=
        copying.copyOn_one given recorded
      rw [frame] at source
      obtain ⟨last, rest, alike⟩ := rest.alike fresh.symm
      refine ⟨reached.tape, after, back, ?_, ?_⟩
      · rw [same]
        exact {
          playing := by
            rw [source]
            exact copying.playing
          source := by rw [source]
          whole := by
            rw [source]
            exact ⟨last, rest, alike.error.trans fine⟩
          recording
          target
          sound := heard.sound
          heard := heard.heard
          written := heard.written
          apart := fun tstates member => copying.apart tstates (List.mem_append_right _ member)
          resting := by
            rw [source]
            exact heard.resting
          fine := noError }
      · rw [same, timeAhead, timeAhead, source, List.sum_append]
        dsimp only
        omega
  | stopped finished noError =>
      right
      obtain ⟨rfl, -⟩ := rest.unique ⟨reached, .nil reached, finished⟩
      rw [List.append_nil] at copying
      obtain ⟨after, recorded, sound, all⟩ := copying.record_all
      obtain ⟨next, same, source, recording, target, noError⟩ :=
        copying.copyOn_one given recorded
      rw [frame] at source
      rw [same]
      refine ⟨by rw [source], ?_, noError⟩
      rw [← all]
      exact eject_writer sound target

/-- Copying goes on until the copy is complete, and it takes no more frames than there
is time ahead. -/
theorem Copying.run (copying : Copying patience written tape session ahead copied)
    (enough : ∀ budget ∈ budgets, 2168 ≤ budget) :
    (∃ tape session back,
      Copying patience written tape session back (copyEach patience budgets copied) ∧
        timeAhead back (copyEach patience budgets copied) + budgets.length ≤
          timeAhead ahead copied) ∨
    Complete written (copyEach patience budgets copied) := by
  induction budgets generalizing tape session ahead copied with
  | nil => exact .inl ⟨tape, session, ahead, copying, Nat.le_refl _⟩
  | cons budget budgets ih =>
      rw [copyEach]
      rcases copying.step (enough budget List.mem_cons_self) with
        ⟨tape, session, middle, goesOn, less⟩ | complete
      · simp only [goesOn.fine, Option.isNone_none, if_true]
        rcases ih goesOn fun budget member => enough budget (List.mem_cons_of_mem _ member) with
          ⟨tape, session, back, later, bound⟩ | complete
        · refine .inl ⟨tape, session, back, later, ?_⟩
          rw [List.length_cons]
          omega
        · exact .inr complete
      · right
        have stopped : (copyOn patience budget 1 copied).source.isPlaying = false := by
          simp [isPlaying, state, complete.stopped]
        simp only [complete.fine, Option.isNone_none, if_true, copyEach_stopped stopped]
        exact complete

section Roms

variable {blocks : List RomBlock} {source : Deck} {blank : Tape}

theorem copying_roms (any : blocks ≠ []) (full : ∀ block ∈ blocks, block.data ≠ #[])
    (playing : source.running = true)
    (inserted : source.cassette = some (.reader (.ofBlocks (blocks.map .rom))))
    (recording : target.running = true)
    (writable : target.cassette = some (.writer blank {})) :
    ∃ enough, ∀ patience, enough ≤ patience →
      Copying patience (blank.extend (blocks.map (copyOf 1000))) (.ofBlocks (blocks.map .rom))
        { tape := blank } (blocks.flatMap RomBlock.pulses) { source, target } := by
  obtain ⟨enough, last, whole, fine⟩ := yieldsAll_ofBlocks any source.stopOn48k
  have rests : Rests (Session.recorder { tape := blank }) := rfl
  obtain ⟨after, hears, written⟩ := hears_blocks (.inl rests) full
  have heard := hears.heard []
  rw [List.append_nil] at heard
  refine ⟨enough, fun patience more => ?_⟩
  exact {
    playing
    source := inserted
    whole := ⟨last, whole.mono more, fine⟩
    recording
    target := writable
    sound := sound_waiting rfl
    heard := heard.trans (List.append_nil _)
    written := by
      rw [hears.hears, written, rests.finish]
    apart := by
      intro tstates member
      obtain ⟨block, -, member⟩ := List.mem_flatMap.mp member
      have bounds := RomBlock.pulses_bounds member
      omega
    resting := fun _ => rests
    fine := rfl }

/-- A tape of blocks with the timing of the machine, each of them with data, can be
copied from deck to deck with frames of any lengths that are not shorter than the pulses
of a tone. The copy does not fail, and it comes to an end. When the source has stopped,
the tape that comes out of the target has the same data in the same order. -/
theorem copyEach_roms (any : blocks ≠ []) (full : ∀ block ∈ blocks, block.data ≠ #[])
    (playing : source.running = true)
    (inserted : source.cassette = some (.reader (.ofBlocks (blocks.map .rom))))
    (recording : target.running = true)
    (writable : target.cassette = some (.writer blank {})) (empty : blank.blocks = []) :
    ∃ enough frames, ∀ patience, enough ≤ patience →
      ∀ budgets : List Nat, (∀ budget ∈ budgets, 2168 ≤ budget) →
        let copied := copyEach patience budgets { source, target }
        copied.error = none ∧
          (frames ≤ budgets.length → copied.source.isPlaying = false) ∧
          (copied.source.isPlaying = false → ∃ tape deck,
            copied.target.eject = .ok (some tape, deck) ∧
              tape.blocks = blocks.map fun block => .rom { data := block.data }) := by
  obtain ⟨enough, begun⟩ := copying_roms any full playing inserted recording writable
  refine ⟨enough, (blocks.flatMap RomBlock.pulses).sum + source.overshoot + 1, ?_⟩
  intro patience more budgets long
  rcases (begun patience more).run long with
      ⟨tape, session, back, copying, bound⟩ | complete
  · have isPlaying :
        (copyEach patience budgets { source, target }).source.isPlaying = true := by
      simp [isPlaying, state, copying.playing, copying.source]
    refine ⟨copying.fine, fun frames => ?_, fun stopped => ?_⟩
    · simp only [timeAhead] at bound
      omega
    · rw [isPlaying] at stopped
      cases stopped
  · have stopped :
        (copyEach patience budgets { source, target }).source.isPlaying = false := by
      simp [isPlaying, state, complete.stopped]
    obtain ⟨deck, ejected⟩ := complete.ejected
    refine ⟨complete.fine, fun _ => stopped, fun _ => ⟨_, deck, ejected, ?_⟩⟩
    rw [Tape.blocks_extend, empty]
    rfl

/-- Two blocks without a pause between them and behind them. -/
def withoutPauses : List RomBlock :=
  [{ pause := 0, data := #[0x00, 0x55] }, { pause := 0, data := #[0xFF] }]

/-- Without pauses the tone of the second block ends the first one, and taking the tape
out ends the second one. -/
theorem copyEach_roms_withoutPauses :
    ∃ patience budgets,
      let copied := copyEach patience budgets
        { source :=
            { running := true, cassette := some (.reader (.ofBlocks (withoutPauses.map .rom))) }
          target := { running := true, cassette := some (.writer {} {}) } }
      copied.error = none ∧ copied.source.isPlaying = false ∧
        ∃ tape deck, copied.target.eject = .ok (some tape, deck) ∧
          tape.blocks = [.rom { data := #[0x00, 0x55] }, .rom { data := #[0xFF] }] := by
  let source : Deck :=
    { running := true, cassette := some (.reader (.ofBlocks (withoutPauses.map .rom))) }
  let target : Deck := { running := true, cassette := some (.writer {} {}) }
  have any : withoutPauses ≠ [] := by decide
  have full : ∀ block ∈ withoutPauses, block.data ≠ #[] := by decide
  obtain ⟨patience, frames, copies⟩ :=
    @copyEach_roms target withoutPauses source {} any full rfl rfl rfl rfl rfl
  have long : ∀ budget ∈ List.replicate frames 2168, 2168 ≤ budget := by
    intro budget member
    exact (List.eq_of_mem_replicate member).ge
  obtain ⟨fine, stops, written⟩ :=
    copies patience (Nat.le_refl _) (List.replicate frames 2168) long
  have stopped := stops (List.length_replicate ▸ Nat.le_refl _)
  exact ⟨patience, List.replicate frames 2168, fine, stopped, written stopped⟩

end Roms

end ZxMedia.Deck
