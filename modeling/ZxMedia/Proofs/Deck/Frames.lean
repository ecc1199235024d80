import Mathlib
import ZxMedia.Deck
import ZxMedia.Proofs.Tape.PulseReader

/-!
# A deck plays the pulses of its tape

A deck is asked for one frame after another, and for each of them it begins to read the
tape anew. It can stop in the middle of a block, and all that it keeps is the tape and
the overshoot. Still its frames put together are what one reader gives that is never
interrupted, and until the deck stops they take as long as was asked for, but for the
overshoot.
-/

namespace ZxMedia.Deck

open PulseReader

/-- The deck is asked for these frames one after another: the time of each and the
pulses that are given for it. Every answer comes in time and without an error, and the
times of a frame can be counted. -/
inductive Plays : Deck → List (Nat × List Nat) → Deck → Prop where
  | nil (deck : Deck) : Plays deck [] deck
  | cons {deck after : Deck} {patience budget : Nat} {pulses : Array Nat}
      {frames : List (Nat × List Nat)}
      (given : (deck.earPulses patience budget).result = .ok pulses)
      (fits : deck.overshoot + pulses.toList.sum < UInt32.size)
      (later : Plays (deck.earPulses patience budget).deck frames after) :
      Plays deck ((budget, pulses.toList) :: frames) after

variable {deck after : Deck} {tape : Tape} {reader reached last : PulseReader}
    {stopOn48k : Bool}
variable {patience budget steps elapsed total : Nat} {pulses collected : Array Nat}
variable {frames : List (Nat × List Nat)}

/-! ## Reading for some time -/

theorem foldl_addTstates {times : List Nat} (fits : elapsed + times.sum < UInt32.size) :
    times.foldl addTstates elapsed = elapsed + times.sum := by
  induction times generalizing elapsed with
  | nil => rfl
  | cons time times ih =>
      simp only [List.sum_cons] at fits ⊢
      have counted : addTstates elapsed time = elapsed + time := by
        unfold addTstates maxTstates
        omega
      rw [List.foldl_cons, counted, ih (by omega)]
      omega

/-- The reading ends behind the pulse that fills the time, or behind so many pulses, or
with the tape. -/
theorem gather_ok
    (gathered : gather patience budget steps elapsed pulses reader = .ok (total, collected, last)) :
    ∃ given reached, Yields patience reader given reached ∧
      collected.toList = pulses.toList ++ given ∧
      total = given.foldl addTstates elapsed ∧
      (given ≠ [] → given.dropLast.foldl addTstates elapsed < budget) ∧
      (last = reached ∧ (budget ≤ total ∨ given.length = steps) ∨
        reached.next patience = (.finished, last)) := by
  induction steps generalizing elapsed pulses reader with
  | zero =>
      simp only [gather, Except.ok.injEq, Prod.mk.injEq] at gathered
      obtain ⟨rfl, rfl, rfl⟩ := gathered
      exact ⟨[], reader, .nil reader, by simp, rfl, by simp, .inl ⟨rfl, .inr rfl⟩⟩
  | succ steps ih =>
      rw [gather] at gathered
      split at gathered
      next full =>
        simp only [Except.ok.injEq, Prod.mk.injEq] at gathered
        obtain ⟨rfl, rfl, rfl⟩ := gathered
        exact ⟨[], reader, .nil reader, by simp, rfl, by simp, .inl ⟨rfl, .inl full⟩⟩
      next room =>
        split at gathered
        next tstates middle answered =>
          obtain ⟨given, reached, yields, collected, total, begun, ending⟩ := ih gathered
          refine ⟨tstates :: given, reached, .cons answered yields, ?_, total, ?_, ?_⟩
          · simpa using collected
          · intro _
            cases given with
            | nil => exact Nat.lt_of_not_le room
            | cons pulse given => exact begun (by simp)
          · simpa using ending
        next answered =>
          simp only [Except.ok.injEq, Prod.mk.injEq] at gathered
          obtain ⟨rfl, rfl, rfl⟩ := gathered
          exact ⟨[], reader, .nil reader, by simp, rfl, by simp, .inr answered⟩
        next => cases gathered

/-- Whoever can wait for all pulses can wait for those of some time. -/
theorem gather_total {all : List Nat} {final : PulseReader}
    (whole : YieldsAll patience reader all final) :
    ∃ outcome, gather patience budget steps elapsed pulses reader = .ok outcome := by
  induction steps generalizing elapsed pulses reader all with
  | zero => exact ⟨_, rfl⟩
  | succ steps ih =>
      rw [gather]
      split
      next => exact ⟨_, rfl⟩
      next =>
        obtain ⟨reached, given, finished⟩ := whole
        cases given with
        | nil =>
            rw [finished]
            exact ⟨_, rfl⟩
        | cons first later =>
            rw [first]
            exact ih ⟨reached, later, finished⟩

/-! ## One frame -/

/-- What a deck is after a frame: where the reader is that has given the pulses, unless
the tape has come to its end with them. -/
inductive Frame.Ends (patience budget : Nat) (deck : Deck) (pulses : List Nat)
    (reached : PulseReader) : Deck → Prop where
  | running (fresh : (PulseReader.ofTape reached.tape deck.stopOn48k).Alike reached)
      (filled : budget ≤ pulses.foldl addTstates deck.overshoot ∨ pulses.length = budget)
      (begun : pulses ≠ [] → pulses.dropLast.foldl addTstates deck.overshoot < budget) :
      Frame.Ends patience budget deck pulses reached
        { deck with
          cassette := some (.reader reached.tape)
          overshoot := pulses.foldl addTstates deck.overshoot - budget }
  | stopped {last : PulseReader} (finished : reached.next patience = (.finished, last))
      (fine : last.error = none) :
      Frame.Ends patience budget deck pulses reached
        { deck with running := false, cassette := some (.reader last.tape), overshoot := 0 }

/-- A reader that is between two pulses and has not come to the end is as if it had just
begun. -/
theorem fresh_of_settled (stop : reader.stopOn48k = stopOn48k)
    (settled : reader.pending = 0)
    (playing : reader.done = false) (fine : reader.error = none) :
    (PulseReader.ofTape reader.tape stopOn48k).Alike reader := by
  obtain ⟨tape, pending, stops, done, error, notices⟩ := reader
  cases stop
  cases settled
  cases playing
  cases fine
  exact ⟨notices, rfl⟩

/-- What was gathered for a frame are the next pulses of the tape. -/
theorem gather_ends {overshoot : Nat}
    (gathered : gather patience budget budget overshoot #[] (.ofTape tape stopOn48k) =
      .ok (elapsed, pulses, last))
    (fine : last.error = none) :
    ∃ reached, Yields patience (.ofTape tape stopOn48k) pulses.toList reached ∧
      Frame.Ends patience budget
        { running := true, cassette := some (.reader tape), stopOn48k, overshoot }
        pulses.toList reached
        { running := !last.done
          cassette := some (.reader last.tape)
          stopOn48k
          overshoot := if last.done then 0 else elapsed - budget } := by
  obtain ⟨given, reached, yields, same, rfl, begun, ending⟩ := gather_ok gathered
  obtain rfl : pulses.toList = given := by simpa using same
  have settled : reached.pending = 0 := yields.settled rfl
  refine ⟨reached, yields, ?_⟩
  by_cases done : last.done = true
  · -- The tape may also stop with the very pulse that fills the frame.
    have finished : reached.next patience = (.finished, last) := by
      rcases ending with ⟨rfl, -⟩ | finished
      · exact next_finished done settled patience
      · exact finished
    rw [done]
    exact .stopped finished fine
  · have playing : last.done = false := by simpa using done
    rcases ending with ⟨rfl, filled⟩ | finished
    · rw [playing]
      exact .running (fresh_of_settled yields.stopOn48k settled playing fine) filled begun
    · exact absurd ((next_answers finished (by simp)).finished rfl) done

theorem earPulses_ok (running : deck.running = true)
    (inserted : deck.cassette = some (.reader tape))
    (given : (deck.earPulses patience budget).result = .ok pulses) :
    ∃ reached, Yields patience (.ofTape tape deck.stopOn48k) pulses.toList reached ∧
      Frame.Ends patience budget deck pulses.toList reached
        (deck.earPulses patience budget).deck := by
  obtain ⟨running, cassette, stopOn48k, overshoot⟩ := deck
  cases running
  cases inserted
  unfold earPulses at given ⊢
  dsimp only at given ⊢
  split at given
  next covered =>
    obtain rfl : pulses = #[] := by simpa using given.symm
    rw [if_pos covered]
    exact ⟨.ofTape tape stopOn48k, .nil _,
      .running ⟨#[], rfl⟩ (.inl covered) (absurd rfl)⟩
  next short =>
    rw [if_neg short]
    split at given
    next => cases given
    next elapsed collected last gathered =>
      dsimp only at given ⊢
      split at given
      next => cases given
      next fine =>
        cases given
        exact gather_ends gathered fine

theorem earPulses_total {all : List Nat} (running : deck.running = true)
    (inserted : deck.cassette = some (.reader tape))
    (whole : YieldsAll patience (.ofTape tape deck.stopOn48k) all last)
    (fine : last.error = none) :
    ∃ pulses, (deck.earPulses patience budget).result = .ok pulses := by
  unfold earPulses
  rw [running, inserted]
  dsimp only
  split
  next => exact ⟨_, rfl⟩
  next =>
    obtain ⟨⟨elapsed, collected, after⟩, gathered⟩ :=
      @gather_total _ patience budget budget deck.overshoot #[] _ _ whole
    obtain ⟨given, reached, yields, -, -, -, ending⟩ := gather_ok gathered
    have fine : after.error = none := by
      rcases ending with ⟨rfl, -⟩ | finished
      · obtain ⟨back, -, rest⟩ := whole.rest yields
        exact rest.fine fine
      · obtain ⟨-, rfl⟩ := whole.unique ⟨reached, yields, finished⟩
        exact fine
    rw [gathered]
    exact ⟨collected, by simp [fine]⟩

/-- Of the time that can be counted nothing is lost. -/
theorem time_of_filled {given : List Nat} {overshoot : Nat}
    (filled : budget ≤ given.foldl addTstates overshoot ∨ given.length = budget)
    (long : given.length ≤ given.sum) (fits : overshoot + given.sum < UInt32.size) :
    overshoot + given.sum = budget + (given.foldl addTstates overshoot - budget) := by
  rw [foldl_addTstates fits] at filled ⊢
  omega

/-! ## Frame after frame -/

theorem Plays.of_stopped (plays : Plays deck frames after)
    (stopped : deck.running = false) :
    frames.flatMap Prod.snd = [] ∧ after = deck := by
  induction plays with
  | nil => exact ⟨rfl, rfl⟩
  | @cons deck after patience budget pulses frames given fits later ih =>
      have silent : deck.earPulses patience budget = { result := .ok #[], deck } := by
        unfold earPulses
        rw [stopped]
      rw [silent] at given later ih
      obtain ⟨none, same⟩ := ih stopped
      obtain rfl : pulses = #[] := by simpa using given.symm
      exact ⟨by simpa using none, same⟩

/-- How far a deck has come that was asked for the frames: it is in the middle of the
tape, and the time is the one that was asked for, or it has stopped with all pulses
given. -/
theorem Plays.progress (plays : Plays deck frames after) (running : deck.running = true)
    (inserted : deck.cassette = some (.reader tape)) :
    (∃ patience reached,
      Yields patience (.ofTape tape deck.stopOn48k) (frames.flatMap Prod.snd) reached ∧
        (PulseReader.ofTape reached.tape deck.stopOn48k).Alike reached ∧
        after.running = true ∧ after.cassette = some (.reader reached.tape) ∧
        deck.overshoot + (frames.flatMap Prod.snd).sum =
          (frames.map Prod.fst).sum + after.overshoot) ∨
    ∃ patience last,
      YieldsAll patience (.ofTape tape deck.stopOn48k) (frames.flatMap Prod.snd) last ∧
        after.running = false ∧ after.cassette = some (.reader last.tape) ∧
        after.overshoot = 0 := by
  induction plays generalizing tape with
  | nil deck =>
      exact .inl ⟨0, .ofTape tape deck.stopOn48k, .nil _, ⟨#[], rfl⟩, running,
        inserted, by simp⟩
  | @cons deck after patience budget pulses frames given fits later ih =>
      obtain ⟨middle, yields, ends⟩ := earPulses_ok running inserted given
      generalize (deck.earPulses patience budget).deck = next at later ih ends
      cases ends with
      | running fresh filled begun =>
          have time := time_of_filled filled yields.length_le_sum fits
          rcases ih running rfl with
              ⟨enough, reached, rest, again, playing, tape, times⟩ |
            ⟨enough, last, ⟨reached, rest, finished⟩, stopped, tape, silent⟩
          · left
            obtain ⟨final, whole, alike⟩ := yields.resume fresh rest
            refine ⟨_, final, whole, ?_, playing, ?_, ?_⟩
            · rw [alike.tape]
              exact again.trans alike
            · rw [alike.tape]
              exact tape
            · simp only [List.flatMap_cons, List.sum_append, List.map_cons, List.sum_cons]
              dsimp only at times
              omega
          · right
            obtain ⟨final, whole, alike⟩ := yields.resume fresh rest
            obtain ⟨next, finished, same⟩ :=
              alike.next (next_mono finished (by simp) (Nat.le_max_right patience enough))
                (by simp)
            refine ⟨_, next, ⟨final, whole, finished⟩, stopped, ?_, silent⟩
            rw [same.tape]
            exact tape
      | @stopped last finished fine =>
          -- Frames behind the one in which the tape stopped are empty.
          right
          obtain ⟨none, rfl⟩ := later.of_stopped rfl
          refine ⟨patience, last, ⟨middle, ?_, finished⟩, rfl, rfl, rfl⟩
          rw [List.flatMap_cons, none, List.append_nil]
          exact yields

/-- The frames of a deck that begins to play, put together, are the first pulses of a
reader that is never interrupted. Until the deck stops they take the time that was asked
for and the overshoot, and the tape is where the reader has brought it. A deck that has
stopped has given all pulses, has no overshoot, and leaves the tape as the reader
does. -/
theorem Plays.uninterrupted
    (plays : Plays { running := true, cassette := some (.reader tape), stopOn48k } frames after) :
    (after.running = true →
      (frames.flatMap Prod.snd).sum = (frames.map Prod.fst).sum + after.overshoot ∧
      ∃ patience reached,
        Yields patience (.ofTape tape stopOn48k) (frames.flatMap Prod.snd) reached ∧
          after.cassette = some (.reader reached.tape)) ∧
    (after.running = false →
      after.overshoot = 0 ∧
      ∃ patience last,
        YieldsAll patience (.ofTape tape stopOn48k) (frames.flatMap Prod.snd) last ∧
          after.cassette = some (.reader last.tape)) ∧
    ∀ patience all last, YieldsAll patience (.ofTape tape stopOn48k) all last →
      frames.flatMap Prod.snd <+: all ∧
        (after.running = false →
          frames.flatMap Prod.snd = all ∧ after.cassette = some (.reader last.tape)) := by
  rcases plays.progress rfl rfl with
      ⟨enough, reached, given, -, playing, inserted, time⟩ |
    ⟨enough, last, given, stopped, inserted, silent⟩
  · rw [playing]
    refine ⟨fun _ => ⟨by simpa using time, enough, reached, given, inserted⟩, nofun, ?_⟩
    intro patience all last whole
    exact ⟨given.isPrefix whole, nofun⟩
  · rw [stopped]
    refine ⟨nofun, fun _ => ⟨silent, enough, last, given, inserted⟩, ?_⟩
    intro patience all final whole
    obtain ⟨same, rfl⟩ := given.unique whole
    exact ⟨same ▸ List.prefix_refl _, fun _ => ⟨same, inserted⟩⟩

/-- A tape of two pulses. -/
def twoPulses : Tape :=
  .ofBlocks [.pulses #[30, 20]]

/-- A deck with a tape of two pulses: the first one is longer than two frames, and the
tape stops with the second one. -/
theorem Plays.uninterrupted_twoPulses :
    ∃ after,
      Plays { running := true, cassette := some (.reader twoPulses), stopOn48k := false }
        [(10, [30]), (15, []), (8, [20]), (10, [])] after ∧
        after.running = false ∧ after.overshoot = 0 ∧
        ∃ patience last, YieldsAll patience (.ofTape twoPulses false) [30, 20] last ∧
          after.cassette = some (.reader last.tape) := by
  let deck : Deck :=
    { running := true, cassette := some (.reader twoPulses), stopOn48k := false }
  let first := deck.earPulses 4 10
  let second := first.deck.earPulses 4 15
  let third := second.deck.earPulses 4 8
  let fourth := third.deck.earPulses 4 10
  have longer : first.result = .ok #[30] := rfl
  have covered : second.result = .ok #[] := rfl
  have filling : third.result = .ok #[20] := rfl
  have silent : fourth.result = .ok #[] := rfl
  have plays : Plays deck [(10, [30]), (15, []), (8, [20]), (10, [])] fourth.deck :=
    .cons longer (by decide) <| .cons covered (by decide) <| .cons filling (by decide) <|
      .cons silent (by decide) <| .nil fourth.deck
  have stopped : fourth.deck.running = false := rfl
  exact ⟨fourth.deck, plays, stopped, (Plays.uninterrupted plays).2.1 stopped⟩

end ZxMedia.Deck
