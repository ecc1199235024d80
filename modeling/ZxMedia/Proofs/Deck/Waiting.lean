import ZxMedia.Proofs.Deck.Frames
import ZxMedia.Proofs.Tape.Waiting
import ZxMedia.Proofs.Tzx.Pieces

/-!
# Decks that wait for ever

For a frame a deck asks its reader for one pulse after another until the time is up. It
comes to an end with this, if it is given patience enough, unless one of the requests is
made of a reader that is caught in a circle. Nothing in a file keeps a tape from going
around in a circle: a block that jumps to itself is enough.
-/

namespace ZxMedia.Deck

open PulseReader

variable {tape : Tape} {reader reached : PulseReader} {stopOn48k : Bool}
variable {patience enough budget steps elapsed overshoot : Nat} {pulses : Array Nat}
variable {given : List Nat} {outcome : Nat × Array Nat × PulseReader}

/-! ## Reading for some time -/

/-- With every pulse time goes on, as long as it can be counted. -/
theorem addTstates_goesOn {tstates : Nat} (takes : 0 < tstates)
    (room : budget ≤ elapsed + (steps + 1)) (word : budget < UInt32.size) :
    budget ≤ addTstates elapsed tstates + steps := by
  unfold addTstates maxTstates
  omega

theorem min_le_foldl_addTstates (times : List Nat) (elapsed : Nat) :
    min elapsed maxTstates ≤ times.foldl addTstates elapsed := by
  induction times generalizing elapsed with
  | nil => exact Nat.min_le_left _ _
  | cons time times ih =>
      have step : min elapsed maxTstates ≤ min (addTstates elapsed time) maxTstates := by
        unfold addTstates
        omega
      exact step.trans (ih (addTstates elapsed time))

/-- Time that is short of a budget behind some pulses was short of it before them. -/
theorem lt_of_foldl_addTstates_lt (short : given.foldl addTstates elapsed < budget)
    (word : budget < UInt32.size) : elapsed < budget := by
  have lower := min_le_foldl_addTstates given elapsed
  unfold maxTstates at lower
  omega

theorem gather_mono
    (gathered : gather patience budget steps elapsed pulses reader = .ok outcome)
    (more : patience ≤ enough) :
    gather enough budget steps elapsed pulses reader = .ok outcome := by
  induction steps generalizing elapsed pulses reader with
  | zero => exact gathered
  | succ steps ih =>
      rw [gather] at gathered ⊢
      split at gathered
      next full => rw [if_pos full, gathered]
      next short =>
        rw [if_neg short]
        split at gathered
        next answered =>
          rw [next_mono answered (by simp) more]
          exact ih gathered
        next answered =>
          rw [next_mono answered (by simp) more]
          exact gathered
        next => cases gathered

theorem gather_error {error : Error}
    (failed : gather patience budget steps elapsed pulses reader = .error error) :
    error = .endless := by
  induction steps generalizing elapsed pulses reader with
  | zero => cases failed
  | succ steps ih =>
      rw [gather] at failed
      split at failed
      next => cases failed
      next =>
        split at failed
        next => exact ih failed
        next => cases failed
        next =>
          cases failed
          rfl

/-- Whoever has read for some time has got answers to all requests within it. -/
theorem gather_answering
    (gathered : gather patience budget steps elapsed pulses reader = .ok outcome)
    (room : budget ≤ elapsed + steps) (word : budget < UInt32.size)
    (yields : Yields enough reader given reached)
    (short : given.foldl addTstates elapsed < budget) : reached.Answering := by
  induction yields generalizing elapsed steps pulses with
  | nil reader =>
      have early := lt_of_foldl_addTstates_lt short word
      cases steps with
      | zero => omega
      | succ steps =>
          rw [gather, if_neg (Nat.not_le.mpr early)] at gathered
          refine ⟨patience, ?_⟩
          intro waits
          split at gathered
          next answered =>
            rw [answered] at waits
            cases waits
          next answered =>
            rw [answered] at waits
            cases waits
          next => cases gathered
  | @cons reader middle after tstates given first later ih =>
      have early := lt_of_foldl_addTstates_lt short word
      cases steps with
      | zero => omega
      | succ steps =>
          rw [gather, if_neg (Nat.not_le.mpr early)] at gathered
          have takes := (next_answers first (by simp)).positive _ rfl
          split at gathered
          next answered =>
            obtain ⟨same, rfl⟩ := next_unique first (by simp) answered (by simp)
            cases same
            exact ih gathered (addTstates_goesOn takes room word) short
          next answered =>
            obtain ⟨same, -⟩ := next_unique first (by simp) answered (by simp)
            cases same
          next => cases gathered

/-- Whoever gets answers to all requests within some time can read for that time. -/
theorem gather_of_answering
    (answering : ∀ patience given reached, Yields patience reader given reached →
      given.foldl addTstates elapsed < budget → reached.Answering) :
    ∃ patience outcome, gather patience budget steps elapsed pulses reader =
      .ok outcome := by
  induction steps generalizing elapsed pulses reader with
  | zero => exact ⟨0, _, rfl⟩
  | succ steps ih =>
      by_cases full : budget ≤ elapsed
      · exact ⟨0, _, by rw [gather, if_pos full]⟩
      · obtain ⟨enough, inTime⟩ :=
          answering 0 [] reader (.nil reader) (Nat.lt_of_not_le full)
        cases answered : reader.next enough with
        | mk turn middle =>
            rw [answered] at inTime
            cases turn with
            | pulse tstates =>
                have later :
                    ∀ patience given reached, Yields patience middle given reached →
                    given.foldl addTstates (addTstates elapsed tstates) < budget →
                      reached.Answering := by
                  intro patience given reached yields short
                  have first :=
                    next_mono answered inTime (Nat.le_max_left enough patience)
                  have rest := yields.mono (Nat.le_max_right enough patience)
                  exact answering _ (tstates :: given) reached (.cons first rest) short
                obtain ⟨patience, outcome, gathered⟩ :=
                  @ih middle _ (pulses.push tstates) later
                refine ⟨max enough patience, outcome, ?_⟩
                rw [gather, if_neg full,
                  next_mono answered inTime (Nat.le_max_left enough patience)]
                exact gather_mono gathered (Nat.le_max_right enough patience)
            | finished => exact ⟨enough, _, by rw [gather, if_neg full, answered]⟩
            | outOfPatience => exact absurd rfl inTime

/-! ## Frames -/

/-- The request for a frame comes to an end unless it asks a reader that is caught. -/
theorem earPulses_endless_iff (sound : tape.Sound) (budget : UInt32) :
    (∃ patience,
      (earPulses patience { running := true, cassette := some (.reader tape), stopOn48k, overshoot }
        budget.toNat).result ≠ .error .endless) ↔
    ∀ patience given reached, Yields patience (.ofTape tape stopOn48k) given reached →
      given.foldl addTstates overshoot < budget.toNat → ¬reached.Caught := by
  have begun := sound_ofTape sound stopOn48k
  have answers :
      ∀ patience given reached, Yields patience (.ofTape tape stopOn48k) given reached →
      (reached.Answering ↔ ¬reached.Caught) := fun _ _ _ yields =>
    answering_iff_not_caught (yields.settled rfl) (begun.yields yields).tape
  constructor
  · rintro ⟨patience, inTime⟩ enough given reached yields short
    rw [← answers _ _ _ yields]
    have room := Nat.not_le.mpr (lt_of_foldl_addTstates_lt short budget.toNat_lt)
    simp only [earPulses, if_neg room] at inTime
    split at inTime
    next error failed =>
      rw [gather_error failed] at inTime
      exact absurd rfl inTime
    next gathered =>
      exact gather_answering gathered (Nat.le_add_left _ _) budget.toNat_lt yields short
  · intro free
    by_cases covered : budget.toNat ≤ overshoot
    · refine ⟨0, ?_⟩
      simp [earPulses, if_pos covered]
    · obtain ⟨patience, ⟨elapsed, pulses, last⟩, gathered⟩ :=
        @gather_of_answering (.ofTape tape stopOn48k) budget.toNat budget.toNat overshoot #[]
          fun patience given reached yields short =>
            (answers _ _ _ yields).mpr (free patience given reached yields short)
      refine ⟨patience, ?_⟩
      have fine : last.error ≠ some .endless := by
        obtain ⟨given, reached, yields, -, -, -, ending⟩ := gather_ok gathered
        have sound := begun.yields yields
        rcases ending with ⟨rfl, -⟩ | finished
        · exact sound.error
        · exact (sound.next finished (by simp)).error
      simp only [earPulses, if_neg covered, gathered]
      split
      next error failed =>
        rintro ⟨⟩
        exact fine failed
      next => simp

/-- A reader of a tape that was read from a file, wherever operations have led it,
answers the request for the next pulse unless it is caught in a circle, and keeps saying
so when it has come to an end. A deck fills a frame with such a tape unless it asks a
reader that is caught. Without jumps and calls no reader is ever caught. -/
theorem answers_unless_caught {file : Octets} {original : Tape}
    {operations : List Tape.Operation} (succeeded : (Tzx.read file).result = .ok original)
    (fit : ∀ operation ∈ operations, ∀ track ∈ operation.tracks, track.block.SamplesFit)
    (stopOn48k : Bool) :
    (∀ patience pulses reader,
      Yields patience (.ofTape (original.run operations) stopOn48k) pulses reader →
        ((∃ enough, (reader.next enough).1 ≠ .outOfPatience) ↔ ¬reader.Caught) ∧
        ∀ last, reader.next patience = (.finished, last) → ∀ patience,
          last.next patience = (.finished, last)) ∧
    (∀ overshoot (budget : UInt32),
      (∃ patience, (earPulses patience
        { running := true, cassette := some (.reader (original.run operations)), stopOn48k,
          overshoot } budget.toNat).result ≠ .error .endless) ↔
      ∀ patience pulses reader,
        Yields patience (.ofTape (original.run operations) stopOn48k) pulses reader →
          pulses.foldl addTstates overshoot < budget.toNat → ¬reader.Caught) ∧
    ((original.run operations).Straight → ∀ patience pulses reader,
      Yields patience (.ofTape (original.run operations) stopOn48k) pulses reader →
        ¬reader.Caught) := by
  have sound := ((Tzx.reachable_read succeeded).run fit).sound
  have begun := sound_ofTape sound stopOn48k
  refine ⟨?_, ?_, ?_⟩
  · intro patience pulses reader yields
    have settled := yields.settled rfl
    refine ⟨answering_iff_not_caught settled (begun.yields yields).tape, ?_⟩
    intro last ended patience
    have answers := next_answers ended (by simp)
    exact next_finished (answers.finished rfl) answers.settled patience
  · intro overshoot budget
    exact earPulses_endless_iff sound budget
  · intro straight patience pulses reader yields caught
    apply (begun.yields yields).tape.not_circles _ caught.2
    unfold Tape.Straight
    rw [yields.blocks]
    exact straight

/-- A file with a tone of two pulses and a jump back to the empty block in front of the
jump. -/
def runaway : Octets :=
  Tzx.header ++ #[0x12, 5, 0, 2, 0, 0x22, 0x23, 0xFF, 0xFF]

/-- The tape of such a file. -/
def runawayTape : Tape :=
  .ofBlocks [.pureTone 5 2, .groupEnd, .jump (-1)]

/-- Its reader in the middle of the tone. -/
def halfway : PulseReader where
  tape :=
    { tracks := #[⟨.pureTone 5 2, (1 : Nat)⟩, .ofBlock .groupEnd, .ofBlock (.jump (-1))]
      current := some 0 }

/-- Its reader behind the tone, where the tape goes around in a circle. -/
def lost : PulseReader where
  tape :=
    { tracks := #[⟨.pureTone 5 2, (0 : Nat)⟩, .ofBlock .groupEnd, .ofBlock (.jump (-1))]
      current := some 1 }

/-- The tone fills a frame of 9 T-states. For one of 11 the deck has to ask again behind
it. -/
theorem answers_unless_caught_runaway :
    (Tzx.read runaway).result = .ok runawayTape ∧
    (earPulses 1 { running := true, cassette := some (.reader (runawayTape.run [.rewind])) }
      9).result = .ok #[5, 5] ∧
    ∀ patience, (earPulses patience
      { running := true, cassette := some (.reader (runawayTape.run [.rewind])) } 11).result =
        .error .endless := by
  have succeeded : (Tzx.read runaway).result = .ok runawayTape := rfl
  refine ⟨succeeded, rfl, ?_⟩
  intro patience
  by_contra inTime
  obtain ⟨-, frames, -⟩ :=
    @answers_unless_caught runaway runawayTape [.rewind] succeeded (by simp [Tape.Operation.tracks])
      false
  have frame := (frames 0 11).mp
  rw [show (11 : UInt32).toNat = 11 from rfl] at frame
  have first : (PulseReader.ofTape (runawayTape.run [.rewind]) false).next 1 =
      (.pulse 5, halfway) := rfl
  have second : halfway.next 1 = (.pulse 5, lost) := rfl
  have yields := Yields.cons first (.cons second (.nil lost))
  refine frame ⟨patience, inTime⟩ 1 [5, 5] lost yields (by decide) ⟨rfl, ?_⟩
  let jump : EdgeFlags := { noEdge := true, block := true }
  let onward : Tape := { lost.tape with current := some 2 }
  have there : lost.tape.nextEdge = .ok (⟨0, jump⟩, onward) := rfl
  have back : onward.nextEdge = .ok (⟨0, jump⟩, lost.tape) := rfl
  have around : lost.tape.Gives [⟨0, jump⟩, ⟨0, jump⟩] lost.tape :=
    .cons there (.cons back (.nil lost.tape))
  exact around.circles (by simp) (by simp [Edge.Silent, Edge.stops, jump])

/-- A file with a block that jumps to itself. -/
def selfJump : Octets :=
  Tzx.header ++ #[0x23, 0, 0]

theorem endless_selfJump :
    ∃ original, (Tzx.read selfJump).result = .ok original ∧ ∀ stopOn48k patience,
      ((PulseReader.ofTape original stopOn48k).next patience).1 = .outOfPatience ∧
      (earPulses patience { running := true, cassette := some (.reader original), stopOn48k }
        1).result = .error .endless := by
  have succeeded : (Tzx.read selfJump).result = .ok (.ofBlocks [.jump 0]) := rfl
  refine ⟨_, succeeded, ?_⟩
  intro stopOn48k patience
  have around : (Tape.ofBlocks [.jump 0]).Gives [⟨0, { noEdge := true, block := true }⟩]
      (Tape.ofBlocks [.jump 0]) := .cons rfl (.nil _)
  have circles : (Tape.ofBlocks [.jump 0]).Circles stopOn48k :=
    around.circles (by simp) (by simp [Edge.Silent, Edge.stops])
  have waits : ((PulseReader.ofTape (.ofBlocks [.jump 0]) stopOn48k).next patience).1 =
      .outOfPatience := by
    by_contra inTime
    exact (answering_iff_not_silent rfl rfl).mp ⟨patience, inTime⟩ circles.silent
  refine ⟨waits, ?_⟩
  cases answered : (PulseReader.ofTape (.ofBlocks [.jump 0]) stopOn48k).next patience with
  | mk turn reader =>
      rw [answered] at waits
      cases waits
      simp [earPulses, gather, answered]

end ZxMedia.Deck
