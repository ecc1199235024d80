import ZxMedia.Proofs.Tape.Current
import ZxMedia.Proofs.Tape.Range

/-!
# Where a number outgrows its word

An operation on a tape answers with a tape or with an error that leaves the tape as it
was. In two ways only can it make a number outgrow its word: by an interval of sampled
data whose next bit is the last one that can be counted, and by an insertion in front of
a cursor that is as far as an index can say. `attempt_overflow_iff` says so of any tape,
whatever its numbers are.

Neither happens to a tape that is `Steady` and whose cursor has room for the blocks that
are added: the bits of a block that has been played for an interval, or made ready, can
be counted.
-/

namespace ZxMedia.Tape

/-- The tape after an operation, or the error that leaves it as it was. -/
def attempt (tape : Tape) : Operation → Except Error Tape
  | .insert index track => tape.insertTrack index track
  | .remove index => (tape.removeTrack index).map Prod.snd
  | .select index => tape.select index
  | .nextEdge => tape.nextEdge.map Prod.snd
  | operation => .ok (tape.perform operation)

/-- What makes a number outgrow its word. -/
inductive Outgrows (tape : Tape) : Operation → Prop where
  /-- The next bit of sampled data is the last one that can be counted. -/
  | bit {block : RawDataBlock} {state : RawState}
      (here : tape.currentTrack? = some ⟨.rawData block, state⟩) (data : state.phase = .data)
      (inside : state.byteIndex < block.data.size) (far : UInt8.size ≤ state.bitIndex + 1) :
      Outgrows tape .nextEdge
  /-- The cursor behind an inserted block is as far as an index can say. -/
  | cursor {index current : Nat} {track : Track} (here : tape.current = some current)
      (place : index ≤ tape.size) (before : index ≤ current) (far : maxIndex ≤ current) :
      Outgrows tape (.insert index track)

/-- The current block can be played for an interval: its next bit can be counted. -/
def Steady (tape : Tape) : Prop :=
  ∀ track, tape.currentTrack? = some track → track.overflows = false

/-- The tape, its cursor and its loop have room for so many blocks more in front of
them. -/
structure HasRoom (tape : Tape) (blocks : Nat) : Prop where
  size : tape.size + blocks < maxIndex
  current : ∀ index, tape.current = some index → index + blocks < maxIndex
  loopBlock : ∀ start, tape.loopBlock = some start → start + blocks < maxIndex

/-- The run of samples that is played next is counted in a word and ends at a sample of
the data or behind the last one, if the bit that it begins at can be counted on from. -/
def RunsInside (tape : Tape) : Prop :=
  ∀ (block : RawDataBlock) (state : RawState),
    tape.currentTrack? = some ⟨.rawData block, state⟩ → state.byteIndex < block.data.size →
      state.bitIndex + 1 < UInt8.size → state.RunsInside block

variable {tape : Tape} {index limit : Nat} {track : Track} {operation : Operation}

/-! ## What overflows -/

/-- The end of a block does not make a number outgrow its word. -/
theorem atEnd_ne_overflow (tape : Tape) (index : Nat) (block : Block) :
    tape.atEnd index block ≠ .error .overflow := by
  have jumps {place : Nat} {offset : Int16} {begun : Control} :
      (tape.target place offset >>= fun position => pure (begun, Move.to position)) ≠
        .error .overflow := by
    intro failed
    obtain ⟨other, -⟩ := target_fails failed
    cases other
  intro failed
  cases block with
  | jump offset => exact jumps failed
  | loopEnd =>
      unfold atEnd at failed
      dsimp only at failed
      split at failed
      next => split at failed <;> cases failed
      next => cases failed
  | callSequence offsets =>
      unfold atEnd at failed
      dsimp only at failed
      split at failed
      next => exact jumps failed
      next => cases failed
  | callReturn =>
      unfold atEnd returnFrom at failed
      dsimp only at failed
      split at failed
      next =>
        split at failed
        next =>
          split at failed
          next => exact jumps failed
          next => cases failed
        next => cases failed
      next => cases failed
  | _ => cases failed

theorem nextEdge_overflow_iff (tape : Tape) :
    tape.nextEdge = .error .overflow ↔
      ∃ track, tape.currentTrack? = some track ∧ track.overflows = true := by
  constructor
  · intro failed
    have looked := nextEdge_error failed
    unfold lookAhead at looked
    split at looked
    next => cases looked
    next index here =>
      split at looked
      next inside =>
        dsimp only at looked
        split at looked
        next far => exact ⟨tape.tracks[index], by simp [currentTrack?, here, inside], far⟩
        next =>
          split at looked
          next =>
            cases ended : tape.atEnd index tape.tracks[index].block with
            | error cause =>
                rw [ended] at looked
                cases looked
                exact absurd ended (tape.atEnd_ne_overflow index _)
            | ok ending =>
                rw [ended] at looked
                cases looked
          next => cases looked
      next => cases looked
  · rintro ⟨track, current, far⟩
    obtain ⟨index, here, there⟩ := Option.bind_eq_some_iff.mp current
    obtain ⟨inside, rfl⟩ := Array.getElem?_eq_some_iff.mp there
    simp [nextEdge, lookAhead, here, inside, far]

theorem insertTrack_overflow_iff (tape : Tape) (index : Nat) (track : Track) :
    tape.insertTrack index track = .error .overflow ↔
      ∃ current, tape.current = some current ∧ index ≤ tape.size ∧ index ≤ current ∧
        maxIndex ≤ current := by
  unfold insertTrack
  split
  next place =>
    dsimp only
    split
    next nowhere => simp [nowhere]
    next current here =>
      have inside : index ≤ tape.size := place
      split
      next before =>
        split
        next far => simp [here, inside, before, far]
        next near => simp [here, near]
      next behind => simp [here, behind]
  next outside =>
    have beyond : ¬index ≤ tape.size := outside
    simp [noSuchBlock, beyond]

theorem removeTrack_error {error : Error}
    (failed : tape.removeTrack index = .error error) :
    error = tape.noSuchBlock index := by
  unfold removeTrack at failed
  dsimp only at failed
  split at failed
  next =>
    split at failed
    next => cases failed
    next =>
      split at failed
      next => cases failed
      next =>
        split at failed
        next => cases failed
        next => split at failed <;> cases failed
  next =>
    cases failed
    rfl

/-- An operation makes a number outgrow its word in two ways only. -/
theorem attempt_overflow_iff (tape : Tape) (operation : Operation) :
    tape.attempt operation = .error .overflow ↔ tape.Outgrows operation := by
  constructor
  · intro failed
    cases operation with
    | insert index track =>
        obtain ⟨current, here, place, before, far⟩ :=
          (insertTrack_overflow_iff tape index track).mp failed
        exact .cursor here place before far
    | nextEdge =>
        cases played : tape.nextEdge with
        | ok answer =>
            simp only [attempt, played] at failed
            cases failed
        | error error =>
            simp only [attempt, played] at failed
            cases failed
            obtain ⟨⟨block, progress⟩, here, far⟩ :=
              (nextEdge_overflow_iff tape).mp played
            cases block with
            | rawData block =>
                obtain ⟨data, inside, far⟩ := RawState.overflows_iff.mp far
                exact .bit here data inside far
            | _ => cases far
    | remove index =>
        cases removed : tape.removeTrack index with
        | ok answer =>
            simp only [attempt, removed] at failed
            cases failed
        | error error =>
            simp only [attempt, removed] at failed
            cases failed
            cases removeTrack_error removed
    | select index =>
        simp only [attempt, Tape.select] at failed
        split at failed <;> cases failed
    | _ => cases failed
  · intro outgrown
    cases outgrown with
    | bit here data inside far =>
        have overflows := (nextEdge_overflow_iff tape).mpr
          ⟨_, here, RawState.overflows_iff.mpr ⟨data, inside, far⟩⟩
        simp only [attempt, overflows]
        rfl
    | @cursor index current track here place before far =>
        exact (insertTrack_overflow_iff tape index track).mpr ⟨current, here,
          place, before, far⟩

/-! ## The current block -/

/-- The current block can be played whatever is done to a tape, if that holds of the
blocks that are brought to it: a block that was played for an interval can be played on,
whatever it was like before. -/
theorem Steady.perform (steady : tape.Steady)
    (ready : ∀ track ∈ operation.tracks, track.overflows = false) :
    (tape.perform operation).Steady := by
  refine CurrentIs.perform (fun track => track.playable_cue.not_overflows) steady (.inr ready) ?_
  intro track here
  exact Track.not_overflows_step (steady track here) tape.config

theorem Steady.run (steady : tape.Steady) {operations : List Operation}
    (ready : ∀ operation ∈ operations, ∀ track ∈ operation.tracks, track.overflows = false) :
    (tape.run operations).Steady := by
  induction operations generalizing tape with
  | nil => exact steady
  | cons operation operations ih =>
      apply ih (steady.perform (ready operation List.mem_cons_self))
      exact fun later member => ready later (List.mem_cons_of_mem operation member)

/-! ## Tapes that nothing makes overflow -/

theorem InWords.runsInside (words : tape.InWords limit) : tape.RunsInside := by
  intro block state here inside few
  obtain ⟨index, -, there⟩ := Option.bind_eq_some_iff.mp here
  have track := words.tracks _ (Array.mem_of_getElem? there)
  exact RawState.runsInside track.fits inside few

theorem Steady.not_outgrows (steady : tape.Steady) (words : tape.InWords limit)
    (near : limit < maxIndex) : ¬tape.Outgrows operation := by
  intro outgrown
  cases outgrown with
  | bit here data inside far =>
      have wrong := RawState.overflows_iff.mpr ⟨data, inside, far⟩
      exact Bool.false_ne_true ((steady _ here).symm.trans wrong)
  | cursor here place before far =>
      have within := words.current _ here
      omega

/-- A steady tape with room stays one that nothing makes overflow. -/
theorem HasRoom.run_not_outgrows {operations : List Operation}
    (room : tape.HasRoom (added operations)) (steady : tape.Steady)
    (words : tape.InWords maxIndex)
    (brought : ∀ operation ∈ operations, operation.InWords)
    (ready : ∀ operation ∈ operations, ∀ track ∈ operation.tracks, track.overflows = false) :
    ¬(tape.run operations).Outgrows operation := by
  obtain ⟨size, current, loopBlock⟩ := room
  have near : tape.InWords (maxIndex - 1 - added operations) := by
    refine ⟨words.tracks, fun index here => ?_,
      ⟨fun start begun => ?_, words.control.loopCount,
      words.control.call⟩, words.config⟩
    · have := current index here
      omega
    · have := loopBlock start begun
      omega
  have reached := near.run (by omega) (by omega) (Nat.le_of_lt size) brought
  exact (steady.run ready).not_outgrows reached (by omega)

end ZxMedia.Tape
