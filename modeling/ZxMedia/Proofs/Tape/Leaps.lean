import ZxMedia.Proofs.Tape.InPlace

/-!
# Leaps off the tape

A jump, the first call of a sequence and the end of a call that has another one behind
it send the cursor to the block at an offset: they leap. A leap off the tape is all that
can fail when a reached tape is played (`Sound.nextEdge_error_iff`), and like every
other operation that fails it leaves the tape as it was (`failed_changes_nothing`).
-/

namespace ZxMedia.Tape

open ZxMedia.InPlace (change settle)

variable {tape : Tape} {index : Nat} {block : Block} {error : Error}
    {operation : Operation}

/-- The current block sends the cursor to the block at an offset from another one. -/
inductive Leaps (tape : Tape) : Nat → Int16 → Prop where
  /-- A jump counts from itself. -/
  | jump {index : Nat} {offset : Int16} (here : tape.current = some index)
      (found : tape.block? index = some (.jump offset)) : Leaps tape index offset
  /-- A sequence begins with the call of its first offset. -/
  | call {index : Nat} {offset : Int16} {offsets : Array Int16} (here : tape.current = some index)
      (found : tape.block? index = some (.callSequence offsets))
      (first : offsets[0]? = some offset) : Leaps tape index offset
  /-- A call that ends goes on to the next one of its sequence, which counts from the
  sequence. -/
  | next {index : Nat} {call : CallState} {offset : Int16} {offsets : Array Int16}
      (here : tape.current = some index) (found : tape.block? index = some .callReturn)
      (called : tape.call = some call)
      (sequence : tape.block? call.block = some (.callSequence offsets))
      (left : offsets[call.next]? = some offset) : Leaps tape call.block offset

/-- The place at an offset from a block is on the tape. -/
def Reaches (tape : Tape) (origin : Nat) (offset : Int16) : Prop :=
  0 ≤ origin + offset.toInt ∧ origin + offset.toInt < tape.size

instance {origin : Nat} {offset : Int16} : Decidable (tape.Reaches origin offset) :=
  inferInstanceAs (Decidable (_ ∧ _))

/-- A leap off the tape fails with an error that tells where it leads. -/
def LeapFails (tape : Tape) (error : Error) : Prop :=
  ∃ origin offset, tape.Leaps origin offset ∧ ¬tape.Reaches origin offset ∧
    error = .corrupt (.jumpOutside origin offset.toInt tape.size)

theorem target_of_not_reaches {origin : Nat} {offset : Int16}
    (outside : ¬tape.Reaches origin offset) :
    tape.target origin offset =
      .error (.corrupt (.jumpOutside origin offset.toInt tape.size)) :=
  if_neg outside

/-- What fails at the end of the current block of a sound tape is a leap off the
tape. -/
theorem Sound.leapFails (sound : tape.Sound) (here : tape.current = some index)
    (found : tape.block? index = some block)
    (failed : tape.atEnd index block = .error error) :
    tape.LeapFails error := by
  cases block with
  | jump offset =>
      obtain ⟨same, outside⟩ := target_fails failed
      exact ⟨index, offset, .jump here found, outside, same⟩
  | loopEnd =>
      unfold atEnd at failed
      dsimp only at failed
      split at failed
      next => split at failed <;> cases failed
      next => cases failed
  | callSequence offsets =>
      unfold atEnd at failed
      dsimp only at failed
      split at failed
      next offset first =>
        obtain ⟨same, outside⟩ := target_fails failed
        exact ⟨index, offset, .call here found first, outside, same⟩
      next => cases failed
  | callReturn =>
      unfold atEnd at failed
      dsimp only at failed
      split at failed
      next call called =>
        obtain ⟨offsets, sequence, -⟩ := sound.control.call call called
        rw [← block?_eq] at sequence
        simp only [returnFrom, sequence] at failed
        split at failed
        next offset left =>
          obtain ⟨same, outside⟩ := target_fails failed
          exact ⟨call.block, offset, .next here found called sequence left, outside, same⟩
        next => cases failed
      next => cases failed
  | _ => cases failed

/-- A block with an end that fails takes no time. -/
theorem nextEdge_of_atEnd_error (here : tape.current = some index)
    (found : tape.block? index = some block)
    (failed : tape.atEnd index block = .error error) :
    tape.nextEdge = .error error := by
  obtain ⟨track, there, rfl⟩ := Option.map_eq_some_iff.mp found
  obtain ⟨inside, rfl⟩ := Array.getElem?_eq_some_iff.mp there
  have ends : (tape.tracks[index].step tape.config).1.ends = true ∧
      tape.tracks[index].overflows = false := by
    generalize tape.tracks[index] = track at failed
    obtain ⟨block, progress⟩ := track
    cases block with
    | jump | loopEnd | callSequence | callReturn => exact ⟨rfl, rfl⟩
    | _ => cases failed
  simp only [nextEdge, lookAhead, here, inside, dite_true, ends,
    Bool.false_eq_true, if_false, if_true, failed]
  rfl

/-- A leap off the tape makes the current block fail. -/
theorem LeapFails.nextEdge (fails : tape.LeapFails error) :
    tape.nextEdge = .error error := by
  obtain ⟨origin, offset, leaps, outside, rfl⟩ := fails
  have missed := target_of_not_reaches outside
  cases leaps with
  | jump here found =>
      apply nextEdge_of_atEnd_error here found
      unfold atEnd
      dsimp only
      rw [missed]
      rfl
  | call here found first =>
      apply nextEdge_of_atEnd_error here found
      unfold atEnd
      simp only [first, missed]
      rfl
  | next here found called sequence left =>
      apply nextEdge_of_atEnd_error here found
      unfold atEnd
      simp only [called, returnFrom, sequence, left, missed]
      rfl

/-- A sound tape fails to be played exactly when its current block leaps off it. -/
theorem Sound.nextEdge_error_iff (sound : tape.Sound) :
    tape.nextEdge = .error error ↔ tape.LeapFails error := by
  constructor
  · intro failed
    obtain ⟨index, here, beyond | ⟨inside, outgrown | ending⟩⟩ :=
      lookAhead_error (Tape.nextEdge_error failed)
    · exact absurd (sound.inside index here) (Nat.not_lt.mpr beyond)
    · have current : tape.currentTrack? = some tape.tracks[index] := by
        simp [currentTrack?, here, inside]
      have kept := (sound.playable _ current).not_overflows
      rw [kept] at outgrown
      cases outgrown
    · have found : tape.block? index = some tape.tracks[index].block := by
        simp [block?, inside]
      exact sound.leapFails here found ending
  · exact LeapFails.nextEdge

/-! ## Failures -/

/-- A number of a reached tape outgrows its word only if the tape has more blocks than
an index can count. -/
theorem Sound.crowded_of_outgrows (sound : tape.Sound)
    (outgrown : tape.Outgrows operation) :
    maxIndex < tape.size := by
  cases outgrown with
  | bit here data inside far =>
      have counted := (sound.playable _ here).not_overflows
      have wrong := RawState.overflows_iff.mpr ⟨data, inside, far⟩
      exact absurd (counted.symm.trans wrong) Bool.false_ne_true
  | cursor here place before far => exact Nat.lt_of_le_of_lt far (sound.inside _ here)

/-- A failed operation changes nothing of a tape, so that it fails again in the same
way. In place, an operation answers as it does otherwise, unless the index of the
current block would outgrow its word, for which there must be more blocks than an index
can count. Playing an interval fails exactly when the current block leaps off the
tape. -/
theorem failed_changes_nothing (reached : tape.Reachable) :
    (∀ (operation : Operation) (error : Error) (after : Tape), error ≠ .overflow →
      change tape operation.inPlace = (.error error, after) →
        after = tape ∧ change after operation.inPlace = (.error error, after)) ∧
    (∀ operation : Operation, tape.attempt operation ≠ .error .overflow →
      change tape operation.inPlace =
        settle tape ((tape.attempt operation).map fun after => ((), after))) ∧
    (∀ operation : Operation, (change tape operation.inPlace).1 = .error .overflow →
      maxIndex < tape.size) ∧
    change tape InPlace.nextEdge = settle tape tape.nextEdge ∧
    (∀ error, tape.nextEdge = .error error ↔ tape.LeapFails error) := by
  have sound := reached.sound
  refine ⟨?_, fun operation => change_inPlace, ?_, InPlace.change_nextEdge tape,
    fun error => sound.nextEdge_error_iff⟩
  · intro operation error after counted failed
    have answered := answer_inPlace tape operation
    rw [failed] at answered
    cases attempted : tape.attempt operation with
    | ok result =>
        rw [attempted] at answered
        cases answered
    | error cause =>
        rw [attempted] at answered
        cases answered
        have agrees : change tape operation.inPlace = (.error error, tape) := by
          rw [change_inPlace, attempted]
          · rfl
          · rw [attempted]
            exact fun same => counted (Except.error.inj same)
        rw [agrees] at failed
        cases failed
        exact ⟨rfl, agrees⟩
  · intro operation outgrown
    rw [answer_inPlace] at outgrown
    cases attempted : tape.attempt operation with
    | ok result =>
        rw [attempted] at outgrown
        cases outgrown
    | error cause =>
        rw [attempted] at outgrown
        cases outgrown
        exact sound.crowded_of_outgrows ((attempt_overflow_iff tape operation).mp attempted)

/-- Operations that call a return with a loop begun, where the next call leads off the
tape. -/
def stray : List Operation :=
  [.extend [.ofBlock (.loopStart 3), .ofBlock (.callSequence #[1, -9]), .ofBlock .callReturn],
    .nextEdge, .nextEdge]

theorem failed_changes_nothing_stray :
    (run {} stray).Reachable ∧ (run {} stray).loopCount = 3 ∧
    (run {} stray).call = some ⟨1, 1⟩ ∧
    change (run {} stray) InPlace.nextEdge =
      (.error (.corrupt (.jumpOutside 1 (-9) 3)), run {} stray) := by
  have reached : (run {} stray).Reachable := by
    apply (Reachable.new {}).run
    simp [stray, Operation.tracks, Block.SamplesFit, Track.ofBlock]
  obtain ⟨-, -, -, inPlace, failures⟩ := failed_changes_nothing reached
  have failed : (run {} stray).nextEdge = .error (.corrupt (.jumpOutside 1 (-9) 3)) := by
    have leaps : (run {} stray).Leaps 1 (-9) :=
      @Leaps.next _ 2 ⟨1, 1⟩ (-9) #[1, -9] rfl rfl rfl rfl rfl
    exact (failures _).mpr ⟨1, -9, leaps, by decide, rfl⟩
  refine ⟨reached, rfl, rfl, ?_⟩
  rw [inPlace, failed]
  rfl

end ZxMedia.Tape
