import ZxMedia.Proofs.Tape.Intake
import ZxMedia.Proofs.Tape.Overflow
import ZxMedia.Saved.Deck

/-!
# Restored tapes and recorders

What is restored need not be a state that arises by playing or recording: a number is
only held to the range of its word. So what is known of a restored tape is
`Tape.InWords`, and of a restored recorder `Recorder.InWords`, and the operations on
both have to cope with any such state.

They do so but for a few states. An index or a count that is restored as large as its
word allows can not be counted on from, and `restored_answers` says for which states
that happens.
-/

namespace ZxMedia.Saved

open Value

/-! ## Restored numbers -/

namespace Value

variable {α : Type} {value : Value}

theorem lt_of_below? {bound number : Nat} (restored : value.below? bound = some number) :
    number < bound := by
  unfold below? at restored
  split at restored
  next =>
    split at restored
    next range =>
      cases restored
      omega
    next => cases restored
  next => cases restored

variable {restore? : Value → Option α} {fields : List (String × Value)} {name : String}

theorem restored_of_field? {content : α}
    (restored : field? fields name restore? = some content) :
    ∃ value, restore? value = some content := by
  obtain ⟨value, -, found⟩ := Option.bind_eq_some_iff.mp restored
  exact ⟨value, found⟩

theorem restored_of_optionalField? {content : α}
    (restored : optionalField? fields name restore? = some (some content)) :
    ∃ value, restore? value = some content := by
  unfold optionalField? at restored
  split at restored
  next => cases restored
  next value _ =>
    cases value with
    | null => cases restored
    | _ =>
        obtain ⟨_, found, ⟨⟩⟩ := Option.map_eq_some_iff.mp restored
        exact ⟨_, found⟩

theorem restored_of_mapM {values : List Value} {items : List α}
    (restored : values.mapM restore? = some items) {item : α} (member : item ∈ items) :
    ∃ value, restore? value = some item := by
  induction values generalizing items with
  | nil =>
      cases restored
      cases member
  | cons value values ih =>
      simp only [List.mapM_cons, Option.bind_eq_bind,
        Option.bind_eq_some_iff, Option.pure_def, Option.some.injEq] at restored
      obtain ⟨first, found, others, rest, rfl⟩ := restored
      cases member with
      | head => exact ⟨value, found⟩
      | tail _ later => exact ih rest later

theorem restored_of_array? {items : Array α}
    (restored : array? restore? value = some items)
    {item : α} (member : item ∈ items) : ∃ value, restore? value = some item := by
  unfold array? at restored
  split at restored
  next =>
    obtain ⟨list, mapped, rfl⟩ := Option.map_eq_some_iff.mp restored
    exact restored_of_mapM mapped (by simpa using member)
  next => cases restored

theorem lt_of_field? {bound number : Nat}
    (restored : field? fields name (below? bound) = some number) : number < bound := by
  obtain ⟨value, found⟩ := restored_of_field? restored
  exact lt_of_below? found

theorem mem_of_choice? {choices : List (String × α)} {content : α}
    (chosen : choice? choices value = some content) :
    ∃ name, (name, content) ∈ choices := by
  unfold choice? at chosen
  split at chosen
  next name _ _ =>
    split at chosen
    next =>
      obtain ⟨before, behind, rfl, -⟩ := List.lookup_eq_some_iff.mp chosen
      exact ⟨name, List.mem_append_right before List.mem_cons_self⟩
    next => cases chosen
  next => cases chosen

end Value

variable {value : Value} {track : Track}

theorem restoreDataState?_inWords {state : DataState}
    (restored : restoreDataState? value = some state) : state.InWords := by
  simp only [restoreDataState?, Option.bind_eq_bind,
    Option.bind_eq_some_iff, Option.pure_def, Option.some.injEq] at restored
  obtain ⟨fields, -, phase, -, pulsesLeft, pulses, bytesBegun, bytes, bitsLeft, bits, register, -,
    bitLength, length, rfl⟩ := restored
  exact ⟨lt_of_field? pulses, lt_of_field? bytes, lt_of_field? bits, lt_of_field? length⟩

theorem restoreRawState?_inWords {state : RawState}
    (restored : restoreRawState? value = some state) : state.InWords := by
  simp only [restoreRawState?, Option.bind_eq_bind,
    Option.bind_eq_some_iff, Option.pure_def, Option.some.injEq] at restored
  obtain ⟨fields, -, phase, -, byteIndex, bytes, bitIndex, bits, level, -, runLength, length,
    rfl⟩ := restored
  exact ⟨lt_of_field? bytes, lt_of_field? bits, lt_of_field? length⟩

theorem counted_ofBlock (block : Block) : (Track.ofBlock block).Counted := by
  cases block with
  | pureTone length pulses => exact pulses.toNat_lt
  | rom block => exact DataState.inWords_default
  | turbo block => exact DataState.inWords_default
  | pureData block => exact DataState.inWords_default
  | rawData block => exact ⟨Nat.zero_lt_succ _, Nat.zero_lt_succ _, Nat.zero_lt_succ _⟩
  | pulses lengths => exact Nat.zero_lt_succ _
  | _ => trivial

theorem restoreRom?_counted (restored : restoreRom? value = some track) :
    track.Counted := by
  simp only [restoreRom?, Option.bind_eq_bind, Option.bind_eq_some_iff, Option.pure_def,
    Option.some.injEq] at restored
  obtain ⟨_, -, _, -, _, -, state, progress, rfl⟩ := restored
  obtain ⟨_, found⟩ := restored_of_field? progress
  exact restoreDataState?_inWords found

theorem restoreTurbo?_counted (restored : restoreTurbo? value = some track) :
    track.Counted := by
  simp only [restoreTurbo?, Option.bind_eq_bind, Option.bind_eq_some_iff, Option.pure_def,
    Option.some.injEq] at restored
  obtain ⟨_, -, _, -, _, -, _, -, _, -, _, -, _, -, _, -, _, -, _, -, state, progress, rfl⟩ :=
    restored
  obtain ⟨_, found⟩ := restored_of_field? progress
  exact restoreDataState?_inWords found

theorem restoreTone?_counted (restored : restoreTone? value = some track) :
    track.Counted := by
  simp only [restoreTone?, Option.bind_eq_bind, Option.bind_eq_some_iff, Option.pure_def,
    Option.some.injEq] at restored
  obtain ⟨_, -, _, -, _, -, left, below, rfl⟩ := restored
  exact lt_of_field? below

theorem restorePulses?_counted (restored : restorePulses? value = some track) :
    track.Counted := by
  simp only [restorePulses?, Option.bind_eq_bind,
    Option.bind_eq_some_iff, Option.pure_def, Option.some.injEq] at restored
  obtain ⟨_, -, _, -, index, below, rfl⟩ := restored
  exact lt_of_field? below

theorem restorePureData?_counted (restored : restorePureData? value = some track) :
    track.Counted := by
  simp only [restorePureData?, Option.bind_eq_bind,
    Option.bind_eq_some_iff, Option.pure_def, Option.some.injEq] at restored
  obtain ⟨_, -, _, -, _, -, _, -, _, -, _, -, state, progress, rfl⟩ := restored
  obtain ⟨_, found⟩ := restored_of_field? progress
  exact restoreDataState?_inWords found

theorem restoreRawData?_counted (restored : restoreRawData? value = some track) :
    track.Counted := by
  simp only [restoreRawData?, Option.bind_eq_bind,
    Option.bind_eq_some_iff, Option.pure_def, Option.some.injEq] at restored
  obtain ⟨_, -, _, -, _, -, _, -, _, -, state, progress, rfl⟩ := restored
  obtain ⟨_, found⟩ := restored_of_field? progress
  exact restoreRawState?_inWords found

theorem restoreTrackOf?_counted {name : String}
    (restored : restoreTrackOf? name value = some track) : track.Counted := by
  have plain {block? : Option Block} (made : block?.map Track.ofBlock = some track) :
      track.Counted := by
    obtain ⟨block, -, rfl⟩ := Option.map_eq_some_iff.mp made
    exact counted_ofBlock block
  unfold restoreTrackOf? at restored
  dsimp only at restored
  split at restored
  next => exact restoreRom?_counted restored
  next => exact restoreTurbo?_counted restored
  next => exact restoreTone?_counted restored
  next => exact restorePulses?_counted restored
  next => exact restorePureData?_counted restored
  next => exact restoreRawData?_counted restored
  all_goals first | exact plain restored | cases restored

theorem restoreTrack?_counted (restored : restoreTrack? value = some track) :
    track.Counted := by
  unfold restoreTrack? at restored
  split at restored
  next =>
    cases restored
    exact counted_ofBlock _
  next =>
    split at restored
    next => exact restoreTrackOf?_counted restored
    next => cases restored

theorem restoreCall?_lt {call : CallState}
    (restored : restoreCall? value = some call) :
    call.block < UInt64.size ∧ call.next < UInt64.size := by
  simp only [restoreCall?, Option.bind_eq_bind, Option.bind_eq_some_iff, Option.pure_def,
    Option.some.injEq] at restored
  obtain ⟨_, -, block, place, next, number, rfl⟩ := restored
  exact ⟨lt_of_field? place, lt_of_field? number⟩

theorem restoreConfig?_lt {config : PlaybackConfig}
    (restored : restoreConfig? value = some config) :
    config.frameTstates < UInt32.size := by
  have usual : ({} : PlaybackConfig).frameTstates < UInt32.size := by decide
  have frame {content : Value}
      (found : (content.below? UInt32.size).map PlaybackConfig.mk = some config) :
      config.frameTstates < UInt32.size := by
    obtain ⟨frameTstates, below, rfl⟩ := Option.map_eq_some_iff.mp found
    exact lt_of_below? below
  unfold restoreConfig? at restored
  split at restored
  next =>
    split at restored
    next => exact frame restored
    next =>
      cases restored
      exact usual
  next =>
    cases restored
    exact usual
  next => exact frame restored
  next => cases restored

/-- The numbers of a restored tape are in the range of their words. -/
theorem restoreTape?_inWords {tape : Tape}
    (restored : restoreTape? value = some tape)
    (fits : ∀ block ∈ tape.blocks, block.Fits) :
    tape.InWords Tape.maxIndex := by
  simp only [restoreTape?, Option.bind_eq_bind, Option.bind_eq_some_iff, Option.pure_def,
    Option.some.injEq] at restored
  obtain ⟨fields, -, tracks, each, current, here, loopBlock, loop, loopCount, count, call, calling,
    config, timing, rfl⟩ := restored
  have indices {name : String} {index : Option Nat} {place : Nat}
      (found : optionalField? fields name index? = some index) (same : index = some place) :
      place ≤ Tape.maxIndex := by
    subst same
    obtain ⟨_, below⟩ := restored_of_optionalField? found
    exact Nat.le_pred_of_lt (lt_of_below? below)
  constructor
  · intro track member
    refine ⟨fits track.block (List.mem_map_of_mem (Array.mem_toList_iff.mpr member)), ?_⟩
    obtain ⟨_, blocks⟩ := restored_of_field? each
    obtain ⟨_, found⟩ := restored_of_array? blocks member
    exact restoreTrack?_counted found
  · exact fun index => indices here
  · refine ⟨fun start => indices loop, lt_of_field? count, ?_⟩
    rintro call rfl
    obtain ⟨_, found⟩ := restored_of_optionalField? calling
    exact restoreCall?_lt found
  · obtain ⟨_, found⟩ := restored_of_field? timing
    exact restoreConfig?_lt found

theorem restoreRecordState?_inWords {recorder : Recorder}
    (restored : restoreRecordState? value = some recorder.state) : recorder.InWords := by
  unfold restoreRecordState? at restored
  split at restored
  next state plain =>
    cases restored
    obtain ⟨name, member⟩ := mem_of_choice? plain
    have counts :
        ∀ entry ∈ plainRecordStates, ¬entry.2.isLead ∧ ¬entry.2.isData := by decide
    obtain ⟨notLead, notData⟩ := counts _ member
    constructor
    · intro count lead
      simp [lead, RecordState.isLead] at notLead
    · intro bits pulses data
      simp [data, RecordState.isData] at notData
  next =>
    split at restored
    next =>
      simp only [Option.bind_eq_bind, Option.bind_eq_some_iff, Option.pure_def,
        Option.some.injEq] at restored
      obtain ⟨_, -, count, below, same⟩ := restored
      constructor
      · intro _ lead
        cases same.trans lead
        exact lt_of_field? below
      · intro _ _ data
        cases same.trans data
    next =>
      simp only [Option.bind_eq_bind, Option.bind_eq_some_iff, Option.pure_def,
        Option.some.injEq] at restored
      obtain ⟨_, -, bits, -, pulses, below, same⟩ := restored
      constructor
      · intro _ lead
        cases same.trans lead
      · intro _ _ data
        cases same.trans data
        exact lt_of_field? below
    next => cases restored

/-- The numbers of a restored recorder are in the range of their words. -/
theorem restoreRecorder?_inWords {recorder : Recorder}
    (restored : restoreRecorder? value = some recorder) : recorder.InWords := by
  simp only [restoreRecorder?, Option.bind_eq_bind,
    Option.bind_eq_some_iff, Option.pure_def, Option.some.injEq] at restored
  obtain ⟨_, -, state, waiting, _, -, _, -, rfl⟩ := restored
  obtain ⟨_, found⟩ := restored_of_field? waiting
  exact restoreRecordState?_inWords found

/-! ## Restored states -/

/-- Whatever a tape and a recorder were restored from, their numbers stay in the range
of their words as long as nothing overflows, and the runs of samples that are played
stay inside the data.

What overflows is an interval of sampled data whose next bit is the last one that can be
counted, or an insertion in front of a cursor that is as far as an index can say.
Neither happens if the current block is not restored at that bit, and there is room
behind the cursor and the loop. A recorder answers every request if it is restored
inside an octet, and only then. -/
theorem restored_answers {tapeValue recorderValue : Value} {tape : Tape}
    {recorder : Recorder}
    (tapeRestored : restoreTape? tapeValue = some tape)
    (recorderRestored : restoreRecorder? recorderValue = some recorder)
    (fits : ∀ block ∈ tape.blocks, block.Fits) {operations : List Tape.Operation}
    (brought : ∀ operation ∈ operations, operation.InWords)
    (room : tape.size + Tape.added operations ≤ Tape.maxIndex) :
    (tape.run operations).InWords Tape.maxIndex ∧ (tape.run operations).RunsInside ∧
    (∀ operation, (tape.run operations).attempt operation = .error .overflow ↔
      (tape.run operations).Outgrows operation) ∧
    (tape.Steady → tape.HasRoom (Tape.added operations) →
      (∀ operation ∈ operations, ∀ track ∈ operation.tracks, track.overflows = false) →
      ∀ operation, (tape.run operations).attempt operation ≠ .error .overflow) ∧
    (∀ requests after, recorder.askAll requests = .ok after → after.InWords) ∧
    (recorder.InOctet → ∀ requests, ∃ after, recorder.askAll requests = .ok after) ∧
    (¬recorder.InOctet → ∃ requests, recorder.askAll requests = .error .overflow) := by
  have words := restoreTape?_inWords tapeRestored fits
  have held := restoreRecorder?_inWords recorderRestored
  have reached : (tape.run operations).InWords Tape.maxIndex :=
    (words.run (Nat.le_of_add_right_le room) (Nat.le_refl _) room brought).mono
      (Nat.min_le_right _ _)
  refine ⟨reached, reached.runsInside, Tape.attempt_overflow_iff _, ?_, ?_, ?_, ?_⟩
  · intro steady space ready operation failed
    exact space.run_not_outgrows steady words brought ready
      ((Tape.attempt_overflow_iff _ operation).mp failed)
  · exact fun requests after asked => held.askAll asked
  · exact fun inside requests => inside.askAll requests
  · exact Recorder.overflows_of_not_inOctet held

/-- A tape of two octets of samples, restored at a bit of the first one. -/
def sampled (bit : Nat) : Tape :=
  { tracks := #[⟨.rawData { sampleLength := 79, pause := 0, usedBits := 8, data := #[0xFF, 0x00] },
      ({ bitIndex := bit, level := true, runLength := 79 } : RawState)⟩]
    current := some 0 }

/-- A recorder restored with so many pulses of an octet. -/
def receiving (pulses : Nat) : Recorder :=
  { state := .data 0 pulses }

/-- Something done to a tape: an interval is played, and a block is put in front of the
first one. -/
def inFront : List Tape.Operation :=
  [.nextEdge, .insert 0 (.ofBlock .groupEnd)]

theorem restored_answers_sampled :
    restoreTape? (saveTape (sampled 254)) = some (sampled 254) ∧
    restoreRecorder? (saveRecorder (receiving 15)) = some (receiving 15) ∧
    (∀ block ∈ (sampled 254).blocks, block.Fits) ∧
    (∀ operation ∈ inFront, operation.InWords) ∧
    (sampled 254).size + Tape.added inFront ≤ Tape.maxIndex ∧
    ((sampled 254).run inFront).InWords Tape.maxIndex ∧
    ((sampled 254).run inFront).RunsInside ∧
    (∀ operation, ((sampled 254).run inFront).attempt operation ≠ .error .overflow) ∧
    ∀ requests, ∃ after, (receiving 15).askAll requests = .ok after := by
  have tapeRestored : restoreTape? (saveTape (sampled 254)) = some (sampled 254) := by rfl
  have recorderRestored :
      restoreRecorder? (saveRecorder (receiving 15)) = some (receiving 15) := by rfl
  have fits : ∀ block ∈ (sampled 254).blocks, block.Fits := by
    simp [sampled, Tape.blocks, Block.Fits]
  have brought : ∀ operation ∈ inFront, operation.InWords := by
    intro operation member
    have tracks : ∀ track ∈ operation.tracks, track = .ofBlock .groupEnd := by
      revert operation
      simp [inFront, Tape.Operation.tracks]
    constructor
    · intro track brought
      rw [tracks track brought]
      exact ⟨trivial, trivial⟩
    · rintro config rfl
      simp [inFront] at member
  have room : (sampled 254).size + Tape.added inFront ≤ Tape.maxIndex := by decide
  obtain ⟨words, runs, -, answers, -, inside, -⟩ :=
    restored_answers tapeRestored recorderRestored fits brought room
  refine ⟨tapeRestored, recorderRestored, fits, brought, room, words, runs, ?_, ?_⟩
  · apply answers
    · rintro track ⟨⟩
      rfl
    · exact ⟨by decide, by rintro _ ⟨⟩; decide, by rintro _ ⟨⟩⟩
    · simp [inFront, Tape.Operation.tracks, Track.overflows, Track.ofBlock]
  · apply inside
    rintro _ _ ⟨⟩
    decide

/-- A tape may be restored at the last bit that can be counted, or with a cursor as far
as an index can say, and a recorder may be restored beyond an octet. An interval, an
insertion and the end of the transfer overflow then. -/
theorem restored_overflows :
    (∃ tape, restoreTape? (saveTape (sampled 255)) = some tape ∧
      (∀ block ∈ tape.blocks, block.Fits) ∧ tape.attempt .nextEdge = .error .overflow) ∧
    (∃ tape, restoreTape? (saveTape { sampled 0 with current := some Tape.maxIndex }) = some tape ∧
      (∀ block ∈ tape.blocks, block.Fits) ∧
      tape.attempt (.insert 0 (.ofBlock .groupEnd)) = .error .overflow) ∧
    ∃ recorder, restoreRecorder? (saveRecorder (receiving 16)) = some recorder ∧
      recorder.ask .finish = .error .overflow := by
  refine ⟨⟨sampled 255, by rfl, ?_, by rfl⟩, ⟨_, by rfl, ?_, by rfl⟩,
    receiving 16, by rfl, by rfl⟩
  · simp [sampled, Tape.blocks, Block.Fits]
  · simp [Tape.blocks, Block.Fits]

end ZxMedia.Saved
