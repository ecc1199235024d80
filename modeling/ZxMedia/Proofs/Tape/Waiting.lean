import ZxMedia.Proofs.Tape.Circle

/-!
# Readers that wait for ever

Between two pulses a reader answers the next request for one, if it is given patience
enough, unless it waits for ever. It waits for ever exactly if the tape has neither
stopped nor failed and goes around in a circle from where it is.
-/

namespace ZxMedia.PulseReader

variable {reader after : PulseReader} {patience : Nat} {pulses : List Nat}

/-- The tape goes around in a circle, and the reader gets nothing of it. -/
def Caught (reader : PulseReader) : Prop :=
  reader.done = false ∧ reader.tape.Circles reader.stopOn48k

/-- The next request is answered within some number of intervals. -/
def Answering (reader : PulseReader) : Prop :=
  ∃ enough, (reader.next enough).1 ≠ .outOfPatience

/-- A reader that has stopped needs no patience. -/
theorem inTime_of_done (done : reader.done = true) (patience : Nat) :
    (reader.next patience).1 ≠ .outOfPatience := by
  rw [next_done done]
  dsimp only
  split <;> simp

/-- A silent interval leaves a reader between two pulses. -/
theorem step_of_silent {edge : Edge} {tape : Tape} (settled : reader.pending = 0)
    (playing : reader.done = false) (played : reader.tape.nextEdge = .ok (edge, tape))
    (silent : edge.Silent reader.stopOn48k) :
    ∃ notices, reader.step = (none, { reader with tape, notices }) := by
  refine ⟨reader.notices ++ reader.tape.notice?.toArray, ?_⟩
  rw [step_ok played, silent.1, silent.2, settled, playing]
  obtain ⟨_, _, _, _, _, _⟩ := reader
  cases settled
  cases playing
  simp [addTstates]

/-- Behind any other interval there is an answer. -/
theorem answering_of_loud {edge : Edge} {tape : Tape} (settled : reader.pending = 0)
    (playing : reader.done = false) (played : reader.tape.nextEdge = .ok (edge, tape))
    (loud : ¬edge.Silent reader.stopOn48k) : reader.Answering := by
  have step := step_ok played
  rw [settled] at step
  by_cases instant : edge.tstates = 0
  · have stops : edge.stops reader.stopOn48k = true := by
      by_contra goesOn
      exact loud ⟨instant, by simpa using goesOn⟩
    have quiet : addTstates 0 edge.tstates = 0 := by
      rw [instant]
      rfl
    dsimp only at step
    rw [quiet, if_neg (by simp)] at step
    refine ⟨1, ?_⟩
    rw [next_of_none playing step]
    apply inTime_of_done
    simp [stops]
  · -- Time that is pending at an edge is a pulse, and intervals that take time end with
    -- an edge.
    have level : edge.isEdge = true := by
      by_contra quiet
      exact instant (Tape.nextEdge_instant played (by simpa using quiet))
    have takes : addTstates 0 edge.tstates ≠ 0 := by
      unfold addTstates maxTstates
      have words : 1 < UInt32.size := by decide
      omega
    dsimp only at step
    rw [if_pos ⟨level, takes⟩] at step
    refine ⟨1, ?_⟩
    rw [next_of_pulse playing step]
    simp

/-- A reader that plays waits for ever exactly if the tape is silent for ever. -/
theorem answering_iff_not_silent (settled : reader.pending = 0)
    (playing : reader.done = false) :
    reader.Answering ↔ ¬reader.tape.Silent reader.stopOn48k := by
  constructor
  · rintro ⟨enough, inTime⟩ silent
    apply inTime
    clear inTime
    induction enough generalizing reader with
    | zero =>
        rw [next.eq_def]
        simp [playing]
    | succ enough ih =>
        obtain ⟨edge, tape, played, quiet, later⟩ := silent.next
        obtain ⟨notices, step⟩ := step_of_silent settled playing played quiet
        rw [next_of_none playing step]
        exact ih settled playing later
  · contrapose!
    intro waits count
    induction count generalizing reader with
    | zero => exact ⟨[], rfl, .nil _ _⟩
    | succ count ih =>
        cases played : reader.tape.nextEdge with
        | error error =>
            exfalso
            apply waits
            refine ⟨1, ?_⟩
            rw [next_of_none playing (step_error played)]
            exact inTime_of_done rfl 0
        | ok outcome =>
            obtain ⟨edge, tape⟩ := outcome
            have quiet : edge.Silent reader.stopOn48k := by
              by_contra loud
              exact waits (answering_of_loud settled playing played loud)
            obtain ⟨notices, step⟩ := step_of_silent settled playing played quiet
            have waitsOn : ¬Answering { reader with tape, notices } := by
              rintro ⟨enough, inTime⟩
              apply waits
              refine ⟨enough + 1, ?_⟩
              rwa [next_of_none playing step]
            obtain ⟨edges, long, passes⟩ :=
              @ih { reader with tape, notices } settled playing waitsOn
            refine ⟨edge :: edges, by rw [List.length_cons, long], ?_⟩
            rw [Tape.playedFor_succ played]
            exact .cons played quiet passes

/-- Between two pulses a reader of a sound tape answers unless it is caught in a
circle. -/
theorem answering_iff_not_caught (settled : reader.pending = 0)
    (sound : reader.tape.Sound) :
    reader.Answering ↔ ¬reader.Caught := by
  by_cases done : reader.done = true
  · constructor
    · rintro _ ⟨playing, -⟩
      rw [done] at playing
      cases playing
    · intro _
      exact ⟨0, inTime_of_done done 0⟩
  · have playing : reader.done = false := by simpa using done
    rw [answering_iff_not_silent settled playing]
    constructor
    · intro loud caught
      exact loud caught.2.silent
    · intro free silent
      exact free ⟨playing, sound.circles_of_silent silent⟩

/-! ## Readers of sound tapes -/

/-- Every step keeps the tape sound, and the errors of readers are those of tapes. -/
structure Sound (reader : PulseReader) : Prop where
  tape : reader.tape.Sound
  error : reader.error ≠ some .endless

theorem sound_ofTape {tape : Tape} (sound : tape.Sound) (stopOn48k : Bool) :
    (ofTape tape stopOn48k).Sound :=
  ⟨sound, nofun⟩

theorem Sound.step {answer : Option Nat} (sound : reader.Sound)
    (stepped : reader.step = (answer, after)) : after.Sound := by
  cases played : reader.tape.nextEdge with
  | error error =>
      rw [step_error played] at stepped
      cases stepped
      obtain ⟨origin, offset, -, same⟩ := sound.tape.nextEdge_error played
      refine ⟨sound.tape, ?_⟩
      rw [same]
      simp
  | ok outcome =>
      rw [step_ok played] at stepped
      cases stepped
      exact ⟨sound.tape.nextEdge played, sound.error⟩

theorem Sound.turns {turn : Turn} (sound : reader.Sound)
    (turns : Turns patience reader turn after) : after.Sound := by
  induction turns with
  | done done => exact ⟨sound.tape, sound.error⟩
  | pulse playing step => exact sound.step step
  | later playing step _ ih => exact ih (sound.step step)

theorem Sound.next {turn : Turn} (sound : reader.Sound)
    (answered : reader.next patience = (turn, after)) (inTime : turn ≠ .outOfPatience) :
    after.Sound :=
  sound.turns (turns_of_next answered inTime)

theorem Sound.yields (sound : reader.Sound)
    (yields : Yields patience reader pulses after) :
    after.Sound := by
  induction yields with
  | nil => exact sound
  | cons first _ ih => exact ih (sound.next first (by simp))

end ZxMedia.PulseReader
