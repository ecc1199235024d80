import Mathlib
import ZxMedia.Proofs.Tape.Edges
import ZxMedia.Tape.PulseReader

/-!
# Pulses that a reader gives

A reader gives its pulses one after another until the tape stops or fails, and `Yields`
relates it to the pulses that it gives and to the reader after them. What it gives
depends on the tape alone: more patience changes nothing about an answer that came in
time, and neither does what was noticed before. Between two pulses no time is pending.

The pulses of a tape that stops are the edges that it gives, without those that take no
time.
-/

namespace ZxMedia.PulseReader

/-- The reader gives these pulses one after another, each of them in time. -/
inductive Yields (patience : Nat) : PulseReader → List Nat → PulseReader → Prop where
  | nil (reader : PulseReader) : Yields patience reader [] reader
  | cons {reader middle after : PulseReader} {tstates : Nat} {pulses : List Nat}
      (first : reader.next patience = (.pulse tstates, middle))
      (later : Yields patience middle pulses after) :
      Yields patience reader (tstates :: pulses) after

/-- The reader gives these pulses and no more. -/
def YieldsAll (patience : Nat) (reader : PulseReader) (pulses : List Nat)
    (last : PulseReader) :
    Prop :=
  ∃ reached, Yields patience reader pulses reached ∧ reached.next patience = (.finished, last)

variable {reader middle after other last : PulseReader} {patience enough tstates : Nat}
variable {front back pulses : List Nat} {turn : Turn}

/-! ## Intervals -/

/-- An interval that ends with an edge gives the time that is pending, if there is any,
and every other interval adds to it. -/
theorem step_ok {edge : Edge} {tape : Tape}
    (played : reader.tape.nextEdge = .ok (edge, tape)) :
    reader.step =
      (let pending := addTstates reader.pending edge.tstates
       (if edge.isEdge = true ∧ pending ≠ 0 then some pending else none,
        { reader with
          tape
          pending := if edge.isEdge = true then 0 else pending
          done := reader.done || edge.stops reader.stopOn48k
          notices := reader.notices ++ reader.tape.notice?.toArray })) := by
  unfold step flush Edge.stops
  simp only [played]
  cases edge.isEdge
  · rfl
  · by_cases instant : addTstates reader.pending edge.tstates = 0 <;> simp [instant]

/-- A reader stops when the tape fails. -/
theorem step_error {error : Error} (failed : reader.tape.nextEdge = .error error) :
    reader.step =
      (none, { reader with
        done := true
        error := some error
        notices := reader.notices ++ reader.tape.notice?.toArray }) := by
  unfold step
  simp only [failed]

/-! ## Answers -/

/-- A reader that has stopped gives the time that is pending, and then no more. -/
theorem next_done (done : reader.done = true) (patience : Nat) :
    reader.next patience =
      (if reader.pending = 0 then .finished else .pulse reader.pending,
        { reader with pending := 0 }) := by
  rw [next.eq_def]
  by_cases settled : reader.pending = 0 <;> simp [done, flush, settled]

theorem next_finished (done : reader.done = true) (settled : reader.pending = 0)
    (patience : Nat) :
    reader.next patience = (.finished, reader) := by
  obtain ⟨tape, pending, stopOn48k, stopped, error, notices⟩ := reader
  obtain rfl : pending = 0 := settled
  exact next_done done patience

/-- A reader that has not stopped answers with the pulse that ends with the next
interval. -/
theorem next_of_pulse (playing : reader.done = false)
    (step : reader.step = (some tstates, after)) (patience : Nat) :
    reader.next (patience + 1) = (.pulse tstates, after) := by
  rw [next.eq_def]
  simp [playing, step]

theorem next_of_none (playing : reader.done = false) (step : reader.step = (none, middle))
    (patience : Nat) : reader.next (patience + 1) = middle.next patience := by
  rw [next.eq_def]
  simp [playing, step]

/-- All that an answer in time can come from: the reader has stopped, or the next
interval gives a pulse, or it gives none and the answer comes behind it. -/
inductive Turns : Nat → PulseReader → Turn → PulseReader → Prop where
  | done {patience : Nat} {reader : PulseReader} (done : reader.done = true) :
      Turns patience reader (if reader.pending = 0 then .finished else .pulse reader.pending)
        { reader with pending := 0 }
  | pulse {patience tstates : Nat} {reader after : PulseReader} (playing : reader.done = false)
      (step : reader.step = (some tstates, after)) :
      Turns (patience + 1) reader (.pulse tstates) after
  | later {patience : Nat} {reader middle after : PulseReader} {turn : Turn}
      (playing : reader.done = false) (step : reader.step = (none, middle))
      (rest : Turns patience middle turn after) : Turns (patience + 1) reader turn after

theorem Turns.next (turns : Turns patience reader turn after) :
    reader.next patience = (turn, after) := by
  induction turns with
  | done done => exact next_done done _
  | pulse playing step => exact next_of_pulse playing step _
  | later playing step _ ih => rw [next_of_none playing step, ih]

theorem turns_of_next (answered : reader.next patience = (turn, after))
    (inTime : turn ≠ .outOfPatience) : Turns patience reader turn after := by
  induction patience generalizing reader with
  | zero =>
      by_cases done : reader.done = true
      · rw [next_done done] at answered
        cases answered
        exact .done done
      · rw [next.eq_def, if_neg done] at answered
        cases answered
        exact absurd rfl inTime
  | succ patience ih =>
      by_cases done : reader.done = true
      · rw [next_done done] at answered
        cases answered
        exact .done done
      · have playing : reader.done = false := by simpa using done
        cases step : reader.step with
        | mk answer middle =>
            cases answer with
            | none =>
                rw [next_of_none playing step] at answered
                exact .later playing step (ih answered)
            | some tstates =>
                rw [next_of_pulse playing step] at answered
                cases answered
                exact .pulse playing step

theorem Turns.mono (turns : Turns patience reader turn after) (more : patience ≤ enough) :
    Turns enough reader turn after := by
  induction turns generalizing enough with
  | done done => exact .done done
  | pulse playing step =>
      obtain ⟨enough, rfl⟩ := Nat.exists_eq_add_of_lt more
      exact .pulse playing step
  | later playing step _ ih =>
      obtain ⟨enough, rfl⟩ := Nat.exists_eq_add_of_lt more
      exact .later playing step (ih (Nat.le_add_right _ enough))

/-- Of an answer that came in time more patience changes nothing. -/
theorem next_mono (answered : reader.next patience = (turn, after))
    (inTime : turn ≠ .outOfPatience) (more : patience ≤ enough) :
    reader.next enough = (turn, after) :=
  ((turns_of_next answered inTime).mono more).next

/-- Answers that came in time are the same, however much patience there was. -/
theorem next_unique {answer : Turn} {last : PulseReader}
    (answered : reader.next patience = (turn, after)) (inTime : turn ≠ .outOfPatience)
    (again : reader.next enough = (answer, last)) (alsoInTime : answer ≠ .outOfPatience) :
    turn = answer ∧ after = last := by
  have first := next_mono answered inTime (Nat.le_max_left patience enough)
  have second := next_mono again alsoInTime (Nat.le_max_right patience enough)
  exact Prod.mk.inj (first.symm.trans second)

/-- What holds of every answer that comes in time. -/
structure Answers (reader : PulseReader) (turn : Turn) (after : PulseReader) : Prop where
  /-- No time is left pending. -/
  settled : after.pending = 0
  stopOn48k : after.stopOn48k = reader.stopOn48k
  /-- A pulse takes time. -/
  positive : ∀ tstates, turn = .pulse tstates → 0 < tstates
  /-- Only a reader that has stopped has no more pulses. -/
  finished : turn = .finished → after.done = true
  /-- An error is not forgotten. -/
  failed : reader.error.isSome = true → after.error.isSome = true

theorem step_answers {answer : Option Nat} (stepped : reader.step = (answer, after)) :
    after.stopOn48k = reader.stopOn48k ∧
      (reader.error.isSome = true → after.error.isSome = true) ∧
      ∀ tstates, answer = some tstates → 0 < tstates ∧ after.pending = 0 := by
  cases played : reader.tape.nextEdge with
  | error error =>
      rw [step_error played] at stepped
      cases stepped
      exact ⟨rfl, fun _ => rfl, by simp⟩
  | ok outcome =>
      rw [step_ok played] at stepped
      cases stepped
      refine ⟨rfl, id, ?_⟩
      intro tstates pulse
      dsimp only at pulse ⊢
      split at pulse
      next edge =>
        cases pulse
        exact ⟨Nat.pos_of_ne_zero edge.2, if_pos edge.1⟩
      next => cases pulse

theorem Turns.answers (turns : Turns patience reader turn after) :
    reader.Answers turn after := by
  induction turns with
  | done done =>
      refine ⟨rfl, rfl, ?_, fun _ => done, id⟩
      intro tstates pulse
      split at pulse
      next => cases pulse
      next pending =>
        cases pulse
        exact Nat.pos_of_ne_zero pending
  | pulse playing step =>
      obtain ⟨stopOn48k, failed, pulse⟩ := step_answers step
      obtain ⟨positive, settled⟩ := pulse _ rfl
      refine ⟨settled, stopOn48k, ?_, nofun, failed⟩
      rintro _ ⟨⟩
      exact positive
  | later playing step _ ih =>
      obtain ⟨stopOn48k, failed, -⟩ := step_answers step
      exact ⟨ih.settled, ih.stopOn48k.trans stopOn48k, ih.positive, ih.finished,
        fun before => ih.failed (failed before)⟩

theorem next_answers (answered : reader.next patience = (turn, after))
    (inTime : turn ≠ .outOfPatience) : reader.Answers turn after :=
  (turns_of_next answered inTime).answers

/-- Reading a tape leaves its blocks as they are. -/
theorem blocks_step {answer : Option Nat} (stepped : reader.step = (answer, after)) :
    after.tape.blocks = reader.tape.blocks := by
  cases played : reader.tape.nextEdge with
  | error error =>
      rw [step_error played] at stepped
      cases stepped
      rfl
  | ok outcome =>
      rw [step_ok played] at stepped
      cases stepped
      exact (Tape.nextEdge_keeps played).1

theorem Turns.blocks (turns : Turns patience reader turn after) :
    after.tape.blocks = reader.tape.blocks := by
  induction turns with
  | done => rfl
  | pulse playing step => exact blocks_step step
  | later playing step _ ih => exact ih.trans (blocks_step step)

/-! ## What was noticed -/

/-- The readers are the same but for what was noticed. -/
def Alike (reader other : PulseReader) : Prop :=
  ∃ notices, other = { reader with notices }

theorem Alike.step (alike : reader.Alike other) :
    other.step.1 = reader.step.1 ∧ reader.step.2.Alike other.step.2 := by
  obtain ⟨notices, rfl⟩ := alike
  cases played : reader.tape.nextEdge with
  | error error =>
      have same :
          ({ reader with notices } : PulseReader).tape.nextEdge = .error error := played
      rw [step_error played, step_error same]
      exact ⟨rfl, _, rfl⟩
  | ok outcome =>
      have same : ({ reader with notices } : PulseReader).tape.nextEdge = .ok outcome :=
        played
      rw [step_ok played, step_ok same]
      exact ⟨rfl, _, rfl⟩

theorem Alike.tape (alike : reader.Alike other) : other.tape = reader.tape := by
  obtain ⟨notices, rfl⟩ := alike
  rfl

theorem Alike.done (alike : reader.Alike other) : other.done = reader.done := by
  obtain ⟨notices, rfl⟩ := alike
  rfl

theorem Alike.error (alike : reader.Alike other) : other.error = reader.error := by
  obtain ⟨notices, rfl⟩ := alike
  rfl

theorem Alike.symm (alike : reader.Alike other) : other.Alike reader := by
  obtain ⟨notices, rfl⟩ := alike
  exact ⟨reader.notices, rfl⟩

theorem Alike.trans {third : PulseReader} (alike : reader.Alike other)
    (later : other.Alike third) :
    reader.Alike third := by
  obtain ⟨_, rfl⟩ := alike
  obtain ⟨notices, rfl⟩ := later
  exact ⟨notices, rfl⟩

theorem Turns.alike (turns : Turns patience reader turn after)
    (alike : reader.Alike other) :
    ∃ next, Turns patience other turn next ∧ after.Alike next := by
  induction turns generalizing other with
  | done done =>
      obtain ⟨notices, rfl⟩ := alike
      exact ⟨_, .done done, notices, rfl⟩
  | pulse playing step =>
      obtain ⟨answer, later⟩ := alike.step
      rw [← alike.done] at playing
      rw [step] at answer later
      exact ⟨other.step.2, .pulse playing (Prod.ext answer rfl), later⟩
  | later playing step _ ih =>
      obtain ⟨answer, later⟩ := alike.step
      rw [← alike.done] at playing
      rw [step] at answer later
      obtain ⟨next, rest, alike⟩ := ih later
      have same : other.step = (none, other.step.2) := Prod.ext answer rfl
      exact ⟨next, .later playing same rest, alike⟩

theorem Alike.next (alike : reader.Alike other)
    (answered : reader.next patience = (turn, after))
    (inTime : turn ≠ .outOfPatience) :
    ∃ next, other.next patience = (turn, next) ∧ after.Alike next := by
  obtain ⟨next, turns, alike⟩ := (turns_of_next answered inTime).alike alike
  exact ⟨next, turns.next, alike⟩

/-! ## Pulses one after another -/

namespace Yields

theorem append (first : Yields patience reader front middle)
    (later : Yields patience middle back after) :
    Yields patience reader (front ++ back) after := by
  induction first with
  | nil => exact later
  | cons step _ ih => exact .cons step (ih later)

theorem mono (yields : Yields patience reader pulses after) (more : patience ≤ enough) :
    Yields enough reader pulses after := by
  induction yields with
  | nil => exact .nil _
  | cons step _ ih => exact .cons (next_mono step (by simp) more) ih

theorem alike (yields : Yields patience reader pulses after)
    (alike : reader.Alike other) :
    ∃ reached, Yields patience other pulses reached ∧ after.Alike reached := by
  induction yields generalizing other with
  | nil => exact ⟨other, .nil other, alike⟩
  | cons step _ ih =>
      obtain ⟨next, first, alike⟩ := alike.next step (by simp)
      obtain ⟨reached, later, alike⟩ := ih alike
      exact ⟨reached, .cons first later, alike⟩

/-- Between two pulses no time is pending. -/
theorem settled (yields : Yields patience reader pulses after)
    (settled : reader.pending = 0) :
    after.pending = 0 := by
  induction yields with
  | nil => exact settled
  | cons step _ ih => exact ih (next_answers step (by simp)).settled

theorem stopOn48k (yields : Yields patience reader pulses after) :
    after.stopOn48k = reader.stopOn48k := by
  induction yields with
  | nil => rfl
  | cons step _ ih => exact ih.trans (next_answers step (by simp)).stopOn48k

theorem failed (yields : Yields patience reader pulses after)
    (failed : reader.error.isSome = true) : after.error.isSome = true := by
  induction yields with
  | nil => exact failed
  | cons step _ ih => exact ih ((next_answers step (by simp)).failed failed)

theorem blocks (yields : Yields patience reader pulses after) :
    after.tape.blocks = reader.tape.blocks := by
  induction yields with
  | nil => rfl
  | cons step _ ih => exact ih.trans (turns_of_next step (by simp)).blocks

theorem length_le_sum (yields : Yields patience reader pulses after) :
    pulses.length ≤ pulses.sum := by
  induction yields with
  | nil => exact Nat.le_refl 0
  | cons step _ ih =>
      have positive := (next_answers step (by simp)).positive _ rfl
      simp only [List.length_cons, List.sum_cons]
      omega

/-- Pulses given are the first ones of all that the reader has to give. -/
theorem split (whole : Yields patience reader pulses middle)
    (finished : middle.next patience = (.finished, last))
    (given : Yields patience reader front after) :
    ∃ back, pulses = front ++ back ∧ Yields patience after back middle := by
  induction given generalizing pulses with
  | nil reader => exact ⟨pulses, rfl, whole⟩
  | cons step _ ih =>
      cases whole with
      | nil =>
          rw [finished] at step
          cases step
      | cons first later =>
          rw [step] at first
          cases first
          obtain ⟨back, rfl, rest⟩ := ih later
          exact ⟨back, rfl, rest⟩

/-- Pulses of a reader that begins where another one is between two pulses come behind
the pulses that led the other one there. -/
theorem resume {stopOn48k : Bool} (given : Yields patience reader front middle)
    (fresh : (ofTape middle.tape stopOn48k).Alike middle)
    (later : Yields enough (ofTape middle.tape stopOn48k) back after) :
    ∃ reached, Yields (max patience enough) reader (front ++ back) reached ∧
      after.Alike reached := by
  obtain ⟨reached, rest, alike⟩ := later.alike fresh
  exact ⟨reached, (given.mono (Nat.le_max_left ..)).append (rest.mono (Nat.le_max_right ..)), alike⟩

end Yields

theorem YieldsAll.mono (yields : YieldsAll patience reader pulses last)
    (more : patience ≤ enough) : YieldsAll enough reader pulses last := by
  obtain ⟨reached, given, finished⟩ := yields
  exact ⟨reached, given.mono more, next_mono finished (by simp) more⟩

/-- How much patience there is does not matter to the pulses, nor to where they end. -/
theorem YieldsAll.unique {all : List Nat} {final : PulseReader}
    (yields : YieldsAll patience reader pulses last)
    (whole : YieldsAll enough reader all final) :
    pulses = all ∧ last = final := by
  obtain ⟨reached, given, finished⟩ := yields.mono (Nat.le_max_left patience enough)
  obtain ⟨middle, whole, ended⟩ := whole.mono (Nat.le_max_right patience enough)
  obtain ⟨back, rfl, rest⟩ := whole.split ended given
  cases rest with
  | nil =>
      rw [finished] at ended
      cases ended
      exact ⟨by simp, rfl⟩
  | cons first later =>
      rw [finished] at first
      cases first

theorem YieldsAll.rest {all : List Nat} (whole : YieldsAll patience reader all last)
    (given : Yields patience reader pulses after) :
    ∃ back, all = pulses ++ back ∧ YieldsAll patience after back last := by
  obtain ⟨middle, whole, finished⟩ := whole
  obtain ⟨back, same, rest⟩ := whole.split finished given
  exact ⟨back, same, middle, rest, finished⟩

/-- An error would still be there in the end. -/
theorem YieldsAll.fine (yields : YieldsAll patience reader pulses last)
    (fine : last.error = none) :
    reader.error = none := by
  obtain ⟨reached, given, finished⟩ := yields
  by_contra failed
  have kept := (next_answers finished (by simp)).failed
    (given.failed (Option.isSome_iff_ne_none.mpr failed))
  simp [fine] at kept

theorem YieldsAll.alike (yields : YieldsAll patience reader pulses last)
    (alike : reader.Alike other) :
    ∃ final, YieldsAll patience other pulses final ∧ last.Alike final := by
  obtain ⟨reached, given, finished⟩ := yields
  obtain ⟨middle, given, alike⟩ := given.alike alike
  obtain ⟨final, finished, alike⟩ := alike.next finished (by simp)
  exact ⟨final, ⟨middle, given, finished⟩, alike⟩

theorem Yields.isPrefix {all : List Nat} (given : Yields patience reader pulses after)
    (whole : YieldsAll enough reader all last) : pulses <+: all := by
  obtain ⟨back, rfl, -⟩ :=
    (whole.mono (Nat.le_max_right patience enough)).rest
      (given.mono (Nat.le_max_left patience enough))
  exact List.prefix_append pulses back

/-! ## One interval after another -/

/-- A reader gives the pulse of the next interval, if it has one, and then the pulses
behind it. -/
theorem YieldsAll.after_step {answer : Option Nat} (playing : reader.done = false)
    (step : reader.step = (answer, middle))
    (yields : YieldsAll patience middle pulses last) :
    YieldsAll (patience + 1) reader (answer.toList ++ pulses) last := by
  obtain ⟨reached, given, finished⟩ := yields
  have more := Nat.le_succ patience
  have ended := next_mono finished (by simp) more
  cases answer with
  | some tstates => exact ⟨reached, .cons (next_of_pulse playing step _) (given.mono more), ended⟩
  | none =>
      -- Without a pulse of its own the interval belongs to the next answer.
      have same := next_of_none playing step patience
      cases given with
      | nil => exact ⟨reader, .nil reader, same.trans finished⟩
      | cons first later => exact ⟨reached, .cons (same.trans first) (later.mono more), ended⟩

theorem Yields.after_step {answer : Option Nat} (playing : reader.done = false)
    (step : reader.step = (answer, middle))
    (yields : Yields patience middle pulses after) :
    ∃ reached, Yields (patience + 1) reader (answer.toList ++ pulses) reached ∧
      (reached = after ∨ reached = reader) := by
  have more := Nat.le_succ patience
  cases answer with
  | some tstates =>
      exact ⟨after, .cons (next_of_pulse playing step _) (yields.mono more), .inl rfl⟩
  | none =>
      cases yields with
      | nil => exact ⟨reader, .nil reader, .inr rfl⟩
      | cons first later =>
          have same := next_of_none playing step patience
          exact ⟨after, .cons (same.trans first) (later.mono more), .inl rfl⟩

/-- A reader that stops with the next interval gives no more than its pulse. -/
theorem yieldsAll_of_step {answer : Option Nat} (playing : reader.done = false)
    (step : reader.step = (answer, last)) (done : last.done = true)
    (settled : last.pending = 0) :
    YieldsAll 1 reader answer.toList last := by
  have ended : YieldsAll 0 last [] last := ⟨last, .nil last, next_finished done settled 0⟩
  have all := ended.after_step playing step
  rwa [List.append_nil] at all

/-! ## Pulses of edges -/

/-- The pulse of an interval, if it takes time. -/
def pulseOf (edge : Edge) : Option Nat :=
  if edge.tstates = 0 then none else some edge.tstates

/-- The pulses of edges are the intervals that take time. -/
def pulsesOf (edges : List Edge) : List Nat :=
  (edges.map Edge.tstates).filter (· ≠ 0)

theorem pulsesOf_cons (edge : Edge) (edges : List Edge) :
    pulsesOf (edge :: edges) = (pulseOf edge).toList ++ pulsesOf edges := by
  by_cases instant : edge.tstates = 0 <;> simp [pulsesOf, pulseOf, instant]

theorem pulsesOf_append (front back : List Edge) :
    pulsesOf (front ++ back) = pulsesOf front ++ pulsesOf back := by
  simp [pulsesOf]

theorem sum_pulsesOf (edges : List Edge) :
    (pulsesOf edges).sum = (edges.map Edge.tstates).sum := by
  induction edges with
  | nil => rfl
  | cons edge edges ih =>
      rw [pulsesOf_cons, List.sum_append, ih, List.map_cons, List.sum_cons]
      by_cases instant : edge.tstates = 0 <;> simp [pulseOf, instant]

variable {edge : Edge} {edges : List Edge} {tape left : Tape} {stopOn48k : Bool}

/-- An interval that takes time is a pulse of its own. -/
theorem step_plain (settled : reader.pending = 0) (plain : edge.Plain)
    (played : reader.tape.nextEdge = .ok (edge, tape)) :
    ∃ notices, reader.step =
      (pulseOf edge,
        { reader with
          tape
          done := reader.done || edge.stops reader.stopOn48k
          notices }) := by
  have counted : addTstates reader.pending edge.tstates = edge.tstates := by
    rw [settled, addTstates, Nat.zero_add]
    exact Nat.min_eq_left plain.counted
  refine ⟨reader.notices ++ reader.tape.notice?.toArray, ?_⟩
  rw [step_ok played]
  obtain ⟨_, pending, _, _, _, _⟩ := reader
  obtain rfl : pending = 0 := settled
  dsimp only at counted ⊢
  rw [counted]
  by_cases level : edge.isEdge = true
  · by_cases instant : edge.tstates = 0 <;> simp [pulseOf, level, instant]
  · have instant := plain.instant (by simpa using level)
    simp [pulseOf, level, instant]

/-- Behind an interval with which the tape does not stop the reader is as one that
begins there. -/
theorem step_goesOn (plain : edge.Plain) (played : tape.nextEdge = .ok (edge, left))
    (goesOn : edge.stops stopOn48k = false) :
    ∃ next, (ofTape tape stopOn48k).step = (pulseOf edge, next) ∧
      (ofTape left stopOn48k).Alike next := by
  obtain ⟨notices, step⟩ := @step_plain (ofTape tape stopOn48k) edge left rfl plain played
  rw [show edge.stops (ofTape tape stopOn48k).stopOn48k = false from goesOn] at step
  exact ⟨_, step, notices, rfl⟩

/-- All edges that a tape gives to a reader: up to the first one with which it stops, or
up to an error. -/
inductive PlaysOut (stopOn48k : Bool) : Tape → List Edge → Tape → Option Error → Prop where
  | stop {tape left : Tape} {edge : Edge} (played : tape.nextEdge = .ok (edge, left))
      (stops : edge.stops stopOn48k = true) : PlaysOut stopOn48k tape [edge] left none
  | failure {tape : Tape} {error : Error} (failed : tape.nextEdge = .error error) :
      PlaysOut stopOn48k tape [] tape (some error)
  | more {tape middle left : Tape} {edge : Edge} {edges : List Edge} {error : Option Error}
      (played : tape.nextEdge = .ok (edge, middle)) (goesOn : edge.stops stopOn48k = false)
      (later : PlaysOut stopOn48k middle edges left error) :
      PlaysOut stopOn48k tape (edge :: edges) left error

theorem PlaysOut.behind {front : List Edge} {middle : Tape} {error : Option Error}
    (plays : PlaysOut stopOn48k middle edges left error) (gives : tape.Gives front middle)
    (goesOn : ∀ edge ∈ front, edge.stops stopOn48k = false) :
    PlaysOut stopOn48k tape (front ++ edges) left error := by
  induction gives with
  | nil => exact plays
  | cons played _ ih =>
      obtain ⟨first, others⟩ := List.forall_mem_cons.mp goesOn
      exact .more played first (ih plays others)

theorem PlaysOut.gives {error : Option Error}
    (plays : PlaysOut stopOn48k tape edges left error) :
    tape.Gives edges left := by
  induction plays with
  | stop played stops => exact .cons played (.nil _)
  | failure failed => exact .nil _
  | more played goesOn _ ih => exact .cons played ih

/-- A reader gives the pulses of all these edges, and then it is known how they
ended. -/
theorem PlaysOut.yieldsAll {error : Option Error}
    (plays : PlaysOut stopOn48k tape edges left error)
    (plain : ∀ edge ∈ edges, edge.Plain) :
    ∃ patience last, YieldsAll patience (ofTape tape stopOn48k) (pulsesOf edges) last ∧
      last.tape = left ∧ last.done = true ∧ last.error = error := by
  induction plays with
  | @stop tape left edge played stops =>
      obtain ⟨notices, step⟩ :=
        @step_plain (ofTape tape stopOn48k) edge left rfl (plain edge List.mem_cons_self) played
      rw [show edge.stops (ofTape tape stopOn48k).stopOn48k = true from stops] at step
      have all := yieldsAll_of_step rfl step rfl rfl
      rw [pulsesOf_cons]
      exact ⟨1, _, by simpa [pulsesOf] using all, rfl, rfl, rfl⟩
  | @failure tape error failed =>
      have step := @step_error (ofTape tape stopOn48k) error failed
      exact ⟨1, _, yieldsAll_of_step rfl step rfl rfl, rfl, rfl, rfl⟩
  | more played goesOn _ ih =>
      obtain ⟨first, others⟩ := List.forall_mem_cons.mp plain
      obtain ⟨patience, last, yields, there, done, fine⟩ := ih others
      obtain ⟨next, step, alike⟩ := step_goesOn first played goesOn
      obtain ⟨final, yields, same⟩ := yields.alike alike
      rw [pulsesOf_cons]
      refine ⟨patience + 1, final, yields.after_step rfl step, ?_, ?_, ?_⟩
      · rw [same.tape, there]
      · rw [same.done, done]
      · rw [same.error, fine]

end ZxMedia.PulseReader
