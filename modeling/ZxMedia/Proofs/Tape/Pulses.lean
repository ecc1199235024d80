import ZxMedia.Proofs.Tape.Underway

/-!
# Pulses of tapes that operations lead to

A reader merges an interval that ends without an edge into the next pulse. On a tape
that operations lead to there is nothing to merge, as such an interval takes no time:
the pulses are the intervals that take time, in the order of the tape, up to the one
with which the tape stops or up to an error.

A tape may also never stop. What a reader has given is told from the edges up to where
it is then (`Follows.given`), and of the edges up to any point it gives all pulses
(`yields_of_gives`).
-/

namespace ZxMedia

namespace PulseReader

variable {reader after : PulseReader} {patience tstates : Nat} {pulses : List Nat}
variable {tape left : Tape} {edges : List Edge} {stopOn48k : Bool} {turn : Turn}

/-- The reader has come to this tape between two pulses and without an error. It may
have stopped there. -/
structure Follows (tape : Tape) (stopOn48k done : Bool)
    (reader : PulseReader) : Prop where
  there : reader.tape = tape
  option : reader.stopOn48k = stopOn48k
  stopped : reader.done = done
  settled : reader.pending = 0
  fine : reader.error = none

theorem follows_ofTape (tape : Tape) (stopOn48k : Bool) :
    Follows tape stopOn48k false (ofTape tape stopOn48k) :=
  ⟨rfl, rfl, rfl, rfl, rfl⟩

/-- A reader that has stopped between two pulses gives no more of them. -/
theorem not_pulse_of_done (done : reader.done = true) (settled : reader.pending = 0) :
    reader.next patience ≠ (.pulse tstates, after) := by
  rw [next_finished done settled]
  simp

/-- The next interval fails, or it is a pulse if it takes time, and the reader stops if
the tape does. -/
theorem Follows.step {answer : Option Nat} (follows : reader.Follows tape stopOn48k false)
    (underway : tape.Underway) (stepped : reader.step = (answer, after)) :
    (answer = none ∧ after.done = true ∧ after.pending = 0) ∨
      ∃ edge left, tape.nextEdge = .ok (edge, left) ∧ left.Underway ∧
        answer = pulseOf edge ∧
        after.Follows left stopOn48k (edge.stops stopOn48k) := by
  obtain ⟨rfl, rfl, playing, settled, fine⟩ := follows
  cases played : reader.tape.nextEdge with
  | error error =>
      rw [step_error played] at stepped
      cases stepped
      exact .inl ⟨rfl, rfl, settled⟩
  | ok outcome =>
      obtain ⟨edge, left⟩ := outcome
      obtain ⟨plain, later⟩ := underway.nextEdge played
      obtain ⟨notices, step⟩ := step_plain settled plain played
      rw [stepped] at step
      cases step
      refine .inr ⟨edge, left, rfl, later, rfl, rfl, rfl, ?_, settled, fine⟩
      rw [playing, Bool.false_or]

/-- A pulse is the next interval that takes time. -/
theorem Follows.turns (follows : reader.Follows tape stopOn48k false)
    (underway : tape.Underway)
    (turns : Turns patience reader turn after) (pulse : turn = .pulse tstates) :
    ∃ front middle edge left, tape.Passes stopOn48k front middle ∧
      middle.nextEdge = .ok (edge, left) ∧ left.Underway ∧ pulseOf edge = some tstates ∧
        after.Follows left stopOn48k (edge.stops stopOn48k) := by
  induction turns generalizing tape with
  | done stopped =>
      rw [follows.stopped] at stopped
      cases stopped
  | pulse playing step =>
      cases pulse
      rcases follows.step underway step with
          ⟨same, -, -⟩ | ⟨edge, left, played, later, same, at_⟩
      · cases same
      · exact ⟨[], tape, edge, left, .nil stopOn48k tape, played, later, same.symm, at_⟩
  | later playing step rest ih =>
      rcases follows.step underway step with ⟨-, stopped, settled⟩ |
        ⟨edge, left, played, later, same, at_⟩
      · subst pulse
        exact absurd rest.next (not_pulse_of_done stopped settled)
      · have instant : edge.tstates = 0 := by
          by_contra some
          simp [pulseOf, some] at same
        cases stops : edge.stops stopOn48k with
        | true =>
            subst pulse
            exact absurd rest.next (not_pulse_of_done (at_.stopped.trans stops) at_.settled)
        | false =>
            obtain ⟨front, middle, last, left, passes, others⟩ :=
              ih (stops ▸ at_) later pulse
            exact ⟨edge :: front, middle, last, left,
              .cons played ⟨instant, stops⟩ passes, others⟩

theorem pulsesOf_silent (silent : ∀ edge ∈ edges, edge.Silent stopOn48k) :
    pulsesOf edges = [] := by
  unfold pulsesOf
  simp only [List.filter_eq_nil_iff, List.mem_map]
  rintro _ ⟨edge, member, rfl⟩
  simp [(silent edge member).1]

/-- What a reader has given are the pulses of the edges up to where it is. If it has
stopped, these are all edges. -/
theorem Follows.given (follows : reader.Follows tape stopOn48k false)
    (underway : tape.Underway)
    (yields : Yields patience reader pulses after) :
    ∃ edges left done, pulses = pulsesOf edges ∧ tape.Gives edges left ∧
      after.Follows left stopOn48k done ∧
      (done = false ∧ (∀ edge ∈ edges, edge.stops stopOn48k = false) ∨
        done = true ∧ PlaysOut stopOn48k tape edges left none) := by
  induction yields generalizing tape with
  | nil reader => exact ⟨[], tape, false, rfl, .nil tape, follows, .inl ⟨rfl, nofun⟩⟩
  | @cons reader next after tstates pulses first later ih =>
      obtain ⟨front, middle, edge, left, passes, played, underway, pulse, there⟩ :=
        follows.turns underway (turns_of_next first (by simp)) rfl
      have goesOn : ∀ edge ∈ front, edge.stops stopOn48k = false :=
        fun edge member => (passes.silent edge member).2
      have gives : tape.Gives (front ++ [edge]) left :=
        passes.gives.append (.cons played (.nil left))
      have so_far : pulsesOf (front ++ [edge]) = [tstates] := by
        rw [pulsesOf_append, pulsesOf_silent passes.silent, pulsesOf_cons, pulse]
        rfl
      cases stops : edge.stops stopOn48k with
      | true =>
          have stopped := there.stopped.trans stops
          cases later with
          | nil =>
              refine ⟨front ++ [edge], left, true, so_far.symm, gives, stops ▸ there,
                .inr ⟨rfl, ?_⟩⟩
              exact (PlaysOut.stop played stops).behind passes.gives goesOn
          | cons second _ => exact absurd second (not_pulse_of_done stopped there.settled)
      | false =>
          obtain ⟨edges, final, done, rfl, rest, at_, ending⟩ :=
            ih (stops ▸ there) underway
          have goesOn : ∀ other ∈ front ++ [edge], other.stops stopOn48k = false := by
            intro other member
            rcases List.mem_append.mp member with before | last
            · exact goesOn other before
            · rw [List.mem_singleton.mp last]
              exact stops
          refine ⟨front ++ [edge] ++ edges, final, done, ?_, gives.append rest, at_, ?_⟩
          · rw [pulsesOf_append, so_far]
            rfl
          · rcases ending with ⟨playing, others⟩ | ⟨stopped, plays⟩
            · refine .inl ⟨playing, ?_⟩
              intro other member
              exact (List.mem_append.mp member).elim (goesOn other) (others other)
            · exact .inr ⟨stopped, plays.behind gives goesOn⟩

/-- Of edges with which the tape does not stop a reader gives all pulses. -/
theorem yields_of_gives (gives : tape.Gives edges left)
    (plain : ∀ edge ∈ edges, edge.Plain)
    (goesOn : ∀ edge ∈ edges, edge.stops stopOn48k = false) :
    ∃ patience reader, Yields patience (ofTape tape stopOn48k) (pulsesOf edges) reader ∧
      reader.done = false := by
  induction gives with
  | nil tape => exact ⟨0, _, .nil _, rfl⟩
  | cons played _ ih =>
      obtain ⟨first, plain⟩ := List.forall_mem_cons.mp plain
      obtain ⟨stays, goesOn⟩ := List.forall_mem_cons.mp goesOn
      obtain ⟨patience, reader, yields, playing⟩ := ih plain goesOn
      obtain ⟨next, step, alike⟩ := step_goesOn first played stays
      obtain ⟨reached, yields, same⟩ := yields.alike alike
      obtain ⟨last, yields, place⟩ := yields.after_step rfl step
      rw [pulsesOf_cons]
      refine ⟨patience + 1, last, yields, ?_⟩
      rcases place with rfl | rfl
      · exact same.done.trans playing
      · rfl

/-- Of every tape that operations lead to a reader gives the intervals that take time,
in order, up to the one with which the tape stops or up to an error, and then no more:
it is where the last edge led, and has the error only then. If the tape never stops the
reader gives the pulses of all its edges. Whatever was given came from the edges up to
where the reader is. -/
theorem yields_edges (reached : tape.Reachable) (stopOn48k : Bool) :
    (∀ edges left, tape.Gives edges left →
      ∀ edge ∈ edges, edge.flags.noEdge = true → edge.tstates = 0) ∧
    (∀ edges left error, PlaysOut stopOn48k tape edges left error →
      ∃ patience last, YieldsAll patience (ofTape tape stopOn48k) (pulsesOf edges) last ∧
        (pulsesOf edges).sum = (edges.map Edge.tstates).sum ∧ last.tape = left ∧
        last.done = true ∧ last.error = error ∧ ∀ more, last.next more = (.finished, last)) ∧
    (∀ edges left, tape.Gives edges left → (∀ edge ∈ edges, edge.stops stopOn48k = false) →
      ∃ patience reader, Yields patience (ofTape tape stopOn48k) (pulsesOf edges) reader ∧
        reader.done = false) ∧
    ∀ patience pulses reader, Yields patience (ofTape tape stopOn48k) pulses reader →
      reader.error = none ∧
      ∃ edges, tape.Gives edges reader.tape ∧ pulses = pulsesOf edges ∧
        (reader.done = false ∧ (∀ edge ∈ edges, edge.stops stopOn48k = false) ∨
          reader.done = true ∧ PlaysOut stopOn48k tape edges reader.tape none) := by
  have underway := reached.underway
  refine ⟨?_, ?_, ?_, ?_⟩
  · intro edges left gives edge member noEdge
    apply ((underway.gives gives).1 edge member).instant
    rw [Edge.isEdge, noEdge]
    rfl
  · intro edges left error plays
    obtain ⟨patience, last, yields, there, done, ended⟩ :=
      plays.yieldsAll (underway.gives plays.gives).1
    have settled : last.pending = 0 := by
      obtain ⟨_, -, finished⟩ := yields
      exact (next_answers finished (by simp)).settled
    exact ⟨patience, last, yields, sum_pulsesOf edges, there, done, ended,
      next_finished done settled⟩
  · intro edges left gives goesOn
    exact yields_of_gives gives (underway.gives gives).1 goesOn
  · intro patience pulses reader yields
    obtain ⟨edges, left, done, same, gives, at_, ending⟩ :=
      (follows_ofTape tape stopOn48k).given underway yields
    obtain ⟨rfl, -, rfl, -, fine⟩ := at_
    exact ⟨fine, edges, gives, same, ending⟩

/-- A tone, pulses of which one takes no time, a block that stops one of the machines,
and a jump that leads off the tape. -/
def fork : Tape :=
  .ofBlocks [.pureTone 100 1, .pulses #[0, 50], .stopIf48k, .jump 5]

theorem yields_edges_fork :
    fork.Reachable ∧
      (∃ patience last, YieldsAll patience (ofTape fork true) [100, 50] last ∧
        last.tape.current = some 3 ∧ last.error = none) ∧
      ∃ patience last, YieldsAll patience (ofTape fork false) [100, 50] last ∧
        last.tape.current = some 3 ∧
        last.error = some (.corrupt (.jumpOutside 3 5 4)) := by
  have reached : fork.Reachable := Tape.reachable_ofBlocks (by simp [Block.SamplesFit])
  obtain ⟨-, early, -, -⟩ := yields_edges reached true
  obtain ⟨-, late, -, -⟩ := yields_edges reached false
  obtain ⟨patience, last, pulses, -, there, -, fine, -⟩ :=
    early _ _ _ (.more rfl rfl (.more rfl rfl (.more rfl rfl (.stop rfl rfl))))
  obtain ⟨enough, final, others, -, here, -, failed, -⟩ :=
    late _ _ _ (.more rfl rfl (.more rfl rfl (.more rfl rfl (.more rfl rfl (.failure rfl)))))
  refine ⟨reached, ⟨patience, last, pulses, ?_, fine⟩, enough, final, others, ?_, failed⟩
  · rw [there]
    rfl
  · rw [here]
    rfl

end PulseReader

end ZxMedia
