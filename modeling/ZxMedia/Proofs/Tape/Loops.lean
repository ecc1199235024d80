import ZxMedia.Proofs.Tape.Visits

/-!
# Loops

A loop is played as many times as its first block says, and once if that is no time at
all. The first block itself is played once. All this does not depend on what was in
progress before, as the first block forgets it, and when the loop is over nothing is
left of it.

The count runs down to one, which is where the last round begins, so it is the rounds in
front of the last one that are counted (`Loop.rounds`).
-/

namespace ZxMedia.Tape

/-- The blocks from one index to another are a loop: the blocks between its ends lead on
to the next one. -/
structure Loop (tape : Tape) (first last : Nat) (count : UInt16) : Prop where
  begins : tape.block? first = some (.loopStart count)
  ends : tape.block? last = some .loopEnd
  ahead : first < last
  body : ∀ index block, first < index → index < last → tape.block? index = some block →
    block.LeadsOn

variable {tape base : Tape} {control : Control} {first last index start : Nat}
    {count : UInt16}

/-- The end of a loop leads back as long as more than one time is left. -/
theorem atEnd_loopEnd_again {times : Nat}
    (begun : tape.toControl =
      { control with loopBlock := some start, loopCount := times + 2 }) :
    tape.atEnd index .loopEnd =
      .ok ({ control with loopBlock := some start, loopCount := times + 1 }, .to start) := by
  unfold atEnd
  rw [begun]
  rfl

theorem atEnd_loopEnd_over {times : Nat} (few : times ≤ 1)
    (begun : tape.toControl = { control with loopBlock := some start, loopCount := times }) :
    tape.atEnd index .loopEnd =
      .ok ({ control with loopBlock := none, loopCount := 0 }, .onTo (index + 1)) := by
  unfold atEnd
  rw [begun]
  dsimp only
  rw [if_neg (Nat.not_lt.mpr few)]

namespace Loop

/-- The indices of one round. -/
theorem round_eq (loop : base.Loop first last count) :
    List.range' (first + 1) (last - first) =
      List.range' (first + 1) (last - first - 1) ++ [last] := by
  have ahead := loop.ahead
  have long : last - first = last - first - 1 + 1 := by omega
  have end_ : first + 1 + (last - first - 1) = last := by omega
  rw [long, List.range'_1_concat, end_, ← long]

theorem visits_body (loop : base.Loop first last count)
    (here : tape.At base control (first + 1)) :
    ∃ after, tape.Visits ((List.range' (first + 1) (last - first - 1)).map base.visit) after ∧
      after.At base control last := by
  have ahead := loop.ahead
  have inside := lt_size_of_block? loop.ends
  have reaches : first + 1 + (last - first - 1) = last := by omega
  obtain ⟨after, visits, reached⟩ := @At.visits_onward tape base control (first + 1)
    (last - first - 1) here (by omega) fun index block behind before =>
      loop.body index block (by omega) (by omega)
  rw [reaches] at reached
  exact ⟨after, visits, reached⟩

/-- All rounds but the last one are played to the end of the loop, and the last one up
to it. The induction is on the times that are left, of which every round takes one. -/
theorem rounds (loop : base.Loop first last count) (times : Nat)
    (here : tape.At base { control with loopBlock := some (first + 1), loopCount := times }
      (first + 1)) :
    ∃ after left, left ≤ 1 ∧
      tape.Visits
        (((List.replicate (times - 1) (List.range' (first + 1) (last - first))).flatten ++
          List.range' (first + 1) (last - first - 1)).map base.visit) after ∧
      after.At base { control with loopBlock := some (first + 1), loopCount := left } last := by
  induction times generalizing tape with
  | zero =>
      obtain ⟨after, body, there⟩ := loop.visits_body here
      exact ⟨after, 0, Nat.zero_le 1, body, there⟩
  | succ times ih =>
      obtain ⟨middle, body, there⟩ := loop.visits_body here
      cases times with
      | zero => exact ⟨middle, 1, Nat.le_refl 1, body, there⟩
      | succ times =>
          have inside := lt_size_of_block? loop.ends
          obtain ⟨again, back, begun⟩ := there.visits_on loop.ends
            (atEnd_loopEnd_again there.control) (Nat.lt_of_le_of_lt loop.ahead inside)
          obtain ⟨after, left, few, later, reached⟩ := ih begun
          refine ⟨after, left, few, ?_, reached⟩
          rw [Nat.add_sub_cancel, loop.round_eq] at later ⊢
          rw [List.replicate_succ, List.flatten_cons, List.append_assoc,
            List.append_assoc, List.map_append, List.map_append]
          exact body.append (back.append later)

end Loop

/-- From its first block a loop is played as often as the block says, and at least once.
Every visit gives what the block gives when it is played once, but for the last one at
the end of the tape, with which the tape ends and stops. Then no loop is in progress,
and the cursor is at the block behind the loop or at the first one. -/
theorem visits_loop (loop : tape.Loop first last count)
    (here : tape.current = some first) :
    ∃ before after,
      before ++ [last] =
        first :: (List.replicate (max count.toNat 1)
          (List.range' (first + 1) (last - first))).flatten ∧
      (let ended := decide (last + 1 = tape.size)
       tape.Visits
        (before.map tape.visit ++
          [⟨last, [⟨0, { noEdge := true, block := true, stop := ended, tape := ended }⟩]⟩]) after) ∧
      (∀ index ∈ before, ∀ edge ∈ (tape.visit index).edges, edge.flags.tape = false) ∧
      after.loopBlock = none ∧ after.loopCount = 0 ∧
      after.current = some (if last + 1 = tape.size then 0 else last + 1) := by
  have inside := lt_size_of_block? loop.ends
  have ready : tape.At tape tape.toControl first :=
    at_of_still here loop.begins fun _ => rfl
  obtain ⟨begun, opening, there⟩ := ready.visits_on loop.begins rfl
    (Nat.lt_of_le_of_lt loop.ahead inside)
  obtain ⟨middle, left, few, rounds, reached⟩ := loop.rounds count.toNat there
  obtain ⟨after, closing, current, control⟩ := reached.visits_last loop.ends rfl
    (atEnd_loopEnd_over few reached.control) inside
  have loopless : after.loopBlock = none ∧ after.loopCount = 0 := by
    split at control <;> rw [control] <;> exact ⟨rfl, rfl⟩
  refine ⟨first :: ((List.replicate (count.toNat - 1)
      (List.range' (first + 1) (last - first))).flatten ++
        List.range' (first + 1) (last - first - 1)), after, ?_, ?_,
    fun index _ => tape.tape_visit index, loopless.1, loopless.2, current⟩
  · have times : max count.toNat 1 = count.toNat - 1 + 1 := by omega
    rw [times, List.replicate_succ', List.flatten_append,
      List.flatten_singleton, List.cons_append, List.append_assoc, ← loop.round_eq]
  · exact (opening.append rounds).append closing

/-- Operations that leave a tape in one loop and at the beginning of another one, which
is played twice and ends with the tape. -/
def entered : List Operation :=
  [.extend [.ofBlock (.loopStart 5), .ofBlock (.pureTone 500 2), .ofBlock (.loopStart 2),
      .ofBlock (.pulses #[300, 700]), .ofBlock .loopEnd],
    .nextEdge, .select 2]

theorem visits_loop_entered :
    (run {} entered).loopBlock = some 1 ∧ (run {} entered).loopCount = 5 ∧
    (run {} entered).current = some 2 ∧ (run {} entered).Loop 2 4 2 ∧
    ∃ after,
      (let control : List Edge := [⟨0, { noEdge := true, block := true }⟩]
       let pulses : List Edge := [⟨300, {}⟩, ⟨700, { block := true }⟩]
       let ended : List Edge :=
         [⟨0, { noEdge := true, block := true, stop := true, tape := true }⟩]
       (run {} entered).Visits [⟨2, control⟩, ⟨3, pulses⟩, ⟨4, control⟩, ⟨3, pulses⟩, ⟨4, ended⟩]
        after) ∧
      after.loopBlock = none ∧ after.loopCount = 0 ∧ after.current = some 0 := by
  have loop : (run {} entered).Loop 2 4 2 := by
    refine ⟨rfl, rfl, by decide, ?_⟩
    intro index block behind before found
    obtain rfl : index = 3 := by omega
    obtain rfl : Block.pulses #[300, 700] = block := Option.some.inj found
    decide
  obtain ⟨before, after, order, visits, -, loopless, uncounted, current⟩ :=
    visits_loop loop rfl
  obtain rfl : before = [2, 3, 4, 3] := List.append_cancel_right order
  exact ⟨rfl, rfl, rfl, loop, after, visits, loopless, uncounted, current⟩

end ZxMedia.Tape
