import ZxMedia.Proofs.Tape.Visits

/-!
# Calls

A call sequence visits its subroutines in turn, each from the block at an offset from
the sequence up to the first return behind it. The return leads to the next subroutine
of the sequence, wherever it stands itself, so that subroutines may overlap, lie in
front of the sequence or share a return. From the last one it leads to the block behind
the sequence.
-/

namespace ZxMedia.Tape

/-- Blocks from one index up to another one. -/
structure Span where
  start : Nat
  stop : Nat

/-- The indices of the blocks. -/
def Span.indices (span : Span) : List Nat :=
  List.range' span.start (span.stop + 1 - span.start)

/-- The blocks are a subroutine: they lead on to the next one, up to the first
return. -/
structure Subroutine (tape : Tape) (span : Span) : Prop where
  ordered : span.start ≤ span.stop
  returns : tape.block? span.stop = some .callReturn
  body : ∀ index block, span.start ≤ index → index < span.stop →
    tape.block? index = some block → block.LeadsOn

/-- An offset from a block leads to a subroutine. -/
structure Calls (tape : Tape) (origin : Nat) (offset : Int16) (span : Span) : Prop
    extends tape.Subroutine span where
  leads : (span.start : Int) = origin + offset.toInt

variable {tape base : Tape} {control : Control} {origin next : Nat} {offset : Int16}
variable {offsets : Array Int16} {span : Span}

theorem Subroutine.indices_eq (subroutine : base.Subroutine span) :
    span.indices = List.range' span.start (span.stop - span.start) ++ [span.stop] := by
  have ordered := subroutine.ordered
  have long : span.stop + 1 - span.start = span.stop - span.start + 1 := by omega
  have reaches : span.start + (span.stop - span.start) = span.stop := by omega
  rw [Span.indices, long, List.range'_1_concat, reaches]

theorem Subroutine.inside (subroutine : base.Subroutine span) : span.start < base.size :=
  Nat.lt_of_le_of_lt subroutine.ordered (lt_size_of_block? subroutine.returns)

theorem Subroutine.visits_body (subroutine : base.Subroutine span)
    (here : tape.At base control span.start) :
    ∃ after,
      tape.Visits ((List.range' span.start (span.stop - span.start)).map base.visit) after ∧
      after.At base control span.stop := by
  have ordered := subroutine.ordered
  have inside := lt_size_of_block? subroutine.returns
  have reaches : span.start + (span.stop - span.start) = span.stop := by omega
  obtain ⟨after, visits, reached⟩ := @At.visits_onward tape base control span.start
    (span.stop - span.start) here (by omega) fun index block behind before =>
      subroutine.body index block behind (by omega)
  rw [reaches] at reached
  exact ⟨after, visits, reached⟩

/-! ## Where a sequence and its returns lead -/

/-- The offset is taken from the sequence, whichever block is played. -/
theorem Calls.target (calls : base.Calls origin offset span)
    (blocks : tape.blocks = base.blocks) :
    tape.target origin offset = .ok span.start := by
  have inside : span.start < tape.size := size_eq_of_blocks blocks ▸ calls.inside
  have leads := calls.leads
  unfold Tape.target
  dsimp only
  rw [if_pos (by omega), ← leads, Int.toNat_natCast]

/-- A sequence leads to its first subroutine. -/
theorem Calls.atEnd_callSequence (calls : base.Calls origin offset span)
    (blocks : tape.blocks = base.blocks) (first : offsets[0]? = some offset) :
    tape.atEnd origin (.callSequence offsets) =
      .ok ({ tape.toControl with call := some ⟨origin, 1⟩ }, .to span.start) := by
  unfold atEnd
  dsimp only
  rw [first]
  dsimp only
  rw [calls.target blocks]
  rfl

/-- A return leads to the next subroutine of the sequence. -/
theorem Calls.atEnd_callReturn (calls : base.Calls origin offset span)
    (blocks : tape.blocks = base.blocks)
    (sequence : base.block? origin = some (.callSequence offsets))
    (more : offsets[next]? = some offset)
    (calling : tape.toControl = { control with call := some ⟨origin, next⟩ })
    (index : Nat) :
    tape.atEnd index .callReturn =
      .ok ({ control with call := some ⟨origin, next + 1⟩ }, .to span.start) := by
  have there := (block?_eq_of_blocks blocks origin).trans sequence
  unfold atEnd returnFrom
  simp only [there, more, calls.target blocks, calling]
  rfl

/-- The last return leads to the block behind the sequence. -/
theorem atEnd_callReturn_last (blocks : tape.blocks = base.blocks)
    (sequence : base.block? origin = some (.callSequence offsets))
    (spent : offsets[next]? = none)
    (calling : tape.toControl = { control with call := some ⟨origin, next⟩ })
    (index : Nat) :
    tape.atEnd index .callReturn =
      .ok ({ control with call := none }, .onTo (origin + 1)) := by
  have there := (block?_eq_of_blocks blocks origin).trans sequence
  unfold atEnd returnFrom
  simp only [there, spent, calling]

/-! ## Subroutines in turn -/

/-- From one subroutine of a sequence the others are visited in turn, up to the return
of the last one. The induction is on the subroutines that are still to be called. -/
theorem Subroutine.visits_others {spans : List Span} (subroutine : base.Subroutine span)
    (sequence : base.block? origin = some (.callSequence offsets))
    (calls : List.Forall₂ (base.Calls origin) (offsets.toList.drop next) spans)
    (here : tape.At base { control with call := some ⟨origin, next⟩ } span.start) :
    ∃ before last after next,
      before ++ [last] = (span :: spans).flatMap Span.indices ∧
      tape.Visits (before.map base.visit) after ∧
      base.block? last = some .callReturn ∧ offsets[next]? = none ∧
      after.At base { control with call := some ⟨origin, next⟩ } last := by
  obtain ⟨middle, body, there⟩ := subroutine.visits_body here
  generalize ahead : offsets.toList.drop next = later at calls
  induction calls generalizing tape span next middle with
  | nil =>
      refine ⟨_, span.stop, middle, next, ?_, body, subroutine.returns, ?_, there⟩
      · rw [List.flatMap_singleton, subroutine.indices_eq]
      · rw [Array.getElem?_eq_none_iff, ← Array.length_toList]
        exact List.drop_eq_nil_iff.mp ahead
  | @cons offset called later spans first rest ih =>
      have more : offsets[next]? = some offset := by
        rw [← Array.getElem?_toList, ← List.head?_drop, ahead]
        rfl
      have behind : offsets.toList.drop (next + 1) = later := by
        rw [← List.tail_drop, ahead]
        rfl
      obtain ⟨begun, back, reached⟩ := there.visits_on subroutine.returns
        (first.atEnd_callReturn there.blocks sequence more there.control span.stop) first.inside
      obtain ⟨left, onward, at_⟩ := first.visits_body reached
      obtain ⟨before, last, after, final, order, visits, returns, spent, ended⟩ :=
        ih first.toSubroutine reached left onward at_ behind
      refine ⟨List.range' span.start (span.stop - span.start) ++ span.stop :: before,
        last, after, final, ?_, ?_, returns, spent, ended⟩
      · rw [List.flatMap_cons, ← order, subroutine.indices_eq]
        simp only [List.append_assoc, List.cons_append, List.nil_append]
      · rw [List.map_append, List.map_cons]
        exact body.append (back.append visits)

/-- From a call sequence its subroutines are visited in turn, each once. Every visit
gives what the block gives when it is played once, but for the last one at the end of
the tape, with which the tape ends and stops. Then no call is in progress, and the
cursor is at the block behind the sequence or at the first one. -/
theorem visits_calls {spans : List Span} (here : tape.current = some origin)
    (sequence : tape.block? origin = some (.callSequence offsets))
    (filled : offsets ≠ #[])
    (calls : List.Forall₂ (tape.Calls origin) offsets.toList spans) :
    ∃ before last after,
      before ++ [last] = origin :: spans.flatMap Span.indices ∧
      (let ended := decide (origin + 1 = tape.size)
       tape.Visits
        (before.map tape.visit ++
          [⟨last, [⟨0, { noEdge := true, block := true, stop := ended, tape := ended }⟩]⟩]) after) ∧
      (∀ index ∈ before, ∀ edge ∈ (tape.visit index).edges, edge.flags.tape = false) ∧
      after.call = none ∧
      after.current = some (if origin + 1 = tape.size then 0 else origin + 1) := by
  have inside := lt_size_of_block? sequence
  have ready : tape.At tape tape.toControl origin :=
    at_of_still here sequence fun _ => rfl
  generalize all : offsets.toList = list at calls
  cases calls with
  | nil => exact absurd (Array.toList_eq_nil_iff.mp all) filled
  | @cons offset span later spans first rest =>
      have head : offsets[0]? = some offset := by
        rw [← Array.getElem?_toList, all]
        rfl
      have behind : offsets.toList.drop 1 = later := by rw [all]; rfl
      obtain ⟨begun, opening, there⟩ := ready.visits_on sequence
        (first.atEnd_callSequence rfl head) first.inside
      obtain ⟨before, last, middle, final, order, visits, returns, spent, reached⟩ :=
        first.toSubroutine.visits_others sequence (behind ▸ rest) there
      obtain ⟨after, closing, current, control⟩ := reached.visits_last returns rfl
        (atEnd_callReturn_last reached.blocks sequence spent reached.control last) inside
      have uncalled : after.call = none := by
        split at control <;> rw [control]
      refine ⟨origin :: before, last, after, ?_, ?_,
        fun index _ => tape.tape_visit index, uncalled, current⟩
      · rw [List.cons_append, order]
      · exact (opening.append visits).append closing

/-- Operations that lead to a call sequence at the end of a tape. Its subroutines lie in
front of it, overlap and share a return, and a tone in the first one had been played
halfway. -/
def overlapping : List Operation :=
  [.extend [.ofBlock (.pureTone 500 1), ⟨.pureTone 300 2, (1 : Nat)⟩, .ofBlock .callReturn,
      .ofBlock (.callSequence #[-3, -2])],
    .select 3]

theorem visits_calls_overlapping :
    (run {} overlapping).current = some 3 ∧
    (run {} overlapping).block? 3 = some (.callSequence #[-3, -2]) ∧
    List.Forall₂ ((run {} overlapping).Calls 3) [-3, -2] [⟨0, 2⟩, ⟨1, 2⟩] ∧
    ∃ after,
      (let control : List Edge := [⟨0, { noEdge := true, block := true }⟩]
       let high : List Edge := [⟨500, { block := true }⟩]
       let low : List Edge := [⟨300, {}⟩, ⟨300, { block := true }⟩]
       let ended : List Edge :=
         [⟨0, { noEdge := true, block := true, stop := true, tape := true }⟩]
       (run {} overlapping).Visits
        [⟨3, control⟩, ⟨0, high⟩, ⟨1, low⟩, ⟨2, control⟩, ⟨1, low⟩, ⟨2, ended⟩] after) ∧
      after.call = none ∧ after.current = some 0 := by
  have tones : ∀ index block, index < 2 → (run {} overlapping).block? index = some block →
      block.LeadsOn := by
    intro index block before found
    have either : index = 0 ∨ index = 1 := by omega
    rcases either with rfl | rfl
    · obtain rfl : Block.pureTone 500 1 = block := Option.some.inj found
      decide
    · obtain rfl : Block.pureTone 300 2 = block := Option.some.inj found
      decide
  have first : (run {} overlapping).Calls 3 (-3) ⟨0, 2⟩ :=
    ⟨⟨by decide, rfl, fun index block _ => tones index block⟩, by decide⟩
  have second : (run {} overlapping).Calls 3 (-2) ⟨1, 2⟩ :=
    ⟨⟨by decide, rfl, fun index block _ => tones index block⟩, by decide⟩
  have calls : List.Forall₂ ((run {} overlapping).Calls 3) [-3, -2] [⟨0, 2⟩, ⟨1, 2⟩] :=
    .cons first (.cons second .nil)
  obtain ⟨before, last, after, order, visits, -, uncalled, current⟩ :=
    @visits_calls (run {} overlapping) 3 #[-3, -2] _ rfl rfl (by decide) calls
  obtain ⟨rfl, same⟩ : before = [3, 0, 1, 2, 1] ∧ [last] = [2] :=
    List.append_inj' order rfl
  obtain rfl : last = 2 := List.singleton_inj.mp same
  exact ⟨rfl, rfl, calls, after, visits, uncalled, current⟩

end ZxMedia.Tape
