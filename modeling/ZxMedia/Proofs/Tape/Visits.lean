import ZxMedia.Proofs.Tape.Waveform

/-!
# Blocks played one after another

Played from its beginning a block gives the same intervals wherever it is on a tape and
whatever was played before (`Block.edges`). While a tape is played, its cursor visits
one block after another, and a visit lasts up to the first interval with which a block
ends (`Tape.Visits`).

Where a block begins, the tape is known by its blocks and by what control blocks have
begun (`Tape.At`). From there the block is visited, and the end of the block tells which
one is visited next. Blocks that are not about control lead on to the one behind them.
-/

namespace ZxMedia

/-! ## What a block gives -/

namespace Track

variable {track after : Track} {config : PlaybackConfig} {steps : List Step}

/-- The steps of a block up to its end, of which there are at most so many. -/
def stepsWithin (config : PlaybackConfig) : Nat → Track → List Step
  | 0, _ => []
  | count + 1, track =>
    let (step, played) := track.step config
    if step.ends then [step] else step :: stepsWithin config count played

theorem Playable.plays_stepsWithin (playable : track.Playable) (config : PlaybackConfig)
    {count : Nat} (enough : track.stepsBound < count) :
    ∃ after, track.Plays config (track.stepsWithin config count) after := by
  induction count generalizing track with
  | zero => cases enough
  | succ count ih =>
      rcases stepped : track.step config with ⟨step, played⟩
      cases ends : step.ends with
      | true =>
          refine ⟨played, ?_⟩
          simp only [stepsWithin, stepped, ends, if_true]
          exact .last stepped ends
      | false =>
          have fewer := playable.ends_or_stepsBound_lt config
          have playable := playable.step config
          simp only [stepped, ends, Bool.false_eq_true, false_or] at fewer playable
          obtain ⟨after, later⟩ := ih playable (by omega)
          refine ⟨after, ?_⟩
          simp only [stepsWithin, stepped, ends, Bool.false_eq_true, if_false]
          exact .more stepped ends later

theorem Plays.unmarked (plays : track.Plays config steps after) :
    ∀ step ∈ steps, step.flags.block = false ∧ step.flags.tape = false := by
  have kept (track : Track) := Tape.unmarked_step track config
  induction plays with
  | @last track after step played ends =>
      intro other member
      have same := kept track
      rw [played] at same
      rwa [List.mem_singleton.mp member]
  | @more track middle after step steps played goesOn later ih =>
      intro other member
      rcases List.mem_cons.mp member with rfl | rest
      · have same := kept track
        rwa [played] at same
      · exact ih other rest

/-- There is only one way to play a block. -/
theorem Plays.unique {other : List Step} {last : Track}
    (plays : track.Plays config steps after)
    (again : track.Plays config other last) : steps = other ∧ after = last := by
  induction plays generalizing other with
  | last played ends =>
      cases again with
      | last once =>
          rw [played] at once
          cases once
          exact ⟨rfl, rfl⟩
      | more once goesOn =>
          rw [played] at once
          cases once
          rw [ends] at goesOn
          cases goesOn
  | more played goesOn _ ih =>
      cases again with
      | last once ends =>
          rw [played] at once
          cases once
          rw [ends] at goesOn
          cases goesOn
      | more once _ later =>
          rw [played] at once
          cases once
          obtain ⟨same, rfl⟩ := ih later
          exact ⟨congrArg _ same, rfl⟩

theorem Plays.ne_nil (plays : track.Plays config steps after) : steps ≠ [] := by
  cases plays <;> exact List.cons_ne_nil _ _

end Track

namespace Block

/-- The steps of a block that is played from its beginning to its end. -/
def steps (block : Block) (config : PlaybackConfig) : List Step :=
  let track := (Track.ofBlock block).cue
  track.stepsWithin config (track.stepsBound + 1)

/-- The intervals of a block that is played once, from its beginning to its end. -/
def edges (block : Block) (config : PlaybackConfig) : List Edge :=
  Step.edges (fun flags => { flags with block := true }) (block.steps config)

theorem plays_steps (block : Block) (config : PlaybackConfig) :
    ∃ last, (Track.ofBlock block).cue.Plays config (block.steps config) last :=
  (Track.playable_cue _).plays_stepsWithin config (Nat.lt_succ_self _)

theorem tape_edges (block : Block) (config : PlaybackConfig) :
    ∀ edge ∈ block.edges config, edge.flags.tape = false := by
  obtain ⟨_, plays⟩ := block.plays_steps config
  have unmarked := plays.unmarked
  obtain ⟨front, last, same⟩ := (List.eq_nil_or_concat' _).resolve_left plays.ne_nil
  intro edge member
  rw [edges, same, Step.edges_concat, List.mem_append, List.mem_singleton] at member
  rw [same] at unmarked
  rcases member with earlier | rfl
  · obtain ⟨step, there, rfl⟩ := List.mem_map.mp earlier
    exact (unmarked step (List.mem_append_left _ there)).2
  · exact (unmarked last (List.mem_append_right _ (List.mem_singleton.mpr rfl))).2

/-- The block has nothing to do with jumps, loops and calls: it leads on to the next
one. -/
def LeadsOn (block : Block) : Prop :=
  block.kind ≠ .jump ∧ block.kind ≠ .loopStart ∧ block.kind ≠ .loopEnd ∧
    block.kind ≠ .callSequence ∧ block.kind ≠ .callReturn

instance (block : Block) : Decidable block.LeadsOn :=
  inferInstanceAs (Decidable (_ ∧ _))

end Block

/-- The intervals are those of one block: it ends with the last of them, and not
before. -/
def OneBlock (edges : List Edge) : Prop :=
  ∃ front last, edges = front ++ [last] ∧ last.flags.block = true ∧
    ∀ edge ∈ front, edge.flags.block = false

/-- The intervals of the steps of a block are those of one block. -/
theorem Track.Plays.oneBlock {track after : Track} {config : PlaybackConfig}
    {steps : List Step}
    {mark : EdgeFlags → EdgeFlags} (plays : track.Plays config steps after)
    (marks : ∀ flags, (mark flags).block = true) : OneBlock (Step.edges mark steps) := by
  have unmarked := plays.unmarked
  obtain ⟨front, last, rfl⟩ := (List.eq_nil_or_concat' steps).resolve_left plays.ne_nil
  refine ⟨front.map Step.edge, ⟨last.tstates, mark last.flags⟩,
    Step.edges_concat mark front last, marks last.flags, ?_⟩
  intro edge member
  obtain ⟨step, there, rfl⟩ := List.mem_map.mp member
  exact (unmarked step (List.mem_append_left _ there)).1

/-- One block that was played. -/
structure Visit where
  /-- The index of the block. -/
  index : Nat
  edges : List Edge

namespace Tape

/-- The tape gives the intervals of these blocks, one block after another. -/
inductive Visits : Tape → List Visit → Tape → Prop where
  | nil (tape : Tape) : Visits tape [] tape
  | cons {tape middle after : Tape} {index : Nat} {edges : List Edge} {visits : List Visit}
      (here : tape.current = some index) (first : tape.Gives edges middle)
      (whole : OneBlock edges) (later : Visits middle visits after) :
      Visits tape (⟨index, edges⟩ :: visits) after

theorem Visits.append {tape middle after : Tape} {front back : List Visit}
    (first : tape.Visits front middle) (later : middle.Visits back after) :
    tape.Visits (front ++ back) after := by
  induction first with
  | nil => exact later
  | cons here edges whole _ ih => exact .cons here edges whole (ih later)

/-- A visit of a block of the tape that leads to another block. -/
def visit (tape : Tape) (index : Nat) : Visit where
  index
  edges := (tape.block? index).elim [] fun block => block.edges tape.config

/-- The tape has the blocks of another one and is at the beginning of one of them. -/
structure At (tape base : Tape) (control : Control) (index : Nat) : Prop where
  blocks : tape.blocks = base.blocks
  config : tape.config = base.config
  control : tape.toControl = control
  current : tape.current = some index
  fresh : tape.Fresh

variable {tape base : Tape} {control next : Control} {index start length place : Nat}
variable {block : Block} {move : Move}

/-- Behind the last interval of a block the cursor has come to a block. -/
theorem arrived_of_oneBlock {after : Tape} {edges : List Edge}
    (gives : tape.Gives edges after)
    (whole : OneBlock edges) : after.Arrived := by
  obtain ⟨front, last, rfl, ended, -⟩ := whole
  obtain ⟨middle, -, final⟩ := gives.split
  cases final with
  | cons played later =>
      cases later
      exact .nextEdge played ended

theorem block?_eq_of_blocks {other : Tape} (blocks : tape.blocks = other.blocks)
    (index : Nat) :
    tape.block? index = other.block? index := by
  rw [block?_eq, block?_eq, blocks]

theorem lt_size_of_block? (found : tape.block? index = some block) :
    index < tape.size := by
  rw [block?_eq] at found
  rw [← length_blocks]
  exact (List.getElem?_eq_some_iff.mp found).1

theorem at_goTo (blocks : tape.blocks = base.blocks) (config : tape.config = base.config)
    (index : Nat) : (tape.goTo index).At base tape.toControl index where
  blocks := (blocks_goTo tape index).trans blocks
  config := config
  control := rfl
  current := rfl
  fresh := fresh_goTo tape index

theorem at_of_still (here : tape.current = some index)
    (found : tape.block? index = some block)
    (still : ∀ progress, progress = block.start) : tape.At tape tape.toControl index where
  blocks := rfl
  config := rfl
  control := rfl
  current := here
  fresh := by
    obtain ⟨⟨_, progress⟩, there, rfl⟩ := Option.map_eq_some_iff.mp found
    have track : tape.currentTrack? = some ⟨_, progress⟩ := by
      simp only [currentTrack?, here, Option.bind_some, there]
    rw [Fresh, track, still progress]
    rfl

theorem tape_visit (tape : Tape) (index : Nat) :
    ∀ edge ∈ (tape.visit index).edges, edge.flags.tape = false := by
  intro edge member
  unfold visit at member
  cases found : tape.block? index with
  | none =>
      rw [found] at member
      cases member
  | some block =>
      rw [found] at member
      exact block.tape_edges tape.config edge member

/-! ## Where the end of a block leads -/

theorem block_follow (tape : Tape) (move : Move) (flags : EdgeFlags) :
    (tape.follow move flags).1.block = true := by
  unfold follow
  rcases move with place | place
  · rfl
  · dsimp only
    split <;> rfl

theorem follow_inside (inside : move.place < tape.size) (flags : EdgeFlags) :
    tape.follow move flags = ({ flags with block := true }, tape.goTo move.place) := by
  rcases move with place | place
  · rfl
  · exact follow_onTo inside flags

/-- What control blocks have begun is kept up to the end of the tape. -/
theorem toControl_follow_next (inside : index < tape.size) (flags : EdgeFlags) :
    (tape.follow (.onTo (index + 1)) flags).2.toControl =
      if index + 1 = tape.size then {} else tape.toControl := by
  unfold follow
  dsimp only
  by_cases last : index + 1 = tape.size
  · rw [if_neg (by omega), if_pos last]
    rfl
  · rw [if_pos (by omega), if_neg last]
    rfl

theorem atEnd_of_leadsOn (leads : block.LeadsOn) (tape : Tape) (index : Nat) :
    tape.atEnd index block = .ok (tape.toControl, .onTo (index + 1)) := by
  obtain ⟨jump, loopStart, loopEnd, callSequence, callReturn⟩ := leads
  cases block with
  | jump => exact absurd rfl jump
  | loopStart => exact absurd rfl loopStart
  | loopEnd => exact absurd rfl loopEnd
  | callSequence => exact absurd rfl callSequence
  | callReturn => exact absurd rfl callReturn
  | _ => rfl

/-! ## Visits -/

namespace At

/-- From its beginning the block is played to its end, and the end of it is followed. -/
theorem visits_block (here : tape.At base control index)
    (found : base.block? index = some block)
    (ending : tape.atEnd index block = .ok (next, move)) :
    ∃ left : Tape,
      left.blocks = base.blocks ∧ left.config = base.config ∧ left.toControl = next ∧
      tape.Visits
        [⟨index, Step.edges (fun flags => (base.follow move flags).1) (block.steps base.config)⟩]
        (left.follow move {}).2 := by
  have there := (block?_eq_of_blocks here.blocks index).trans found
  have cued := here.fresh.track here.current there
  obtain ⟨inside, at_⟩ := Array.getElem?_eq_some_iff.mp cued
  obtain ⟨last, plays⟩ := block.plays_steps tape.config
  have gives := gives_block here.current cued (Track.playable_cue _) plays ending
  have same : (fun flags => (tape.follow move flags).1) = fun flags => (base.follow move flags).1 :=
    funext fun flags => follow_fst (size_eq_of_blocks here.blocks) move flags
  have whole := plays.oneBlock fun flags => block_follow base move flags
  rw [same, here.config] at gives
  rw [here.config] at whole
  have kept : last.block = tape.tracks[index].block := by rw [plays.block_eq, at_]
  refine ⟨(tape.putTrack index last).withControl next, ?_, here.config, rfl,
    .cons here.current gives whole (.nil _)⟩
  rw [blocks_withControl, @blocks_putTrack tape index last inside kept, here.blocks]

theorem visits_on (here : tape.At base control index)
    (found : base.block? index = some block)
    (ending : tape.atEnd index block = .ok (next, move))
    (inside : move.place < base.size) :
    ∃ after, tape.Visits [base.visit index] after ∧ after.At base next move.place := by
  obtain ⟨left, blocks, config, control, visits⟩ := here.visits_block found ending
  have size := size_eq_of_blocks blocks
  rw [follow_inside (size ▸ inside)] at visits
  refine ⟨left.goTo move.place, ?_, control ▸ at_goTo blocks config move.place⟩
  simp only [follow_inside inside] at visits
  simpa only [visit, found, Option.elim_some, Block.edges] using visits

/-- A block that takes no time is visited, and the cursor goes on behind a block of the
tape. -/
theorem visits_last (here : tape.At base control index)
    (found : base.block? index = some block)
    (quick : block.steps base.config = [.control {}])
    (ending : tape.atEnd index block = .ok (next, .onTo (place + 1)))
    (inside : place < base.size) :
    ∃ after,
      (let ended := decide (place + 1 = base.size)
       tape.Visits
        [⟨index, [⟨0, { noEdge := true, block := true, stop := ended, tape := ended }⟩]⟩] after) ∧
      after.current = some (if place + 1 = base.size then 0 else place + 1) ∧
      after.toControl = if place + 1 = base.size then {} else next := by
  obtain ⟨left, blocks, config, control, visits⟩ := here.visits_block found ending
  have size := size_eq_of_blocks blocks
  have within : place < left.size := size ▸ inside
  refine ⟨_, ?_, size ▸ follow_next_snd within {}, ?_⟩
  · simpa only [quick, Step.edges, follow_next_fst inside, Step.control, Bool.false_or]
      using visits
  · rw [toControl_follow_next within, size, control]

/-- Blocks that lead on to the next one are visited in order. -/
theorem visits_onward (here : tape.At base control start)
    (inside : start + length < base.size)
    (leadOn : ∀ index block, start ≤ index → index < start + length →
      base.block? index = some block → block.LeadsOn) :
    ∃ after, tape.Visits ((List.range' start length).map base.visit) after ∧
      after.At base control (start + length) := by
  induction length generalizing tape start with
  | zero => exact ⟨tape, .nil tape, here⟩
  | succ length ih =>
      have within : start < base.blocks.length := by
        rw [length_blocks]
        omega
      have found : base.block? start = some base.blocks[start] := by
        rw [block?_eq, List.getElem?_eq_getElem within]
      have leads := leadOn start _ (Nat.le_refl start) (by omega) found
      have ending := atEnd_of_leadsOn leads tape start
      rw [here.control] at ending
      obtain ⟨middle, first, there⟩ :=
        here.visits_on found ending (show start + 1 < base.size by omega)
      have next : start + (length + 1) = start + 1 + length := by omega
      obtain ⟨after, later, reached⟩ := @ih _ (start + 1) there (by omega)
        fun index block behind before => leadOn index block (by omega) (by omega)
      refine ⟨after, ?_, next ▸ reached⟩
      rw [List.range'_succ, List.map_cons]
      exact first.append later

end At

end Tape

end ZxMedia
