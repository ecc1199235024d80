import Mathlib
import ZxMedia.Proofs.Tape.Operation
import ZxMedia.Proofs.Tape.Progress
import ZxMedia.Proofs.Tape.Signal

/-!
# Edges of a tape

A tape that is played gives edges one after another (`Tape.Gives`). When the current
block is played to its end they are the steps of the block, and the last one carries the
flags of what the end of the block leads to. A tape of blocks with the timing of the
machine gives the pulses and the pause of one block after the other, and stops with the
last pause.
-/

namespace ZxMedia

/-- The interval of a step. -/
def Step.edge (step : Step) : Edge :=
  ⟨step.tstates, step.flags⟩

/-- The intervals of the steps of a block, with the flags at its end changed. -/
def Step.edges (mark : EdgeFlags → EdgeFlags) : List Step → List Edge
  | [] => []
  | [last] => [⟨last.tstates, mark last.flags⟩]
  | step :: next :: steps => step.edge :: edges mark (next :: steps)

theorem Step.edges_concat (mark : EdgeFlags → EdgeFlags) (front : List Step)
    (last : Step) :
    edges mark (front ++ [last]) =
      front.map edge ++ [⟨last.tstates, mark last.flags⟩] := by
  induction front with
  | nil => rfl
  | cons step front ih =>
      cases front with
      | nil => rfl
      | cons next front => exact congrArg (step.edge :: ·) ih

/-- Whether the tape stops with an interval. -/
def Edge.stops (edge : Edge) (stopOn48k : Bool) : Bool :=
  edge.flags.stop || stopOn48k && edge.flags.stop48

/-- Without an edge at its end an interval takes no time, and no interval is too long to
be counted. -/
structure Edge.Plain (edge : Edge) : Prop where
  counted : edge.tstates ≤ maxTstates
  instant : edge.isEdge = false → edge.tstates = 0

namespace Tape

/-- The tape gives these edges one after another. -/
inductive Gives : Tape → List Edge → Tape → Prop where
  | nil (tape : Tape) : Gives tape [] tape
  | cons {tape middle after : Tape} {edge : Edge} {edges : List Edge}
      (first : tape.nextEdge = .ok (edge, middle)) (later : Gives middle edges after) :
      Gives tape (edge :: edges) after

theorem Gives.append {tape middle after : Tape} {front back : List Edge}
    (first : tape.Gives front middle) (later : middle.Gives back after) :
    tape.Gives (front ++ back) after := by
  induction first with
  | nil => exact later
  | cons edge _ ih => exact .cons edge (ih later)

theorem Gives.split {tape after : Tape} {front back : List Edge}
    (gives : tape.Gives (front ++ back) after) :
    ∃ middle, tape.Gives front middle ∧ middle.Gives back after := by
  induction front generalizing tape with
  | nil => exact ⟨tape, .nil tape, gives⟩
  | cons edge front ih =>
      cases gives with
      | cons played later =>
          obtain ⟨middle, first, second⟩ := ih later
          exact ⟨middle, .cons played first, second⟩

variable {tape : Tape} {index : Nat} {track played : Track} {step : Step}
    {steps : List Step}
variable {control : Control} {move : Move}

/-! ## One interval -/

@[simp] theorem size_putTrack (tape : Tape) (index : Nat) (track : Track) :
    (tape.putTrack index track).size = tape.size := by
  simp [putTrack, size]

/-- What the end of a block leads to depends on the blocks of the tape and on what
control blocks have begun. -/
theorem atEnd_of_blocks {other : Tape} (blocks : other.blocks = tape.blocks)
    (control : other.toControl = tape.toControl) (place : Nat) (block : Block) :
    other.atEnd place block = tape.atEnd place block := by
  have block? (place : Nat) : other.block? place = tape.block? place := by
    rw [block?_eq, block?_eq, blocks]
  have size : other.size = tape.size := by rw [← length_blocks, blocks, length_blocks]
  -- Only jumps, calls and returns look at the tape, and all that they see of it is its
  -- blocks.
  have target (place : Nat) (offset : Int16) :
      other.target place offset = tape.target place offset := by
    simp only [Tape.target, size]
  have returnFrom (call : CallState) : other.returnFrom call = tape.returnFrom call := by
    simp only [Tape.returnFrom, block?, target, control]
  cases block with
  | jump offset =>
      unfold atEnd
      dsimp only
      rw [target, control]
  | callSequence offsets =>
      unfold atEnd
      dsimp only
      simp only [target, control]
  | callReturn =>
      unfold atEnd
      dsimp only
      simp only [returnFrom, control]
  | loopEnd =>
      unfold atEnd
      dsimp only
      simp only [control]
  | _ =>
      unfold atEnd
      dsimp only
      rw [control]

theorem atEnd_putTrack (here : tape.tracks[index]? = some track)
    (same : played.block = track.block) (place : Nat) (block : Block) :
    (tape.putTrack index played).atEnd place block = tape.atEnd place block := by
  obtain ⟨inside, found⟩ := Array.getElem?_eq_some_iff.mp here
  have blocks : (tape.putTrack index played).blocks = tape.blocks :=
    @blocks_putTrack tape index played inside (same.trans (congrArg Track.block found.symm))
  exact atEnd_of_blocks blocks rfl place block

theorem nextEdge_of_more (current : tape.current = some index)
    (here : tape.tracks[index]? = some track) (fits : track.overflows = false)
    (step_eq : track.step tape.config = (step, played)) (goesOn : step.ends = false) :
    tape.nextEdge = .ok (step.edge, tape.putTrack index played) := by
  obtain ⟨inside, rfl⟩ := Array.getElem?_eq_some_iff.mp here
  have looked : tape.lookAhead = .ok (some ⟨step, index, played, none⟩) := by
    unfold lookAhead
    simp [current, inside, fits, step_eq, goesOn]
  unfold nextEdge
  rw [looked]
  rfl

/-- The last interval of a block is followed by what the end of the block leads to. -/
theorem nextEdge_of_last (current : tape.current = some index)
    (here : tape.tracks[index]? = some track) (fits : track.overflows = false)
    (step_eq : track.step tape.config = (step, played)) (ends : step.ends = true)
    (ending : tape.atEnd index track.block = .ok (control, move)) :
    tape.nextEdge =
      (let left := ((tape.putTrack index played).withControl control).follow move step.flags
       .ok (⟨step.tstates, left.1⟩, left.2)) := by
  obtain ⟨inside, rfl⟩ := Array.getElem?_eq_some_iff.mp here
  have looked :
      tape.lookAhead = .ok (some ⟨step, index, played, some (control, move)⟩) := by
    unfold lookAhead
    simp [current, inside, fits, step_eq, ends, ending]
  unfold nextEdge
  rw [looked]
  rfl

/-! ## One block -/

/-- Where a move leads does not depend on flags. -/
theorem follow_snd (tape : Tape) (move : Move) (flags : EdgeFlags) :
    (tape.follow move flags).2 = (tape.follow move {}).2 := by
  unfold follow
  rcases move with index | index
  · rfl
  · dsimp only
    split <;> rfl

/-- The flags of a move depend on the size of the tape alone. -/
theorem follow_fst {other tape : Tape} (same : other.size = tape.size) (move : Move)
    (flags : EdgeFlags) : (other.follow move flags).1 = (tape.follow move flags).1 := by
  unfold follow
  rw [same]
  rcases move with index | index
  · rfl
  · dsimp only
    split <;> rfl

theorem follow_onTo (inside : index < tape.size) (flags : EdgeFlags) :
    tape.follow (.onTo index) flags =
      ({ flags with block := true }, tape.goTo index) := by
  unfold follow
  simp only [inside, if_true]

/-- The flags at the end of a block that leads to the next one or to the end of the
tape. -/
theorem follow_next_fst (inside : index < tape.size) (flags : EdgeFlags) :
    (tape.follow (.onTo (index + 1)) flags).1 =
      let last := decide (index + 1 = tape.size)
      { flags with block := true, stop := flags.stop || last, tape := flags.tape || last } := by
  unfold follow
  dsimp only
  by_cases last : index + 1 = tape.size
  · rw [if_neg (by omega)]
    simp [last]
  · rw [if_pos (by omega)]
    simp [last]

theorem putTrack_putTrack (tape : Tape) (index : Nat) (first second : Track) :
    (tape.putTrack index first).putTrack index second = tape.putTrack index second := by
  simp [putTrack]

/-- The current block gives its steps as edges, up to what its end leads to. -/
theorem gives_block {last : Track} (current : tape.current = some index)
    (here : tape.tracks[index]? = some track) (playable : track.Playable)
    (plays : track.Plays tape.config steps last)
    (ending : tape.atEnd index track.block = .ok (control, move)) :
    tape.Gives (Step.edges (fun flags => (tape.follow move flags).1) steps)
      (((tape.putTrack index last).withControl control).follow move {}).2 := by
  generalize same : tape.config = config at plays
  induction plays generalizing tape with
  | @last track after step step_eq ends =>
      have given :=
        nextEdge_of_last current here playable.not_overflows (same ▸ step_eq) ends
        ending
      have unchanged :
          ((tape.putTrack index after).withControl control).size = tape.size :=
        size_putTrack tape index after
      dsimp only at given
      rw [follow_snd, follow_fst unchanged] at given
      exact .cons given (.nil _)
  | @more track middle after step steps step_eq goesOn later ih =>
      have given :=
        nextEdge_of_more current here playable.not_overflows (same ▸ step_eq) goesOn
      have block : middle.block = track.block := by
        have unchanged := track.block_step config
        rwa [step_eq] at unchanged
      have inside := (Array.getElem?_eq_some_iff.mp here).1
      have placed : (tape.putTrack index middle).tracks[index]? = some middle := by
        simp [putTrack, inside]
      have playable : middle.Playable := by
        have kept := playable.step config
        rwa [step_eq] at kept
      have ending :
          (tape.putTrack index middle).atEnd index middle.block = .ok (control, move) := by
        rw [atEnd_putTrack here block, block, ending]
      have moved : (tape.putTrack index middle).current = some index := current
      have rest := ih moved placed playable ending same
      rw [putTrack_putTrack] at rest
      cases steps with
      | nil => cases later
      | cons next steps =>
          refine .cons given ?_
          simpa only [follow_fst (size_putTrack tape index middle)] using rest

/-! ## Tapes with the timing of the machine -/

/-- The pause at the end of a block, which may be the end of the tape. -/
def pauseEdge (milliseconds : UInt16) (config : PlaybackConfig) (ended : Bool) : Edge :=
  { tstates := (Step.pause milliseconds config).tstates
    flags :=
      { (Step.pause milliseconds config).flags with block := true, stop := ended, tape := ended } }

/-- The edges of blocks with the timing of the machine at the end of a tape. -/
def romEdges (config : PlaybackConfig) : List RomBlock → List Edge
  | [] => []
  | block :: blocks =>
    block.coding.pulses.map (fun tstates => { tstates }) ++
      pauseEdge block.pause config blocks.isEmpty :: romEdges config blocks

/-- The cursor is at the beginning of a block behind so many others. -/
structure ReadyAt (tape : Tape) (before : List RomBlock)
    (ahead : List RomBlock) : Prop where
  blocks : tape.blocks = (before ++ ahead).map .rom
  current : tape.current = some before.length
  cued : ∀ block, ahead.head? = some block →
    tape.tracks[before.length]? = some (Track.ofBlock (.rom block)).cue

variable {before ahead : List RomBlock} {block following : RomBlock}

theorem romEdges_cons (tape : Tape) (block : RomBlock) (config : PlaybackConfig)
    (size : tape.size = before.length + 1 + ahead.length) :
    romEdges config (block :: ahead) =
      Step.edges (fun flags => (tape.follow (.onTo (before.length + 1)) flags).1)
        (block.coding.stepsOf config block.coding.pulses) ++ romEdges config ahead := by
  have pause : (Step.pause block.coding.pause config).flags.stop = false ∧
      (Step.pause block.coding.pause config).flags.tape = false := by
    unfold Step.pause
    split <;> exact ⟨rfl, rfl⟩
  have marked (flags : EdgeFlags) (plain : flags.stop = false ∧ flags.tape = false) :
      (tape.follow (.onTo (before.length + 1)) flags).1 =
        { flags with block := true, stop := ahead.isEmpty, tape := ahead.isEmpty } := by
    have last : decide (before.length + 1 = tape.size) = ahead.isEmpty := by
      rw [size]
      cases ahead <;> simp
    rw [follow_next_fst (by omega), last, plain.1, plain.2]
    simp
  rw [Coding.stepsOf, Step.edges_concat, marked _ pause, List.map_map]
  simp only [romEdges, List.append_assoc]
  rfl

/-- The block that the cursor moves to is made ready. -/
theorem ready_goTo (blocks : tape.blocks = (before ++ block :: ahead).map .rom) :
    (tape.goTo before.length).ReadyAt before (block :: ahead) where
  blocks := by rw [blocks_goTo, blocks]
  current := rfl
  cued := by
    rintro _ ⟨⟩
    have moved := currentTrack?_goTo tape before.length
    have found : tape.blocks[before.length]? = some (.rom block) := by
      rw [blocks]
      simp
    simp only [Tape.blocks, List.getElem?_map, Array.getElem?_toList,
      Option.map_eq_some_iff]
      at found
    obtain ⟨track, here, same⟩ := found
    rw [here] at moved
    exact moved.trans (congrArg some (Track.cue_eq same))

/-- Blocks at the end of a tape that has a current block are put there as they are. -/
theorem extend_eq (current : tape.current = some index) (added : List Block) :
    tape.extend added =
      { tape with tracks := tape.tracks ++ (added.map Track.ofBlock).toArray } := by
  induction added generalizing tape with
  | nil => simp [extend]
  | cons block added ih =>
      have appended :
          tape.append block = { tape with tracks := tape.tracks.push (.ofBlock block) } := by
        unfold append appendTrack
        simp only [current]
      have later : (tape.append block).extend added = tape.extend (block :: added) := rfl
      rw [← later, ih (by rw [appended]; exact current), appended]
      simp

theorem ready_ofBlocks (block : RomBlock) (ahead : List RomBlock) :
    (ofBlocks ((block :: ahead).map .rom)).ReadyAt [] (block :: ahead) ∧
      (ofBlocks ((block :: ahead).map .rom)).config = {} := by
  have same : ofBlocks ((block :: ahead).map .rom) =
      { tracks := #[(Track.ofBlock (.rom block)).cue] ++
          ((ahead.map Block.rom).map Track.ofBlock).toArray
        current := some 0 } :=
    extend_eq (rfl : (append {} (.rom block)).current = some 0) (ahead.map .rom)
  refine ⟨⟨blocks_ofBlocks _, ?_, ?_⟩, ?_⟩
  · rw [same]
    rfl
  · rintro _ ⟨⟩
    rw [same]
    simp
  · rw [same]

/-- The blocks ahead are played one after another, up to the end of the tape. -/
theorem ReadyAt.gives (ready : tape.ReadyAt before ahead) (some : ahead ≠ []) :
    ∃ after, tape.Gives (romEdges tape.config ahead) after := by
  induction ahead generalizing tape before with
  | nil => exact absurd rfl some
  | cons block ahead ih =>
      have size : tape.size = before.length + 1 + ahead.length := by
        rw [← length_blocks, ready.blocks]
        simp only [List.length_map, List.length_append, List.length_cons]
        omega
      have here := ready.cued block rfl
      obtain ⟨last, same, plays⟩ := @Track.plays_cue (.rom block) _ _ rfl tape.config
      have given := gives_block ready.current here (Track.playable_cue _) plays rfl
      rw [romEdges_cons tape block tape.config size]
      cases ahead with
      | nil =>
          rw [romEdges, List.append_nil]
          exact ⟨_, given⟩
      | cons following ahead =>
          obtain ⟨inside, found⟩ := Array.getElem?_eq_some_iff.mp here
          have blocks : (tape.putTrack before.length last).blocks = tape.blocks :=
            @blocks_putTrack tape before.length last inside
              (same.trans (congrArg Track.block found.symm))
          have further : before.length + 1 < (tape.putTrack before.length last).size := by
            rw [size_putTrack, size, List.length_cons]
            omega
          have ahead_eq :
              tape.blocks = ((before ++ [block]) ++ following :: ahead).map .rom := by
            rw [ready.blocks, List.append_cons]
          have ready := ready_goTo (blocks.trans ahead_eq)
          rw [List.length_append, List.length_singleton] at ready
          change tape.Gives _ ((tape.putTrack before.length last).follow _ {}).2 at given
          rw [follow_onTo further] at given
          obtain ⟨after, later⟩ := ih ready (List.cons_ne_nil _ _)
          exact ⟨after, given.append later⟩

end Tape

end ZxMedia
