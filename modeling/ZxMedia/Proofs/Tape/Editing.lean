import ZxMedia.Proofs.Tape.Visits

/-!
# Editing around the current block

While a tape is played, blocks can be put on it and taken off. The cursor keeps to its
block then, with whatever has been played of it: it is counted up or down if the edit is
in front of it. Of what is left of the block only the last interval may change, as the
block may have become the last one of the tape or may be so no longer (`Undisturbed`).

If the current block itself is taken off, the one behind it is played from its
beginning, or the first one of the tape (`BeginsAt`).
-/

namespace ZxMedia

/-! ## The last interval of a block -/

/-- The last interval of a block that leads on, with which the tape may end as well. -/
def Edge.closing (edge : Edge) (ended : Bool) : Edge :=
  { edge with flags := { edge.flags with
      block := true, stop := edge.flags.stop || ended, tape := edge.flags.tape || ended } }

theorem Block.leadsOn_of_isTimed {block : Block} (timed : block.isTimed = true) :
    block.LeadsOn := by
  cases block with
  | jump | loopStart | loopEnd | callSequence | callReturn => cases timed
  | _ => exact ⟨nofun, nofun, nofun, nofun, nofun⟩

namespace Track

/-- Of all blocks only the pause without an end stops the tape by itself. -/
theorem pause_of_stop {track : Track} {config : PlaybackConfig}
    (stops : (track.step config).1.flags.stop = true) : track.block = .pause 0 := by
  have pause (milliseconds : UInt16) :
      (Step.pause milliseconds config).flags.stop = false := by
    unfold Step.pause
    split <;> rfl
  have data (state : DataState) (coding : Coding) :
      (state.step coding config).1.flags.stop = false := by
    unfold DataState.step
    cases state.phase with
    | pause => exact pause coding.pause
    | _ => rfl
  obtain ⟨block, progress⟩ := track
  cases block with
  | rom block => cases (data progress block.coding).symm.trans stops
  | turbo block => cases (data progress block.coding).symm.trans stops
  | pureData block => cases (data progress block.coding).symm.trans stops
  | rawData block =>
      simp only [Track.step, RawState.step] at stops
      split at stops
      · cases stops
      · cases (pause block.pause).symm.trans stops
  | pureTone length pulses =>
      simp only [Track.step, stepTone] at stops
      split at stops <;> cases stops
  | pulses lengths =>
      simp only [Track.step, stepPulses] at stops
      split at stops
      · cases stops
      · split at stops <;> cases stops
  | pause milliseconds =>
      simp only [Track.step] at stops
      split at stops
      next none => rw [none]
      next => cases stops
  | setSignalLevel high => cases high <;> cases stops
  | _ => cases stops

theorem Plays.pause_of_stop {track after : Track} {config : PlaybackConfig}
    {steps : List Step}
    (plays : track.Plays config steps after) :
    ∀ step ∈ steps, step.flags.stop = true → track.block = .pause 0 := by
  have only (track : Track) := @Track.pause_of_stop track config
  induction plays with
  | @last track after step played ends =>
      intro other member stops
      have block := only track
      rw [List.mem_singleton.mp member] at stops
      rw [played] at block
      exact block stops
  | @more track middle after step steps played goesOn later ih =>
      intro other member stops
      rcases List.mem_cons.mp member with rfl | rest
      · have block := only track
        rw [played] at block
        exact block stops
      · have same := track.block_step config
        rw [played] at same
        exact same.symm.trans (ih other rest stops)

end Track

namespace Tape

variable {tape after : Tape} {index place current : Nat} {track : Track} {block : Block}
variable {control : Control} {move : Move}

/-! ## Where the cursor goes -/

/-- The cursor keeps to its block when another one is put on the tape. -/
theorem current_insertTrack (here : tape.current = some current)
    (inside : current < tape.size)
    (inserted : tape.insertTrack index track = .ok after) :
    after.current = some (if index ≤ current then current + 1 else current) ∧
      after.currentTrack? = tape.currentTrack? ∧ after.config = tape.config := by
  obtain ⟨within, outcome⟩ := insertTrack_ok inserted
  rcases outcome with
      ⟨nowhere, -⟩ | ⟨place, there, before, -, rfl⟩ | ⟨place, there, ahead, rfl⟩
  · rw [here] at nowhere
    cases nowhere
  · rw [here] at there
    cases there
    refine ⟨by rw [if_pos before], ?_, rfl⟩
    have behind : index < current + 1 := Nat.lt_succ_of_le before
    simp [currentTrack?, here, Array.getElem?_insertIdx_of_ge behind inside]
  · rw [here] at there
    cases there
    refine ⟨by rw [if_neg (Nat.not_le_of_lt ahead)]; exact here, ?_, rfl⟩
    simp [currentTrack?, here, Array.getElem?_insertIdx_of_lt within ahead]

/-- The cursor keeps to its block when another one is taken off the tape. -/
theorem current_removeTrack (here : tape.current = some current)
    (inside : current < tape.size)
    (other : index ≠ current) (removed : tape.removeTrack index = .ok (track, after)) :
    after.current = some (if index < current then current - 1 else current) ∧
      after.currentTrack? = tape.currentTrack? ∧ after.config = tape.config := by
  unfold removeTrack at removed
  split at removed
  next within =>
    have shorter : (tape.tracks.eraseIdx index within).size = tape.tracks.size - 1 :=
      Array.size_eraseIdx _ within
    dsimp only at removed
    split at removed
    next emptied =>
      -- The only block of a tape can not be another one than the current one.
      have none : (tape.tracks.eraseIdx index within).size = 0 := emptied
      have both : current < tape.tracks.size := inside
      omega
    next =>
      simp only [here] at removed
      split at removed
      next before =>
        cases removed
        refine ⟨by rw [if_pos before], ?_, rfl⟩
        have back : current - 1 + 1 = current :=
          Nat.succ_pred_eq_of_pos (Nat.zero_lt_of_lt before)
        have behind : index ≤ current - 1 := Nat.le_pred_of_lt before
        simp [currentTrack?, here, Array.getElem?_eraseIdx_of_ge within behind, back]
      next ahead =>
        split at removed
        next same => exact absurd same.symm other
        next =>
          cases removed
          refine ⟨by rw [if_neg ahead]; rfl, ?_, rfl⟩
          have front : current < index := by omega
          simp [currentTrack?, here, Array.getElem?_eraseIdx_of_lt within front]
  next => cases removed

theorem removeTrack_of_lt (inside : index < tape.size) :
    ∃ taken after, tape.removeTrack index = .ok (taken, after) := by
  unfold removeTrack
  rw [dif_pos (show index < tape.tracks.size from inside)]
  dsimp only
  split
  next => exact ⟨_, _, rfl⟩
  next =>
    cases tape.current with
    | none => exact ⟨_, _, rfl⟩
    | some current =>
        dsimp only
        split
        next => exact ⟨_, _, rfl⟩
        next => split <;> exact ⟨_, _, rfl⟩

/-- When the current block is taken off, the cursor goes to the one behind it, or to the
first one if there is none. -/
theorem removeTrack_current (here : tape.current = some current)
    (removed : tape.removeTrack current = .ok (track, after)) :
    (tape.size = 1 ∧ after.blocks = [] ∧ after.current = none) ∨
      ∃ edited : Tape, edited.size + 1 = tape.size ∧ 0 < edited.size ∧
        after = edited.goTo (if current + 1 = tape.size then 0 else current) ∧
        edited.tracks[if current + 1 = tape.size then 0 else current]? =
          tape.tracks[if current + 1 = tape.size then 0 else current + 1]? := by
  unfold removeTrack at removed
  split at removed
  next within =>
    have shorter : (tape.tracks.eraseIdx current within).size + 1 = tape.tracks.size := by
      rw [Array.size_eraseIdx]
      exact Nat.succ_pred_eq_of_pos (Nat.zero_lt_of_lt within)
    dsimp only at removed
    split at removed
    next emptied =>
      cases removed
      have none : tape.tracks.eraseIdx current within = #[] :=
        Array.eq_empty_of_size_eq_zero emptied
      refine .inl ⟨?_, ?_, rfl⟩
      · rw [none] at shorter
        exact shorter.symm
      · simp [blocks, none]
    next left =>
      have filled : 0 < (tape.tracks.eraseIdx current within).size :=
        Nat.pos_of_ne_zero left
      simp only [here, Nat.lt_irrefl, if_false, if_true, Except.ok.injEq,
        Prod.mk.injEq] at removed
      obtain ⟨-, rfl⟩ := removed
      refine .inr
        ⟨({ tape with tracks := tape.tracks.eraseIdx current within } : Tape).resetControl,
        shorter, filled, ?_, ?_⟩
      · have last : current = (tape.tracks.eraseIdx current within).size ↔
            current + 1 = tape.tracks.size := by omega
        simp only [size, tracks_resetControl, last]
        rfl
      · split
        next last =>
          have front : 0 < current := by
            have same : current + 1 = tape.tracks.size := last
            omega
          exact Array.getElem?_eraseIdx_of_lt within front
        next => exact Array.getElem?_eraseIdx_of_ge within (Nat.le_refl current)
  next => cases removed

/-! ## What is played then -/

/-- A block that leads on is played to its end from wherever it is, and the tape may end
with it. -/
theorem gives_closing {front : List Step} {last : Step} {left : Track}
    (here : tape.current = some index) (found : tape.currentTrack? = some track)
    (playable : track.Playable) (leads : track.block.LeadsOn)
    (plays : track.Plays tape.config (front ++ [last]) left) :
    ∃ later, tape.Gives
      (front.map Step.edge ++ [last.edge.closing (decide (index + 1 = tape.size))]) later := by
  have there : tape.tracks[index]? = some track := by
    rwa [currentTrack?, here, Option.bind_some] at found
  have inside : index < tape.size := (Array.getElem?_eq_some_iff.mp there).1
  have gives := gives_block here there playable plays (atEnd_of_leadsOn leads tape index)
  simp only [Step.edges_concat, follow_next_fst inside] at gives
  exact ⟨_, gives⟩

/-- A block that was made ready is played from its beginning, up to where its end
leads. -/
theorem gives_steps (here : tape.current = some index)
    (ready : tape.currentTrack? = some (Track.ofBlock block).cue)
    (ending : tape.atEnd index block = .ok (control, move)) :
    ∃ left, tape.Gives
      (Step.edges (fun flags => (tape.follow move flags).1) (block.steps tape.config)) left := by
  have there : tape.tracks[index]? = some (Track.ofBlock block).cue := by
    rwa [currentTrack?, here, Option.bind_some] at ready
  obtain ⟨last, plays⟩ := block.plays_steps tape.config
  exact ⟨_, gives_block here there (Track.playable_cue _) plays ending⟩

/-- After an edit the cursor of a tape is at the same block in the same state, and what
is left of the block is played as before. With its last interval the tape ends too if
there is no block behind it. -/
structure Undisturbed (before after : Tape) (index place : Nat) : Prop where
  current : after.current = some place
  same : after.currentTrack? = before.currentTrack?
  signal : ∃ (front : List Edge) (last : Edge) (left later : Tape),
    (∀ edge ∈ front, edge.flags.block = false ∧ edge.flags.tape = false) ∧
    last.flags.tape = false ∧
    (last.flags.stop = true → before.block? index = some (.pause 0)) ∧
    before.Gives (front ++ [last.closing (decide (index + 1 = before.size))]) left ∧
    after.Gives (front ++ [last.closing (decide (place + 1 = after.size))]) later

/-- The cursor of a tape is at a block that is played from its beginning, up to where
its end leads. -/
structure BeginsAt (tape : Tape) (index : Nat) (block : Block) : Prop where
  current : tape.current = some index
  ready : tape.currentTrack? = some (Track.ofBlock block).cue
  signal : ∀ control move, tape.atEnd index block = .ok (control, move) →
    ∃ left, tape.Gives
      (Step.edges (fun flags => (tape.follow move flags).1) (block.steps tape.config)) left

/-- An edit that keeps the cursor at its block does not disturb a block that takes
time. -/
theorem Sound.undisturbed (sound : tape.Sound) (here : tape.current = some index)
    (found : tape.currentTrack? = some track) (timed : track.block.isTimed = true)
    (kept : after.current = some place ∧ after.currentTrack? = tape.currentTrack? ∧
      after.config = tape.config) : tape.Undisturbed after index place := by
  obtain ⟨current, same, config⟩ := kept
  have playable := sound.playable track found
  have leads := Block.leadsOn_of_isTimed timed
  obtain ⟨front, last, left, plays⟩ := playable.plays tape.config
  have unmarked := plays.unmarked
  obtain ⟨before, first⟩ := gives_closing here found playable leads plays
  obtain ⟨later, second⟩ :=
    gives_closing current (same.trans found) playable leads (config ▸ plays)
  refine ⟨current, same, front.map Step.edge, last.edge, before, later, ?_, ?_,
    ?_, first, second⟩
  · intro edge member
    obtain ⟨step, there, rfl⟩ := List.mem_map.mp member
    exact unmarked step (List.mem_append_left _ there)
  · exact (unmarked last (List.mem_append_right _ (List.mem_singleton.mpr rfl))).2
  · intro stops
    have atEnd : last ∈ front ++ [last] := List.mem_append_right _ (List.mem_singleton.mpr rfl)
    have pause := plays.pause_of_stop last atEnd stops
    have there : tape.tracks[index]? = some track := by
      rwa [currentTrack?, here, Option.bind_some] at found
    rw [block?, there, ← pause]
    rfl

theorem beginsAt_goTo (found : tape.block? index = some block) :
    (tape.goTo index).BeginsAt index block := by
  obtain ⟨track, there, rfl⟩ := Option.map_eq_some_iff.mp found
  have ready :
      (tape.goTo index).currentTrack? = some (Track.ofBlock track.block).cue := by
    rw [currentTrack?_goTo, there]
    exact congrArg some (Track.cue_eq rfl)
  exact ⟨rfl, ready, fun control move ending => gives_steps rfl ready ending⟩

/-- Editing a tape around its current block does not disturb the signal of that block:
the cursor goes with it, it keeps its state, and it is played on as without the edit,
but for the end of the tape. When the current block is taken off, the one behind it is
played from its beginning, or the first one if it was the last. -/
theorem edits_around_current (reached : tape.Reachable)
    (here : tape.current = some current) :
    (∀ track, tape.currentTrack? = some track → track.block.isTimed = true →
      (∀ index other after, tape.insertTrack index other = .ok after →
        tape.Undisturbed after current (if index ≤ current then current + 1 else current)) ∧
      (∀ index other after, index ≠ current → tape.removeTrack index = .ok (other, after) →
        tape.Undisturbed after current (if index < current then current - 1 else current))) ∧
    (∀ taken after, tape.removeTrack current = .ok (taken, after) →
      (tape.size = 1 ∧ after.blocks = [] ∧ after.current = none) ∨
      ∃ block,
        tape.block? (if current + 1 = tape.size then 0 else current + 1) = some block ∧
        after.BeginsAt (if current + 1 = tape.size then 0 else current) block) := by
  have sound := reached.sound
  have inside := sound.inside current here
  refine ⟨?_, ?_⟩
  · intro track found timed
    constructor
    · intro index other after inserted
      exact sound.undisturbed here found timed (current_insertTrack here inside inserted)
    · intro index other after different removed
      exact sound.undisturbed here found timed (current_removeTrack here inside different removed)
  · intro taken after removed
    rcases removeTrack_current here removed with
        emptied | ⟨edited, shorter, filled, rfl, same⟩
    · exact .inl emptied
    · right
      have within : (if current + 1 = tape.size then 0 else current) < edited.size := by
        split <;> omega
      have found : edited.block? (if current + 1 = tape.size then 0 else current) =
          some edited.tracks[if current + 1 = tape.size then 0 else current].block := by
        simp only [block?, Array.getElem?_eq_getElem within, Option.map_some]
      refine ⟨_, ?_, beginsAt_goTo found⟩
      rw [← found, block?, block?, same]

/-- Operations that play one of three pulses of a block between two others. -/
def betweenPulses : List Operation :=
  [.extend [.ofBlock (.pureTone 500 2), .ofBlock (.pulses #[100, 200, 300]),
      .ofBlock (.pause 0)],
    .select 1, .nextEdge]

theorem edits_around_current_betweenPulses :
    (run {} betweenPulses).Reachable ∧ (run {} betweenPulses).current = some 1 ∧
    (∃ after, (run {} betweenPulses).insertTrack 1 (.ofBlock .loopEnd) = .ok after ∧
      (run {} betweenPulses).Undisturbed after 1 2) ∧
    (∃ other after, (run {} betweenPulses).removeTrack 2 = .ok (other, after) ∧
      (run {} betweenPulses).Undisturbed after 1 1) ∧
    (∃ taken after, (run {} betweenPulses).removeTrack 1 = .ok (taken, after) ∧
      after.BeginsAt 1 (.pause 0)) := by
  have reached : (run {} betweenPulses).Reachable := by
    apply (Reachable.new {}).run
    simp [betweenPulses, Operation.tracks, Block.SamplesFit, Track.ofBlock]
  obtain ⟨others, itself⟩ := edits_around_current reached (show _ = some 1 from rfl)
  obtain ⟨inserted, removed⟩ := others ⟨.pulses #[100, 200, 300], (1 : Nat)⟩ rfl rfl
  obtain ⟨other, left, off⟩ := @removeTrack_of_lt (run {} betweenPulses) 2 (by decide)
  obtain ⟨taken, after, gone⟩ := @removeTrack_of_lt (run {} betweenPulses) 1 (by decide)
  refine ⟨reached, rfl, ⟨_, rfl, inserted 1 _ _ rfl⟩,
    ⟨other, left, off, removed 2 other left (by decide) off⟩, ?_⟩
  rcases itself taken after gone with ⟨alone, -⟩ | ⟨block, found, begins⟩
  · cases alone
  · cases found
    exact ⟨taken, after, gone, begins⟩

end Tape

end ZxMedia
