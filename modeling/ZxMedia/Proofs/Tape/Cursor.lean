import ZxMedia.Proofs.Tape.Progress

/-!
# The cursor, the loop and the call of a tape

The cursor of a tape is at one of its blocks, a loop in progress was begun by the block
in front of the one that it goes back to, and a call in progress belongs to a block with
a sequence that has not been called to its end. Every operation keeps this, and it is
all that playing an interval relies on: the only thing that can go wrong is a jump or a
call that leads off the tape.

The one state in between that does not satisfy this is that of a loop that begins at the
last block: its first block would be past the end. The cursor goes back to the first
block then, which abandons the loop.
-/

namespace ZxMedia

/-! ## Loops and calls -/

/-- What control blocks have begun agrees with the blocks of the tape. -/
structure Control.Valid (control : Control) (blocks : List Block) : Prop where
  /-- Nothing is counted without a loop. -/
  uncounted : control.loopBlock = none → control.loopCount = 0
  /-- A loop goes back to the block after the one that began it. -/
  loop : ∀ start, control.loopBlock = some start →
    1 ≤ start ∧ start < blocks.length ∧ ∃ count, blocks[start - 1]? = some (.loopStart count)
  /-- A call belongs to a sequence, and its first offset has been taken. -/
  call : ∀ call, control.call = some call →
    ∃ offsets, blocks[call.block]? = some (.callSequence offsets) ∧
      1 ≤ call.next ∧ call.next ≤ offsets.size

namespace Control

variable {control : Control} {blocks : List Block}

theorem valid_reset (blocks : List Block) : Valid {} blocks where
  uncounted _ := rfl
  loop _ begun := by cases begun
  call _ begun := by cases begun

theorem Valid.append (valid : control.Valid blocks) (added : List Block) :
    control.Valid (blocks ++ added) where
  uncounted := valid.uncounted
  loop start begun := by
    obtain ⟨positive, inside, count, found⟩ := valid.loop start begun
    refine ⟨positive, ?_, count, ?_⟩
    · rw [List.length_append]
      omega
    · rw [List.getElem?_append_left (by omega)]
      exact found
  call call begun := by
    obtain ⟨offsets, found, bounds⟩ := valid.call call begun
    obtain ⟨inside, -⟩ := List.getElem?_eq_some_iff.mp found
    refine ⟨offsets, ?_, bounds⟩
    rw [List.getElem?_append_left inside]
    exact found

theorem Valid.withLoop (valid : control.Valid blocks) {loopBlock : Option Nat}
    {loopCount : Nat}
    (uncounted : loopBlock = none → loopCount = 0)
    (same : loopBlock = none ∨ loopBlock = control.loopBlock) :
    Valid { control with loopBlock, loopCount } blocks where
  uncounted := uncounted
  loop start begun := by
    cases same with
    | inl left =>
        rw [left] at begun
        cases begun
    | inr kept => exact valid.loop start (kept.symm.trans begun)
  call := valid.call

theorem Valid.beginLoop (valid : control.Valid blocks) {index : Nat} {count : UInt16}
    (found : blocks[index]? = some (.loopStart count))
    (inside : index + 1 < blocks.length) :
    Valid { control with loopBlock := some (index + 1), loopCount := count.toNat } blocks where
  uncounted none := by cases none
  loop start begun := by
    cases begun
    exact ⟨Nat.le_add_left 1 index, inside, count, found⟩
  call := valid.call

/-- A call of an offset of a sequence is valid, whichever offset of it is the next
one. -/
theorem Valid.withCall (valid : control.Valid blocks) {index next : Nat}
    {offsets : Array Int16}
    (found : blocks[index]? = some (.callSequence offsets)) (begun : 1 ≤ next)
    (inside : next ≤ offsets.size) :
    Valid { control with call := some { block := index, next } } blocks where
  uncounted := valid.uncounted
  loop := valid.loop
  call other same := by
    cases same
    exact ⟨offsets, found, begun, inside⟩

theorem Valid.endCall (valid : control.Valid blocks) :
    Valid { control with call := none } blocks where
  uncounted := valid.uncounted
  loop := valid.loop
  call other same := by cases same

end Control

namespace Tape

variable {tape after : Tape} {index : Nat} {block : Block} {control : Control}
    {move : Move}

/-- A move leads to one of the blocks with valid control, or past their end, where loops
and calls are abandoned. -/
def Move.Lands (blocks : List Block) (control : Control) : Move → Prop
  | .to position => position < blocks.length ∧ control.Valid blocks
  | .onTo position => position < blocks.length → control.Valid blocks

theorem target_lands {begun : Control} {offset : Int16} (valid : begun.Valid tape.blocks)
    (moved : (tape.target index offset >>= fun position => pure (begun, Move.to position)) =
      .ok (control, move)) :
    move.Lands tape.blocks control := by
  obtain ⟨position, reached, same⟩ := bind_ok.mp moved
  cases same
  exact ⟨by simpa using target_ok reached, valid⟩

theorem returnFrom_lands {call : CallState} (valid : tape.toControl.Valid tape.blocks)
    (ended : tape.returnFrom call = .ok (control, move)) :
    move.Lands tape.blocks control := by
  simp only [returnFrom, block?_eq] at ended
  split at ended
  next offsets found =>
    split at ended
    next offset next =>
      obtain ⟨inside, -⟩ := Array.getElem?_eq_some_iff.mp next
      have taken : 1 ≤ call.next + 1 := Nat.le_add_left 1 call.next
      exact target_lands (valid.withCall found taken inside) ended
    next =>
      cases ended
      intro _
      exact valid.endCall
  next => cases ended

/-- The end of a block leads to a block of the tape or past its end. -/
theorem atEnd_lands (valid : tape.toControl.Valid tape.blocks)
    (found : tape.blocks[index]? = some block)
    (ended : tape.atEnd index block = .ok (control, move)) :
    move.Lands tape.blocks control := by
  cases block with
  | jump offset => exact target_lands valid ended
  | loopStart count =>
      -- The last block of a tape may begin a loop. The move goes past the end then.
      cases ended
      intro inside
      exact valid.beginLoop found inside
  | loopEnd =>
      unfold atEnd at ended
      dsimp only at ended
      split at ended
      next start begun =>
        split at ended
        next more =>
          cases ended
          obtain ⟨-, inside, -⟩ := valid.loop start begun
          exact ⟨inside, valid.withLoop (fun none => by simp [begun] at none) (.inr rfl)⟩
        next =>
          cases ended
          intro _
          exact valid.withLoop (fun _ => rfl) (.inl rfl)
      next =>
        cases ended
        intro _
        exact valid
  | callSequence offsets =>
      unfold atEnd at ended
      dsimp only at ended
      split at ended
      next offset first =>
        obtain ⟨inside, -⟩ := Array.getElem?_eq_some_iff.mp first
        exact target_lands (valid.withCall found (Nat.le_refl 1) inside) ended
      next =>
        cases ended
        intro _
        exact valid
  | callReturn =>
      unfold atEnd at ended
      dsimp only at ended
      split at ended
      next call _ => exact returnFrom_lands valid ended
      next =>
        cases ended
        intro _
        exact valid
  | _ =>
      cases ended
      intro _
      exact valid

/-! ## Tapes on which all of this agrees -/

/-- The cursor, the loop and the call of a tape agree with its blocks, and the current
block can be played. -/
structure Sound (tape : Tape) : Prop where
  /-- Without a cursor there are no blocks. -/
  empty : tape.current = none → tape.size = 0
  inside : ∀ index, tape.current = some index → index < tape.size
  control : tape.toControl.Valid tape.blocks
  playable : ∀ track, tape.currentTrack? = some track → track.Playable
  fit : ∀ block ∈ tape.blocks, block.SamplesFit

theorem sound_goTo (inside : index < tape.size)
    (control : tape.toControl.Valid tape.blocks)
    (fit : ∀ block ∈ tape.blocks, block.SamplesFit) : (tape.goTo index).Sound where
  empty none := by cases none
  inside place here := by
    cases here
    simpa using inside
  control := by simpa using control
  playable track here := by
    rw [currentTrack?_goTo] at here
    obtain ⟨before, -, rfl⟩ := Option.map_eq_some_iff.mp here
    exact before.playable_cue
  fit := by simpa using fit

/-- A sound tape stays sound when the cursor keeps to its block and the rest agrees with
it. -/
theorem Sound.keep (sound : tape.Sound) (empty : after.current = none → after.size = 0)
    (inside : ∀ index, after.current = some index → index < after.size)
    (same : after.currentTrack? = tape.currentTrack?)
    (control : after.toControl.Valid after.blocks)
    (fit : ∀ block ∈ after.blocks, block.SamplesFit) : after.Sound where
  empty
  inside
  control
  playable track here := sound.playable track (same ▸ here)
  fit

/-- A sound tape stays sound when its current block comes to another place. -/
theorem Sound.moveTo (sound : tape.Sound) (here : after.current = some index)
    (inside : index < after.size) (same : after.currentTrack? = tape.currentTrack?)
    (control : after.toControl.Valid after.blocks)
    (fit : ∀ block ∈ after.blocks, block.SamplesFit) : after.Sound := by
  refine sound.keep ?_ ?_ same control fit
  · intro none
    rw [here] at none
    cases none
  · intro place at_
    rw [here] at at_
    cases at_
    exact inside

theorem sound_follow {flags : EdgeFlags} (filled : 0 < tape.size)
    (fit : ∀ block ∈ tape.blocks, block.SamplesFit)
    (lands : move.Lands tape.blocks tape.toControl) :
    (tape.follow move flags).2.Sound := by
  rcases move with position | position
  · exact sound_goTo (by simpa using lands.1) lands.2 fit
  · simp only [follow]
    split
    next inside => exact sound_goTo inside (lands (by simpa using inside)) fit
    next => exact sound_goTo filled (Control.valid_reset _) fit

/-! ## Operations -/

theorem Sound.appendTrack (sound : tape.Sound) {track : Track}
    (fits : track.block.SamplesFit) :
    (tape.appendTrack track).Sound := by
  have fit : ∀ block ∈ tape.blocks ++ [track.block], block.SamplesFit := by
    intro block member
    rcases List.mem_append.mp member with before | added
    · exact sound.fit block before
    · rw [List.mem_singleton.mp added]
      exact fits
  have blocks : ({ tape with tracks := tape.tracks.push track } : Tape).blocks =
      tape.blocks ++ [track.block] := by
    simp [Tape.blocks]
  have control := sound.control.append [track.block]
  rw [← blocks] at fit control
  unfold Tape.appendTrack
  dsimp only
  split
  next none => exact sound_goTo (by simp [size]) control fit
  next index here =>
    have inside : index < tape.tracks.size := sound.inside index here
    refine sound.moveTo here ?_ ?_ control fit
    · simp only [size, Array.size_push]
      exact Nat.lt_succ_of_lt inside
    · simp [currentTrack?, here, Array.getElem?_push_lt, inside]

theorem Sound.extend (sound : tape.Sound) {tracks : List Track}
    (fits : ∀ track ∈ tracks, track.block.SamplesFit) :
    (tracks.foldl Tape.appendTrack tape).Sound := by
  induction tracks generalizing tape with
  | nil => exact sound
  | cons track tracks ih =>
      apply ih (sound.appendTrack (fits track List.mem_cons_self))
      intro later member
      exact fits later (List.mem_cons_of_mem track member)

theorem Sound.insertTrack (sound : tape.Sound) {track : Track}
    (fits : track.block.SamplesFit)
    (inserted : tape.insertTrack index track = .ok after) : after.Sound := by
  obtain ⟨place, outcome⟩ := insertTrack_ok inserted
  have fit : ∀ block ∈ (tape.tracks.insertIdx index track place).toList.map Track.block,
      block.SamplesFit := by
    intro block member
    simp only [List.mem_map, Array.mem_toList_iff, Array.mem_insertIdx] at member
    obtain ⟨found, rfl | before, rfl⟩ := member
    · exact fits
    · exact sound.fit _ (List.mem_map_of_mem (Array.mem_toList_iff.mpr before))
  rcases outcome with
      ⟨-, rfl⟩ | ⟨current, here, before, -, rfl⟩ | ⟨current, here, ahead, rfl⟩
  · exact sound_goTo (by simp [size, tracks_resetControl]) (Control.valid_reset _) fit
  · have inside : current < tape.tracks.size := sound.inside current here
    refine sound.moveTo rfl ?_ ?_ (Control.valid_reset _) fit
    · simpa [size, tracks_resetControl] using inside
    · have behind : index < current + 1 := Nat.lt_succ_of_le before
      simp [currentTrack?, here, Array.getElem?_insertIdx_of_ge behind inside]
  · refine sound.moveTo here ?_ ?_ (Control.valid_reset _) fit
    · simp only [size, tracks_resetControl, Array.size_insertIdx]
      exact Nat.lt_succ_of_lt (sound.inside current here)
    · simp [currentTrack?, here, Array.getElem?_insertIdx_of_lt place ahead]

theorem Sound.removeTrack (sound : tape.Sound) {track : Track}
    (removed : tape.removeTrack index = .ok (track, after)) : after.Sound := by
  obtain ⟨inside, outcome⟩ := removeTrack_ok removed
  have fit : ∀ block ∈ (tape.tracks.eraseIdx index inside).toList.map Track.block,
      block.SamplesFit := by
    intro block member
    obtain ⟨found, kept, rfl⟩ := List.mem_map.mp member
    have before := Array.mem_of_mem_eraseIdx (Array.mem_toList_iff.mp kept)
    exact sound.fit _ (List.mem_map_of_mem (Array.mem_toList_iff.mpr before))
  have shorter :
      (tape.tracks.eraseIdx index inside).size = tape.tracks.size - 1 := by simp
  rcases outcome with ⟨emptied, rfl⟩ | ⟨-, nowhere, -⟩ | ⟨-, current, here, before, rfl⟩ |
    ⟨place, within, rfl⟩ | ⟨-, current, here, ahead, rfl⟩
  · constructor
    · intro _
      exact emptied
    · intro place here
      cases here
    · exact Control.valid_reset _
    · intro track here
      cases here
    · exact fit
  · have empty : tape.tracks.size = 0 := sound.empty nowhere
    omega
  · have within : current < tape.tracks.size := sound.inside current here
    refine sound.moveTo rfl ?_ ?_ (Control.valid_reset _) fit
    · simp only [size, tracks_resetControl]
      omega
    · have back : current - 1 + 1 = current := by omega
      have kept : index ≤ current - 1 := by omega
      simp [currentTrack?, here, Array.getElem?_eraseIdx_of_ge inside kept, back]
  · exact sound_goTo within (Control.valid_reset _) fit
  · refine sound.moveTo here ?_ ?_ (Control.valid_reset _) fit
    · simp only [size, tracks_resetControl]
      omega
    · simp [currentTrack?, here, Array.getElem?_eraseIdx_of_lt inside ahead]

theorem Sound.select (sound : tape.Sound) (selected : tape.select index = .ok after) :
    after.Sound := by
  unfold Tape.select at selected
  split at selected
  next inside =>
    cases selected
    exact sound_goTo inside sound.control sound.fit
  next => cases selected

theorem sound_clear (tape : Tape) : tape.clear.Sound where
  empty _ := rfl
  inside _ here := by cases here
  control := Control.valid_reset _
  playable _ here := by cases here
  fit _ member := by cases member

theorem Sound.rewind (sound : tape.Sound) : tape.rewind.Sound := by
  unfold Tape.rewind
  dsimp only
  split
  next emptied =>
    exact sound.keep (fun _ => emptied) sound.inside rfl (Control.valid_reset _) sound.fit
  next filled => exact sound_goTo (Nat.pos_of_ne_zero filled) (Control.valid_reset _) sound.fit

theorem Sound.setConfig (sound : tape.Sound) (config : PlaybackConfig) :
    (tape.setConfig config).Sound :=
  sound.keep sound.empty sound.inside rfl sound.control sound.fit

theorem Sound.nextEdge (sound : tape.Sound) {edge : Edge}
    (played : tape.nextEdge = .ok (edge, after)) : after.Sound := by
  rcases nextEdge_ok played with ⟨-, -, rfl⟩ | ⟨index, inside, here, outcome⟩
  · exact sound
  · dsimp only at outcome
    have current : tape.currentTrack? = some tape.tracks[index] := by
      simp [currentTrack?, here, inside]
    have blocks : (tape.putTrack index (tape.tracks[index].step tape.config).2).blocks =
        tape.blocks := blocks_putTrack (Track.block_step _ _)
    rcases outcome with ⟨-, -, rfl⟩ | ⟨-, control, move, ended, -, followed⟩
    · constructor
      · intro none
        simp [putTrack, here] at none
      · intro place at_
        simpa [putTrack, size] using sound.inside place at_
      · rw [blocks]
        exact sound.control
      · intro track now
        simp only [currentTrack?, putTrack, here, Option.bind_some, inside,
          Array.getElem?_setIfInBounds_self_of_lt, Option.some.injEq] at now
        rw [← now]
        exact (sound.playable _ current).step tape.config
      · rw [blocks]
        exact sound.fit
    · have found : tape.blocks[index]? = some tape.tracks[index].block := by
        simp [Tape.blocks, inside]
      have lands := atEnd_lands sound.control found ended
      have filled : 0 < tape.tracks.size := Nat.lt_of_le_of_lt (Nat.zero_le index) inside
      rw [show after = (edge.flags, after).2 from rfl, followed]
      apply sound_follow
      · simpa [size, putTrack] using filled
      · rw [blocks_withControl, blocks]
        exact sound.fit
      · rw [blocks_withControl, blocks]
        exact lands

theorem Sound.perform (sound : tape.Sound) (operation : Operation)
    (fit : ∀ track ∈ operation.tracks, track.block.SamplesFit) :
    (tape.perform operation).Sound := by
  cases operation with
  | append track => exact sound.appendTrack (fit track (List.mem_singleton.mpr rfl))
  | extend tracks => exact sound.extend fit
  | insert index track =>
      simp only [Tape.perform]
      cases inserted : tape.insertTrack index track with
      | error error => exact sound
      | ok after => exact sound.insertTrack (fit track (List.mem_singleton.mpr rfl)) inserted
  | remove index =>
      simp only [Tape.perform]
      cases removed : tape.removeTrack index with
      | error error => exact sound
      | ok answer => exact sound.removeTrack removed
  | clear => exact sound_clear tape
  | select index =>
      simp only [Tape.perform]
      cases selected : tape.select index with
      | error error => exact sound
      | ok after => exact sound.select selected
  | rewind => exact sound.rewind
  | setConfig config => exact sound.setConfig config
  | nextEdge =>
      simp only [Tape.perform]
      cases played : tape.nextEdge with
      | error error => exact sound
      | ok answer => exact sound.nextEdge played

theorem sound_new (config : PlaybackConfig) : ({ config } : Tape).Sound where
  empty _ := rfl
  inside _ here := by cases here
  control := Control.valid_reset _
  playable _ here := by cases here
  fit _ member := by cases member

theorem Reachable.sound (reached : tape.Reachable) : tape.Sound := by
  induction reached with
  | new config => exact sound_new config
  | perform reached operation fit sound => exact sound.perform operation fit

/-! ## What can go wrong -/

/-- A jump or a call of a sequence at an index leads off the tape. -/
def LeadsOff (tape : Tape) (index : Nat) (offset : Int16) : Prop :=
  (tape.block? index = some (.jump offset) ∨
    ∃ offsets, tape.block? index = some (.callSequence offsets) ∧ offset ∈ offsets) ∧
  ¬(0 ≤ index + offset.toInt ∧ index + offset.toInt < tape.size)

theorem target_fails {begun : Control} {offset : Int16} {error : Error}
    (failed : (tape.target index offset >>= fun position => pure (begun, Move.to position)) =
      .error error) :
    error = .corrupt (.jumpOutside index offset.toInt tape.size) ∧
      ¬(0 ≤ index + offset.toInt ∧ index + offset.toInt < tape.size) := by
  cases reached : tape.target index offset with
  | error cause =>
      rw [reached] at failed
      cases failed
      exact target_error reached
  | ok position =>
      rw [reached] at failed
      cases failed

/-- The end of a block fails only when a jump or a call leads off the tape. -/
theorem atEnd_error {error : Error} (valid : tape.toControl.Valid tape.blocks)
    (found : tape.block? index = some block)
    (failed : tape.atEnd index block = .error error) :
    ∃ origin offset, tape.LeadsOff origin offset ∧
      error = .corrupt (.jumpOutside origin offset.toInt tape.size) := by
  cases block with
  | jump offset =>
      obtain ⟨rfl, outside⟩ := target_fails failed
      exact ⟨index, offset, ⟨.inl found, outside⟩, rfl⟩
  | loopEnd =>
      unfold atEnd at failed
      dsimp only at failed
      split at failed
      next => split at failed <;> cases failed
      next => cases failed
  | callSequence offsets =>
      unfold atEnd at failed
      dsimp only at failed
      split at failed
      next offset first =>
        obtain ⟨rfl, outside⟩ := target_fails failed
        have member := Array.mem_of_getElem? first
        exact ⟨index, offset, ⟨.inr ⟨offsets, found, member⟩, outside⟩, rfl⟩
      next => cases failed
  | callReturn =>
      unfold atEnd at failed
      dsimp only at failed
      split at failed
      next call begun =>
        obtain ⟨offsets, sequence, -⟩ := valid.call call begun
        rw [← block?_eq] at sequence
        simp only [returnFrom, sequence] at failed
        split at failed
        next offset next =>
          obtain ⟨rfl, outside⟩ := target_fails failed
          have member := Array.mem_of_getElem? next
          exact ⟨call.block, offset, ⟨.inr ⟨offsets, sequence, member⟩, outside⟩, rfl⟩
        next => cases failed
      next => cases failed
  | _ => cases failed

/-- A sound tape can be played unless a jump or a call leads off it. -/
theorem Sound.nextEdge_error (sound : tape.Sound) {error : Error}
    (failed : tape.nextEdge = .error error) :
    ∃ origin offset, tape.LeadsOff origin offset ∧
      error = .corrupt (.jumpOutside origin offset.toInt tape.size) := by
  obtain ⟨index, here, beyond | ⟨inside, outgrown | ending⟩⟩ :=
    lookAhead_error (Tape.nextEdge_error failed)
  · have within := sound.inside index here
    omega
  · have current : tape.currentTrack? = some tape.tracks[index] := by
      simp [currentTrack?, here, inside]
    have kept := (sound.playable _ current).not_overflows
    rw [kept] at outgrown
    cases outgrown
  · have found : tape.block? index = some tape.tracks[index].block := by
      simp [block?, inside]
    exact atEnd_error sound.control found ending

/-- However a tape came about: its cursor is at a block if it has any, a loop goes back
to the block after the one that began it, and a call has taken an offset of its
sequence. From any place in the samples of a block a run ends at a sample or behind the
last one, counted in a word, and the place that the current block has reached is such a
place or behind the data. So playing the tape can only fail by a jump or a call that
leads off it. -/
theorem cursor_loop_call_inside (reached : tape.Reachable) :
    (tape.current = none ↔ tape.blocks = []) ∧
    (∀ index, tape.current = some index → index < tape.size) ∧
    (tape.loopBlock = none → tape.loopCount = 0) ∧
    (∀ start, tape.loopBlock = some start → 1 ≤ start ∧ start < tape.size ∧
      ∃ count, tape.block? (start - 1) = some (.loopStart count)) ∧
    (∀ call, tape.call = some call → ∃ offsets,
      tape.block? call.block = some (.callSequence offsets) ∧
        1 ≤ call.next ∧ call.next ≤ offsets.size) ∧
    (∀ block, Block.rawData block ∈ tape.blocks → ∀ state : RawState,
      state.byteIndex < block.data.size → state.bitIndex < 8 → state.RunsInside block) ∧
    (∀ (block : RawDataBlock) (state : RawState),
      tape.currentTrack? = some ⟨.rawData block, state⟩ → state.bitIndex < 8) ∧
    (∀ error, tape.nextEdge = .error error → ∃ index offset, tape.LeadsOff index offset ∧
      error = .corrupt (.jumpOutside index offset.toInt tape.size)) := by
  have sound := reached.sound
  refine ⟨⟨?_, ?_⟩, sound.inside, sound.control.uncounted, ?_, ?_, ?_, ?_, ?_⟩
  · intro none
    rw [← List.length_eq_zero_iff, length_blocks]
    exact sound.empty none
  · intro empty
    cases here : tape.current with
    | none => rfl
    | some index =>
        have inside := sound.inside index here
        rw [← length_blocks, empty] at inside
        cases inside
  · intro start begun
    rw [block?_eq, ← length_blocks]
    exact sound.control.loop start begun
  · intro call begun
    rw [block?_eq]
    exact sound.control.call call begun
  · intro block member state inside bit
    exact RawState.runsInside (sound.fit _ member) inside (RawDataBlock.succ_bit_lt bit)
  · intro block state here
    exact sound.playable _ here
  · intro error failed
    exact sound.nextEdge_error failed

/-- Operations that begin a call and a loop inside it, with samples in between that had
been played elsewhere and a second call that leads off the tape. -/
def tangle : List Operation :=
  [.extend [.ofBlock (.callSequence #[1, 100]), .ofBlock (.loopStart 2),
      ⟨.rawData { sampleLength := 79, pause := 0, usedBits := 8, data := #[] },
        ({ byteIndex := 7, bitIndex := 255 } : RawState)⟩, .ofBlock .callReturn],
    .select 9, .nextEdge, .nextEdge, .nextEdge]

theorem cursor_loop_call_inside_tangle :
    (run {} tangle).Reachable ∧ (run {} tangle).current = some 3 ∧
    (run {} tangle).loopBlock = some 2 ∧ (run {} tangle).call = some ⟨0, 1⟩ ∧
    ∃ index offset, (run {} tangle).LeadsOff index offset ∧
      (run {} tangle).nextEdge =
        .error (.corrupt (.jumpOutside index offset.toInt 4)) := by
  have reached : (run {} tangle).Reachable := by
    apply (Reachable.new {}).run
    simp [tangle, Operation.tracks, Block.SamplesFit, Track.ofBlock]
  obtain ⟨-, -, -, -, -, -, -, failures⟩ := cursor_loop_call_inside reached
  have failed : (run {} tangle).nextEdge = .error (.corrupt (.jumpOutside 0 100 4)) := rfl
  obtain ⟨index, offset, off, same⟩ := failures _ failed
  exact ⟨reached, rfl, rfl, rfl, index, offset, off,
    failed.trans (congrArg Except.error same)⟩

end Tape

end ZxMedia
