import ZxMedia.Proofs.Tape.Ending
import ZxMedia.Proofs.Tape.PulseReader
import ZxMedia.Proofs.Tape.Replay

/-!
# Tapes that go around in a circle

A reader plays on until an interval gives it a pulse or stops the tape. Blocks that take
no time can send the cursor around for ever, and then the reader waits for ever. This is
so exactly if the tape comes back to a place where it has been before, without having
given anything in between (`Circles`): what it plays from there is what it played
before.

The other direction is an argument on the number of places. A block that gives nothing
comes to its end, so new blocks begin again and again, and there are only finitely many
places at which a block begins: so many blocks, loops and calls.
-/

namespace ZxMedia

/-- A reader gets nothing of the interval: it takes no time, and the tape does not stop
with it. -/
def Edge.Silent (edge : Edge) (stopOn48k : Bool) : Prop :=
  edge.tstates = 0 ∧ edge.stops stopOn48k = false

/-! ## Intervals without an edge -/

/-- Without an edge at its end a step takes no time. -/
def Step.Instant (step : Step) : Prop :=
  step.flags.noEdge = true → step.tstates = 0

theorem Step.instant_pulse (tstates : Nat) : (Step.pulse tstates).Instant :=
  nofun

theorem Step.instant_lastPulse (tstates : Nat) : (Step.lastPulse tstates).Instant :=
  nofun

theorem Step.instant_control (flags : EdgeFlags) : (Step.control flags).Instant :=
  fun _ => rfl

theorem Step.instant_pause (milliseconds : UInt16) (config : PlaybackConfig) :
    (Step.pause milliseconds config).Instant := by
  unfold Step.pause
  split
  · exact instant_control {}
  · exact instant_lastPulse _

theorem DataState.instant_step (state : DataState) (coding : Coding)
    (config : PlaybackConfig) :
    (state.step coding config).1.Instant := by
  unfold step
  cases state.phase with
  | pause => exact Step.instant_pause coding.pause config
  | _ => exact Step.instant_pulse _

theorem RawState.instant_step (state : RawState) (block : RawDataBlock)
    (config : PlaybackConfig) :
    (state.step block config).1.Instant := by
  unfold step
  cases state.phase with
  | data => exact Step.instant_pulse _
  | pause => exact Step.instant_pause block.pause config

theorem instant_stepTone (length : UInt16) (left : Nat) :
    (stepTone length left).1.Instant := by
  unfold stepTone
  split
  · exact Step.instant_control {}
  · exact Step.instant_lastPulse _
  · exact Step.instant_pulse _

theorem instant_stepPulses (lengths : Array UInt16) (index : Nat) :
    (stepPulses lengths index).1.Instant := by
  unfold stepPulses
  split
  · exact Step.instant_control {}
  · split
    · exact Step.instant_lastPulse _
    · exact Step.instant_pulse _

theorem Track.instant_step (track : Track) (config : PlaybackConfig) :
    (track.step config).1.Instant := by
  obtain ⟨block, progress⟩ := track
  cases block with
  | rom block => exact DataState.instant_step progress block.coding config
  | turbo block => exact DataState.instant_step progress block.coding config
  | pureData block => exact DataState.instant_step progress block.coding config
  | rawData block => exact RawState.instant_step progress block config
  | pureTone length pulses => exact instant_stepTone length progress
  | pulses lengths => exact instant_stepPulses lengths progress
  | pause milliseconds =>
      unfold step
      dsimp only
      split
      · exact Step.instant_control _
      · exact nofun
  | _ => exact Step.instant_control _

namespace Tape

variable {tape middle after : Tape} {edges front back : List Edge} {edge : Edge}
variable {stopOn48k : Bool} {index count : Nat}

theorem noEdge_follow (tape : Tape) (move : Move) (flags : EdgeFlags) :
    (tape.follow move flags).1.noEdge = flags.noEdge := by
  unfold follow
  rcases move with place | place
  · rfl
  · dsimp only
    split <;> rfl

/-- An interval that ends without an edge takes no time. -/
theorem nextEdge_instant (played : tape.nextEdge = .ok (edge, after))
    (quiet : edge.isEdge = false) : edge.tstates = 0 := by
  simp only [Edge.isEdge, Bool.not_eq_false'] at quiet
  rcases nextEdge_ok played with ⟨-, rfl, -⟩ | ⟨index, inside, -, outcome⟩
  · rfl
  · rcases outcome with ⟨-, rfl, -⟩ | ⟨-, control, move, -, tstates, followed⟩
    · exact Track.instant_step _ _ quiet
    · rw [tstates]
      apply Track.instant_step
      rw [show edge.flags = (edge.flags, after).1 from rfl, followed,
        noEdge_follow] at quiet
      exact quiet

/-! ## Silent intervals one after another -/

/-- The tape gives the edges, and a reader gets nothing of them. -/
structure Passes (stopOn48k : Bool) (tape : Tape) (edges : List Edge)
    (after : Tape) : Prop where
  gives : tape.Gives edges after
  silent : ∀ edge ∈ edges, edge.Silent stopOn48k

/-- The tape after so many intervals, or where it failed. -/
def playedFor (tape : Tape) (count : Nat) : Tape :=
  (fun tape => tape.perform .nextEdge)^[count] tape

theorem playedFor_add (tape : Tape) (count more : Nat) :
    tape.playedFor (count + more) = (tape.playedFor count).playedFor more := by
  unfold playedFor
  rw [Nat.add_comm]
  exact Function.iterate_add_apply _ _ _ _

theorem playedFor_succ (played : tape.nextEdge = .ok (edge, after)) (count : Nat) :
    tape.playedFor (count + 1) = after.playedFor count := by
  have moved : tape.perform .nextEdge = after := by
    simp only [Tape.perform, played]
    rfl
  rw [← moved]
  exact Function.iterate_succ_apply _ _ _

/-- However long the tape is played, a reader gets nothing of it. -/
def Silent (tape : Tape) (stopOn48k : Bool) : Prop :=
  ∀ count, ∃ edges, edges.length = count ∧ tape.Passes stopOn48k edges (tape.playedFor count)

/-- The tape comes to a place and then once more to the same place, and a reader gets
nothing of all this. -/
def Circles (tape : Tape) (stopOn48k : Bool) : Prop :=
  ∃ front middle round after, tape.Passes stopOn48k front middle ∧ round ≠ [] ∧
    middle.Passes stopOn48k round after ∧ after.Alike middle

theorem Gives.eq_playedFor (gives : tape.Gives edges after) :
    after = tape.playedFor edges.length := by
  induction gives with
  | nil => rfl
  | cons played _ ih =>
      rw [ih]
      exact (playedFor_succ played _).symm

theorem Gives.unique {other : List Edge} {last : Tape} (gives : tape.Gives edges after)
    (again : tape.Gives other last) (long : edges.length = other.length) :
    edges = other ∧ after = last := by
  induction gives generalizing other with
  | nil =>
      obtain rfl : other = [] := List.length_eq_zero_iff.mp long.symm
      cases again
      exact ⟨rfl, rfl⟩
  | cons played _ ih =>
      cases again with
      | nil => cases long
      | cons first later =>
          rw [played] at first
          cases first
          obtain ⟨same, rfl⟩ := ih later (Nat.succ.inj long)
          exact ⟨congrArg _ same, rfl⟩

theorem Gives.keeps (gives : tape.Gives edges after) :
    after.blocks = tape.blocks ∧ after.config = tape.config := by
  induction gives with
  | nil => exact ⟨rfl, rfl⟩
  | cons played _ ih =>
      obtain ⟨blocks, config⟩ := nextEdge_keeps played
      exact ⟨ih.1.trans blocks, ih.2.trans config⟩

namespace Passes

theorem nil (stopOn48k : Bool) (tape : Tape) : tape.Passes stopOn48k [] tape :=
  ⟨.nil tape, nofun⟩

theorem cons (played : tape.nextEdge = .ok (edge, middle)) (quiet : edge.Silent stopOn48k)
    (later : middle.Passes stopOn48k edges after) :
    tape.Passes stopOn48k (edge :: edges) after where
  gives := .cons played later.gives
  silent other member := (List.mem_cons.mp member).elim (fun same => same ▸ quiet)
    (later.silent other)

theorem append (first : tape.Passes stopOn48k front middle)
    (later : middle.Passes stopOn48k back after) :
    tape.Passes stopOn48k (front ++ back) after where
  gives := first.gives.append later.gives
  silent edge member := (List.mem_append.mp member).elim (first.silent edge) (later.silent edge)

/-- Silent intervals can be taken apart anywhere. -/
theorem split (passes : tape.Passes stopOn48k edges after)
    (early : count ≤ edges.length) :
    tape.Passes stopOn48k (edges.take count) (tape.playedFor count) ∧
      (tape.playedFor count).Passes stopOn48k (edges.drop count) after := by
  have gives := passes.gives
  rw [← List.take_append_drop count edges] at gives
  obtain ⟨middle, first, later⟩ := gives.split
  have there := first.eq_playedFor
  rw [List.length_take_of_le early] at there
  subst there
  exact ⟨⟨first, fun edge member => passes.silent edge (List.mem_of_mem_take member)⟩,
    later, fun edge member => passes.silent edge (List.mem_of_mem_drop member)⟩

end Passes

theorem Silent.playedFor (silent : tape.Silent stopOn48k) (count : Nat) :
    (tape.playedFor count).Silent stopOn48k := by
  intro more
  obtain ⟨edges, long, passes⟩ := silent (count + more)
  obtain ⟨-, later⟩ := passes.split (show count ≤ edges.length by omega)
  have there := later.gives.eq_playedFor
  rw [List.length_drop, long, Nat.add_sub_cancel_left] at there
  exact ⟨edges.drop count, by rw [List.length_drop]; omega, there ▸ later⟩

/-- A tape that is silent for ever gives a silent interval, and is silent for ever
behind it. -/
theorem Silent.next (silent : tape.Silent stopOn48k) :
    ∃ edge after, tape.nextEdge = .ok (edge, after) ∧ edge.Silent stopOn48k ∧
      after.Silent stopOn48k := by
  obtain ⟨edges, one, passes⟩ := silent 1
  obtain ⟨edge, rfl⟩ := List.length_eq_one_iff.mp one
  cases passes.gives with
  | @cons _ next _ _ _ played last =>
      have moved : tape.playedFor 1 = next := playedFor_succ played 0
      exact ⟨edge, next, played, passes.silent edge List.mem_cons_self,
        moved ▸ silent.playedFor 1⟩

/-! ## A circle is gone around for ever -/

/-- From a place to which it comes back, a tape plays the round as often as one
likes. -/
theorem Passes.rounds {round : List Edge} (some : round ≠ [])
    (passes : tape.Passes stopOn48k round after) (back : after.Alike tape) (count : Nat) :
    ∃ edges last, count ≤ edges.length ∧ tape.Passes stopOn48k edges last ∧
      last.Alike tape := by
  induction count with
  | zero => exact ⟨[], tape, Nat.le_refl 0, .nil stopOn48k tape, .refl tape⟩
  | succ count ih =>
      obtain ⟨edges, last, long, passed, there⟩ := ih
      obtain ⟨next, again, same⟩ := there.symm.gives passes.gives
      refine ⟨edges ++ round, next, ?_, passed.append ⟨again, passes.silent⟩,
        same.symm.trans back⟩
      have positive := List.length_pos_iff.mpr some
      rw [List.length_append]
      omega

theorem Circles.silent (circles : tape.Circles stopOn48k) : tape.Silent stopOn48k := by
  obtain ⟨front, middle, round, after, first, some, passes, back⟩ := circles
  intro count
  obtain ⟨edges, last, long, rounds, -⟩ := passes.rounds some back count
  have early : count ≤ (front ++ edges).length := by
    rw [List.length_append]
    omega
  obtain ⟨passed, -⟩ := (first.append rounds).split early
  exact ⟨_, List.length_take_of_le early, passed⟩

/-- A tape that silently comes back to where it is goes around in a circle. -/
theorem Gives.circles {round : List Edge} (gives : tape.Gives round tape)
    (some : round ≠ [])
    (silent : ∀ edge ∈ round, edge.Silent stopOn48k) : tape.Circles stopOn48k :=
  ⟨[], tape, round, tape, .nil stopOn48k tape, some, ⟨gives, silent⟩, .refl tape⟩

/-! ## Whoever waits for ever goes around in a circle -/

/-- The current block is at its beginning. -/
def Fresh (tape : Tape) : Prop :=
  tape.currentTrack?.map Track.cue = tape.currentTrack?

theorem fresh_goTo (tape : Tape) (index : Nat) : (tape.goTo index).Fresh := by
  unfold Fresh
  rw [currentTrack?_goTo, Option.map_map]
  rfl

theorem fresh_follow (tape : Tape) (move : Move) (flags : EdgeFlags) :
    (tape.follow move flags).2.Fresh := by
  unfold follow
  rcases move with place | place
  · exact fresh_goTo tape place
  · dsimp only
    split
    · exact fresh_goTo tape place
    · exact fresh_goTo tape.resetControl 0

/-- Where a block begins, the block and what control blocks have begun say
everything. -/
theorem Fresh.alike {first second : Tape} (fresh : first.Fresh) (other : second.Fresh)
    (blocks : first.blocks = second.blocks) (config : first.config = second.config)
    (control : first.toControl = second.toControl)
    (current : first.current = second.current) :
    first.Alike second := by
  refine ⟨blocks, config, control, current, ?_⟩
  rw [← fresh, ← other]
  unfold currentTrack?
  rw [current]
  cases second.current with
  | none => rfl
  | some index =>
      change first.tracks[index]?.map Track.cue = second.tracks[index]?.map Track.cue
      rw [getElem?_cue, getElem?_cue, blocks]

/-- A bound of the intervals that are left of the current block. -/
def left (tape : Tape) : Nat :=
  (tape.currentTrack?.map Track.stepsBound).getD 0

/-- With every interval a block begins, or fewer are left of the current one. -/
theorem Sound.fresh_or_left_lt (sound : tape.Sound) (here : tape.current = some index)
    (played : tape.nextEdge = .ok (edge, after)) :
    after.Fresh ∨ after.left < tape.left := by
  rcases nextEdge_ok played with ⟨none, -, -⟩ | ⟨place, inside, there, outcome⟩
  · rw [here] at none
    cases none
  · rcases outcome with ⟨goesOn, -, rfl⟩ | ⟨-, control, move, -, -, followed⟩
    · right
      have current : tape.currentTrack? = some tape.tracks[place] := by
        simp [currentTrack?, there, inside]
      have lower := (sound.playable _ current).ends_or_stepsBound_lt tape.config
      rw [goesOn] at lower
      have within : place < tape.size := inside
      unfold left
      rw [currentTrack?_putTrack there, if_pos within, current]
      exact lower.resolve_left (by decide)
    · left
      rw [show after = (edge.flags, after).2 from rfl, followed]
      exact fresh_follow _ _ _

theorem Silent.current (silent : tape.Silent stopOn48k) :
    ∃ index, tape.current = some index := by
  obtain ⟨edge, after, played, quiet, -⟩ := silent.next
  rcases nextEdge_ok played with ⟨-, rfl, -⟩ | ⟨index, -, here, -⟩
  · cases quiet.2
  · exact ⟨index, here⟩

/-- A tape that is silent for ever begins a block again and again. -/
theorem Silent.fresh (silent : tape.Silent stopOn48k) (sound : tape.Sound) :
    ∃ count, 0 < count ∧ (tape.playedFor count).Fresh := by
  generalize bound : tape.left = bound_
  induction bound_ using Nat.strongRecOn generalizing tape with
  | ind bound_ ih =>
      obtain ⟨index, here⟩ := silent.current
      obtain ⟨edge, after, played, -, later⟩ := silent.next
      rcases sound.fresh_or_left_lt here played with fresh | lower
      · refine ⟨1, Nat.one_pos, ?_⟩
        rw [playedFor_succ played]
        exact fresh
      · obtain ⟨count, -, fresh⟩ := ih _ (bound ▸ lower) later (sound.nextEdge played) rfl
        exact ⟨count + 1, Nat.succ_pos count, by rwa [playedFor_succ played]⟩

/-! ## So many places -/

theorem target_control {begun control : Control} {move : Move} {offset : Int16}
    (moved : (tape.target index offset >>= fun position => pure (begun, Move.to position)) =
      .ok (control, move)) : control = begun := by
  obtain ⟨position, -, same⟩ := bind_ok.mp moved
  cases same
  rfl

/-- The end of a block sets the count of a loop to a word of 16 bits, or counts down. -/
theorem atEnd_loopCount {block : Block} {control : Control} {move : Move}
    (ended : tape.atEnd index block = .ok (control, move)) :
    control.loopCount ≤ max tape.loopCount 65535 := by
  cases block with
  | jump offset =>
      rw [target_control ended]
      exact Nat.le_max_left _ _
  | loopStart times =>
      cases ended
      exact le_max_of_le_right (Nat.le_of_lt_succ times.toNat_lt)
  | loopEnd =>
      unfold atEnd at ended
      dsimp only at ended
      split at ended
      · split at ended
        · cases ended
          exact le_max_of_le_left (Nat.sub_le _ _)
        · cases ended
          exact Nat.zero_le _
      · cases ended
        exact Nat.le_max_left _ _
  | callSequence offsets =>
      unfold atEnd at ended
      dsimp only at ended
      split at ended
      · rw [target_control ended]
        exact Nat.le_max_left _ _
      · cases ended
        exact Nat.le_max_left _ _
  | callReturn =>
      unfold atEnd at ended
      dsimp only at ended
      split at ended
      · unfold returnFrom at ended
        split at ended
        · split at ended
          · rw [target_control ended]
            exact Nat.le_max_left _ _
          · cases ended
            exact Nat.le_max_left _ _
        · cases ended
      · cases ended
        exact Nat.le_max_left _ _
  | _ =>
      cases ended
      exact Nat.le_max_left _ _

theorem loopCount_follow (tape : Tape) (move : Move) (flags : EdgeFlags) :
    (tape.follow move flags).2.loopCount ≤ tape.loopCount := by
  unfold follow
  rcases move with place | place
  · exact Nat.le_refl _
  · dsimp only
    split
    · exact Nat.le_refl _
    · exact Nat.zero_le _

theorem nextEdge_loopCount (played : tape.nextEdge = .ok (edge, after)) :
    after.loopCount ≤ max tape.loopCount 65535 := by
  rcases nextEdge_ok played with ⟨-, -, rfl⟩ | ⟨place, inside, -, outcome⟩
  · exact Nat.le_max_left _ _
  · rcases outcome with ⟨-, -, rfl⟩ | ⟨-, control, move, ended, -, followed⟩
    · exact Nat.le_max_left _ _
    · rw [show after = (edge.flags, after).2 from rfl, followed]
      exact (loopCount_follow _ _ _).trans (atEnd_loopCount ended)

theorem Gives.loopCount (gives : tape.Gives edges after) :
    after.loopCount ≤ max tape.loopCount 65535 := by
  induction gives with
  | nil => exact Nat.le_max_left _ _
  | cons played _ ih =>
      have one := nextEdge_loopCount played
      omega

end Tape

namespace Control

variable {control : Control} {blocks : List Block} {bound : Nat}

/-- The numbers of the control are all below a bound. -/
structure Below (control : Control) (bound : Nat) : Prop where
  loop : ∀ start, control.loopBlock = some start → start < bound
  counted : control.loopCount < bound
  call : ∀ call, control.call = some call → call.block < bound ∧ call.next < bound

/-- The control of a loop and a call with numbers below a bound. -/
def ofFin {bound : Nat} (loop : Option (Fin bound)) (count : Fin bound)
    (call : Option (Fin bound × Fin bound)) : Control where
  loopBlock := loop.map Fin.val
  loopCount := count
  call := call.map fun (block, next) => ⟨block, next⟩

theorem Below.exists_ofFin (below : control.Below bound) :
    ∃ (loop : Option (Fin bound)) (count : Fin bound)
    (call : Option (Fin bound × Fin bound)),
      ofFin loop count call = control := by
  obtain ⟨loopBlock, loopCount, call⟩ := control
  have inLoop : ∃ loop : Option (Fin bound), loop.map Fin.val = loopBlock := by
    cases loopBlock with
    | none => exact ⟨none, rfl⟩
    | some start => exact ⟨some ⟨start, below.loop start rfl⟩, rfl⟩
  have inCall : ∃ pair : Option (Fin bound × Fin bound),
      (pair.map fun (block, next) => (⟨block, next⟩ : CallState)) = call := by
    cases call with
    | none => exact ⟨none, rfl⟩
    | some call =>
        obtain ⟨block, next⟩ := below.call call rfl
        exact ⟨some (⟨call.block, block⟩, ⟨call.next, next⟩), rfl⟩
  obtain ⟨loop, rfl⟩ := inLoop
  obtain ⟨pair, rfl⟩ := inCall
  exact ⟨loop, ⟨loopCount, below.counted⟩, pair, rfl⟩

theorem finite_below (bound : Nat) :
    {control : Control | control.Below bound}.Finite := by
  let place := fun numbers : Option (Fin bound) × Fin bound × Option (Fin bound × Fin bound) =>
    ofFin numbers.1 numbers.2.1 numbers.2.2
  apply (Set.finite_range place).subset
  intro control below
  obtain ⟨loop, count, call, same⟩ := Below.exists_ofFin below
  exact ⟨(loop, count, call), same⟩

/-- Loops and calls that agree with the blocks of a tape are below a bound that the
blocks set. -/
theorem Valid.below (valid : control.Valid blocks) (long : blocks.length ≤ bound)
    (counted : control.loopCount < bound)
    (called : ∀ offsets, .callSequence offsets ∈ blocks → offsets.size < bound) :
    control.Below bound where
  loop start begun := by
    obtain ⟨-, inside, -⟩ := valid.loop start begun
    exact inside.trans_le long
  counted := counted
  call call begun := by
    obtain ⟨offsets, found, -, next⟩ := valid.call call begun
    obtain ⟨inside, -⟩ := List.getElem?_eq_some_iff.mp found
    have member := List.mem_of_getElem? found
    exact ⟨inside.trans_le long, next.trans_lt (called offsets member)⟩

end Control

/-- The number of calls that a block makes. -/
def Block.calls : Block → Nat
  | .callSequence offsets => offsets.size
  | _ => 0

namespace Tape

variable {tape after : Tape} {edges : List Edge} {stopOn48k : Bool}

/-- A bound of all the numbers that loops and calls come to while the tape is played. -/
def ceiling (tape : Tape) : Nat :=
  tape.size + tape.loopCount + 65536 + (tape.blocks.map Block.calls).sum

theorem calls_lt_ceiling {offsets : Array Int16}
    (member : .callSequence offsets ∈ tape.blocks) :
    offsets.size < tape.ceiling := by
  have one := List.le_sum_of_mem (List.mem_map_of_mem (f := Block.calls) member)
  change offsets.size ≤ _ at one
  unfold ceiling
  omega

/-- While a sound tape is played, loops and calls stay below its bound. -/
theorem Sound.below_ceiling (sound : tape.Sound) (gives : tape.Gives edges after) :
    after.toControl.Below tape.ceiling := by
  obtain ⟨blocks, -⟩ := gives.keeps
  have valid := (gives.sound sound).control
  rw [blocks] at valid
  have counted := gives.loopCount
  refine valid.below ?_ ?_ ?_
  · rw [length_blocks]
    unfold ceiling
    omega
  · unfold ceiling
    omega
  · intro offsets member
    exact calls_lt_ceiling member

/-- A sound tape that is silent for ever goes around in a circle: there are only so many
places at which it can begin a block. -/
theorem Sound.circles_of_silent (sound : tape.Sound) (silent : tape.Silent stopOn48k) :
    tape.Circles stopOn48k := by
  have again : {count | (tape.playedFor count).Fresh}.Infinite := by
    apply Set.infinite_of_forall_exists_gt
    intro count
    obtain ⟨edges, -, passes⟩ := silent count
    obtain ⟨more, some, fresh⟩ :=
      (silent.playedFor count).fresh (passes.gives.sound sound)
    refine ⟨count + more, ?_, by omega⟩
    rw [← playedFor_add] at fresh
    exact fresh
  let places : Set (Option Nat × Control) :=
    (some '' Set.Iio tape.size) ×ˢ {control | control.Below tape.ceiling}
  have few : places.Finite := ((Set.finite_Iio _).image _).prod (Control.finite_below _)
  have there : Set.MapsTo
      (fun count => ((tape.playedFor count).current, (tape.playedFor count).toControl))
      {count | (tape.playedFor count).Fresh} places := by
    intro count _
    obtain ⟨edges, -, passes⟩ := silent count
    obtain ⟨index, here⟩ := (silent.playedFor count).current
    have inside := (passes.gives.sound sound).inside index here
    rw [← length_blocks, passes.gives.keeps.1, length_blocks] at inside
    exact ⟨⟨index, inside, here.symm⟩, sound.below_ceiling passes.gives⟩
  obtain ⟨first, fresh, second, again, earlier, same⟩ :=
    again.exists_lt_map_eq_of_mapsTo there few
  obtain ⟨current, control⟩ := Prod.mk.inj same
  obtain ⟨edges, long, passes⟩ := silent second
  obtain ⟨front, round⟩ := passes.split (show first ≤ edges.length by omega)
  refine ⟨_, _, _, _, front, ?_, round, ?_⟩
  · apply List.ne_nil_of_length_pos
    rw [List.length_drop]
    omega
  · obtain ⟨blocks, config⟩ := round.gives.keeps
    exact Fresh.alike again fresh blocks config control.symm current.symm

/-- Without jumps and calls a tape comes to its end, which is not silent. -/
theorem Sound.not_circles (sound : tape.Sound) (straight : tape.Straight) :
    ¬tape.Circles stopOn48k := by
  intro circles
  have silent := circles.silent
  obtain ⟨index, here⟩ := silent.current
  obtain ⟨edges, last, after, gives, stop, -⟩ := sound.finishes straight here
  obtain ⟨others, long, passes⟩ := silent (edges ++ [last]).length
  obtain ⟨rfl, -⟩ := gives.unique passes.gives long.symm
  have quiet := (passes.silent last (by simp)).2
  rw [Edge.stops, stop] at quiet
  cases quiet

end Tape

end ZxMedia
