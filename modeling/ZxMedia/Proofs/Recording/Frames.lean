import Mathlib
import ZxMedia.Recording.Basic

/-!
# Well formed frames

A repetition has no octets and no number of octets of its own, both are those of the
last frame in front of it that is no repetition. A block of input is well formed if
every frame of it can stand behind the frames in front of it. The frame that a recording
stores next always can, so recording keeps blocks well formed.
-/

namespace ZxMedia

namespace Frame

/-- The last frame that is no repetition. -/
def lastOwn? (frames : List Frame) : Option Frame :=
  frames.reverse.find? fun frame => !frame.repeats

/-- A frame can stand behind others: it counts its own octets, which a file can hold, or
it has none and repeats the last frame that has. -/
def Follows (before : List Frame) (frame : Frame) : Prop :=
  if frame.repeats then
    frame.input = #[] ∧ ∃ last, lastOwn? before = some last ∧ frame.count = last.count
  else frame.count.toNat = frame.input.size ∧ frame.input.size < repeatMark

@[simp] theorem lastOwn?_nil : lastOwn? [] = none := rfl

@[simp] theorem lastOwn?_append (frames : List Frame) (frame : Frame) :
    lastOwn? (frames ++ [frame]) =
      if frame.repeats then lastOwn? frames else some frame := by
  cases repeats : frame.repeats <;> simp [lastOwn?, repeats]

/-- Behind a frame, the octets of the last frame with its own are as many as the frame
counts. -/
theorem Follows.count_lastOwn? {before : List Frame} {frame : Frame}
    (follows : frame.Follows before) :
    (lastOwn? (before ++ [frame])).map Frame.count = some frame.count := by
  rw [lastOwn?_append]
  unfold Follows at follows
  split at follows
  next repeats =>
    obtain ⟨-, last, found, same⟩ := follows
    simp [repeats, found, same]
  next own => simp [own]

theorem ofInput_follows {instructions : UInt16} {input : Octets} {frame : Frame}
    (made : ofInput instructions input = .ok frame) (before : List Frame) :
    frame.Follows before := by
  unfold ofInput at made
  split at made
  next fits =>
    obtain rfl := Except.ok.inj made
    refine ⟨?_, fits⟩
    have bound : input.size < 2 ^ 16 := Nat.lt_trans fits (by decide)
    exact UInt16.toNat_ofNat_of_lt' bound
  next => cases made

theorem repetition_follows {before : List Frame} {last : Frame}
    (found : lastOwn? before = some last)
    (instructions : UInt16) : (repetition instructions last.count).Follows before :=
  ⟨rfl, last, found, rfl⟩

end Frame

namespace InputBlock

/-- Every frame can stand behind the frames in front of it. -/
def WellFormed (block : InputBlock) : Prop :=
  ∀ before frame after, block.frames.toList = before ++ frame :: after → frame.Follows before

theorem wellFormed_empty (tstates : UInt32) : ({ tstates } : InputBlock).WellFormed := by
  intro before frame after split
  simp at split

theorem WellFormed.push {block : InputBlock} (wellFormed : block.WellFormed)
    {frame : Frame}
    (follows : frame.Follows block.frames.toList) :
    ({ block with frames := block.frames.push frame } : InputBlock).WellFormed := by
  intro before other after split
  rw [Array.toList_push] at split
  rcases List.eq_nil_or_concat after with rfl | ⟨after, last, rfl⟩
  · obtain ⟨rfl, same⟩ := List.append_inj' split rfl
    obtain rfl : frame = other := by simpa using same
    exact follows
  · rw [List.concat_eq_append, ← List.cons_append, ← List.append_assoc] at split
    exact wellFormed before other after (List.append_inj' split rfl).1

theorem lastInput?_eq (block : InputBlock) :
    block.lastInput? = Frame.lastOwn? block.frames.toList := by
  simp [lastInput?, Frame.lastOwn?, ← Array.find?_toList]

end InputBlock

/-- The frame that a recording stores next can stand at the end of the block. -/
theorem Recording.nextFrame_follows {block : InputBlock} {instructions : UInt16}
    {input : Octets}
    {frame : Frame} (next : nextFrame block instructions input = .ok frame) :
    frame.Follows block.frames.toList := by
  unfold nextFrame at next
  split at next
  next last found =>
    rw [InputBlock.lastInput?_eq] at found
    split at next
    · obtain rfl := Except.ok.inj next
      exact Frame.repetition_follows found instructions
    · exact Frame.ofInput_follows next _
  next => exact Frame.ofInput_follows next _

end ZxMedia
