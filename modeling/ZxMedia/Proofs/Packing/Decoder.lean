import Mathlib
import ZxMedia.Packing.Decoder

/-!
# Taking content out comes to its end

A decoder gives the content of a stream (`Decoder.Gives`) if its portions are the next
octets of it, in whatever sizes there is room for. Every portion but the last then reads
some input or holds some octets, so there are no more of them than both have octets, and
what is taken out does not depend on how the room grows. `Gives.fill_cases` says what
filling the output leads to from any place in the stream, and `Gives.inflate_cases` from
its start.
-/

namespace ZxMedia.Packing

/-! ## Decoders underway -/

/-- What a decoder comes to in a stream when it is called again and again with room for
its output: its state, the input that is left and the octets given. -/
inductive Decoder.Reaches (decoder : Decoder) (stream : List UInt8) :
    decoder.State → List UInt8 → Octets → Prop where
  | start : decoder.Reaches stream decoder.start stream #[]
  | call {state : decoder.State} {input : List UInt8} {given : Octets} {room : Nat}
      {portion : Portion decoder.State} (before : decoder.Reaches stream state input given)
      (space : 0 < room) (answer : decoder.decode? state input room = some portion)
      (goesOn : portion.isLast = false) :
      decoder.Reaches stream portion.state (input.drop portion.read) (given ++ portion.octets)

/-- What a decoder may answer underway in a stream, with some input left, some octets
given and room for more. -/
def Decoder.Answers (decoder : Decoder) (stream input : List UInt8) (given : Octets)
    (room : Nat)
    (answer : Option (Portion decoder.State)) : Prop :=
  0 < room ∧ ∃ state, decoder.Reaches stream state input given ∧
    decoder.decode? state input room = answer

/-- A decoder gives the content of a stream, which is sound if it is complete and its
checksum matches. What can be decoded of a stream that is not sound is given too, or the
decoder fails. -/
structure Decoder.Gives (decoder : Decoder) (stream : List UInt8) (content : Octets)
    (sound : Prop) : Prop where
  /-- A portion holds the next octets of the content, up to the room for them. -/
  next {input : List UInt8} {given : Octets} {room : Nat} {portion : Portion decoder.State} :
    decoder.Answers stream input given room (some portion) → portion.read ≤ input.length ∧
      portion.octets.size ≤ room ∧ ∃ rest, content = given ++ portion.octets ++ rest
  /-- There are some octets in it unless all of them are given. -/
  advances {input : List UInt8} {given : Octets} {room : Nat} {portion : Portion decoder.State} :
    sound → decoder.Answers stream input given room (some portion) → given ≠ content →
      portion.octets ≠ #[]
  /-- It is the last one exactly if the stream is sound and all of its content is
  given. -/
  last {input : List UInt8} {given : Octets} {room : Nat} {portion : Portion decoder.State} :
    decoder.Answers stream input given room (some portion) →
      (portion.isLast = true ↔ sound ∧ given ++ portion.octets = content)
  /-- A sound stream is not found to be broken. -/
  answers {input : List UInt8} {given : Octets} {room : Nat} :
    sound → ¬ decoder.Answers stream input given room none

/-! ## Sizes -/

theorem checkLength_cases (declared : Option Nat) (output : Octets) :
    checkLength declared output = .ok () ∨ ∃ size ∈ declared, size < output.size ∧
      checkLength declared output = .error (.corrupt (.zlibOversized size)) := by
  unfold checkLength
  split
  next size =>
    split
    next longer => exact .inr ⟨size, rfl, longer, rfl⟩
    next => exact .inl rfl
  next => exact .inl rfl

theorem checkSize_cases (declared : Option Nat) (output : Octets) :
    checkSize declared output = .ok output ∧ (∀ size ∈ declared, output.size = size) ∨
      ∃ size ∈ declared, output.size ≠ size ∧
        checkSize declared output = .error (.corrupt (.zlibSize output.size size)) := by
  unfold checkSize
  split
  next size =>
    split
    next differs => exact .inr ⟨size, rfl, differs.symm, rfl⟩
    next same => exact .inl ⟨rfl, by simpa using (not_not.mp same).symm⟩
  next => exact .inl ⟨rfl, by simp⟩

theorem firstRoom_pos (streamSize : Nat) (declared : Option Nat) :
    0 < firstRoom streamSize declared := by
  unfold firstRoom
  omega

/-! ## Filling -/

/-- An output that was filled within some portions is filled alike if more of them are
allowed. -/
theorem Decoder.fill_mono {decoder : Decoder} {declared : Option Nat}
    {portions more : Nat}
    {state : decoder.State} {input : List UInt8} {room : Nat} {output : Octets}
    (filled : decoder.fill declared portions state input room output ≠ .error .endless)
    (allowed : portions ≤ more) :
    decoder.fill declared more state input room output =
      decoder.fill declared portions state input room output := by
  induction portions generalizing more state input room output with
  | zero => exact absurd rfl filled
  | succ portions ih =>
      obtain ⟨more, rfl⟩ := Nat.exists_eq_add_of_le' (Nat.one_le_of_lt allowed)
      simp only [fill] at filled ⊢
      generalize decoder.decode? state input _ = answer at filled ⊢
      cases answer with
      | none => rfl
      | some portion =>
          dsimp only at filled ⊢
          split
          next => rfl
          next goesOn =>
            rw [if_neg goesOn] at filled
            split
            next => rfl
            next advances =>
              rw [if_neg advances] at filled
              generalize checkLength declared _ = passed at filled ⊢
              cases passed with
              | error error => rfl
              | ok => exact ih filled (Nat.le_of_succ_le_succ allowed)

namespace Decoder.Gives

variable {decoder : Decoder} {content : Octets} {sound : Prop}

/-- Filling an output takes all of the content out of a sound stream. It fails
otherwise, or if the content is longer than was declared. -/
theorem fill_cases {stream : List UInt8} (gives : decoder.Gives stream content sound)
    (declared : Option Nat) {portions : Nat} {state : decoder.State} {input : List UInt8}
    {room : Nat} {given : Octets} (reached : decoder.Reaches stream state input given)
    (space : 0 < room) (inRoom : given.size ≤ room)
    (enough : input.length + (content.size - given.size) < portions) :
    decoder.fill declared portions state input room given = .ok content ∧ sound ∨
      ∃ cause, decoder.fill declared portions state input room given =
        .error (.corrupt cause) ∧
        (sound → ∃ size ∈ declared, size < content.size ∧ cause = .zlibOversized size) := by
  -- `enough` carries the induction: a portion reads some input or holds some octets, or
  -- is the last.
  induction portions generalizing state input room given with
  | zero => omega
  | succ portions ih =>
      simp only [fill]
      generalize widened : (if given.size = room then 2 * room else room) = wider
      have grown : given.size < wider := by
        split at widened <;> omega
      cases answer : decoder.decode? state input (wider - given.size) with
      | none =>
          have call : decoder.Answers stream input given (wider - given.size) none :=
            ⟨by omega, state, reached, answer⟩
          exact .inr ⟨_, rfl, fun sound => absurd call (gives.answers sound)⟩
      | some portion =>
          have call :
              decoder.Answers stream input given (wider - given.size) (some portion) :=
            ⟨by omega, state, reached, answer⟩
          obtain ⟨read, fits, rest, whole⟩ := gives.next call
          have sizes : content.size = given.size + portion.octets.size + rest.size := by
            rw [whole, Array.size_append, Array.size_append]
          dsimp only
          split
          next isLast =>
            obtain ⟨sound, all⟩ := (gives.last call).mp isLast
            exact .inl ⟨by rw [all], sound⟩
          next goesOn =>
            split
            next stalled =>
              refine .inr ⟨_, rfl, fun sound => ?_⟩
              have empty := Array.isEmpty_iff.mp stalled.2
              by_cases all : given = content
              · exact absurd ((gives.last call).mpr ⟨sound, by rw [empty, all, Array.append_empty]⟩)
                  goesOn
              · exact absurd empty (gives.advances sound call all)
            next advances =>
              rw [Array.isEmpty_iff_size_eq_zero] at advances
              obtain short | ⟨size, mem, longer, refused⟩ :=
                checkLength_cases declared (given ++ portion.octets)
              · rw [short]
                have after := reached.call call.1 answer (by simpa using goesOn)
                apply ih after (by omega)
                · rw [Array.size_append]
                  omega
                · rw [Array.size_append, List.length_drop]
                  omega
              · rw [refused]
                rw [Array.size_append] at longer
                exact .inr ⟨_, rfl, fun _ => ⟨size, mem, by omega, rfl⟩⟩

variable {stream : Octets} (gives : decoder.Gives stream.toList content sound)
include gives

/-- From the start of a stream, filling an output of any size comes to its end. -/
theorem fill_start_cases (declared : Option Nat) {portions room : Nat} (space : 0 < room)
    (enough : stream.size + content.size < portions) :
    decoder.fill declared portions decoder.start stream.toList room #[] = .ok content ∧
    sound ∨
      ∃ cause, decoder.fill declared portions decoder.start stream.toList room #[] =
          .error (.corrupt cause) ∧
        (sound → ∃ size ∈ declared, size < content.size ∧ cause = .zlibOversized size) :=
  gives.fill_cases declared .start space (Nat.zero_le _) enough

/-- A sound stream of the declared size is inflated. Any other one is found corrupt, and
if it is sound its content has not the declared size. -/
theorem inflate_cases (declared : Option Nat) {portions : Nat}
    (enough : stream.size + content.size < portions) :
    (decoder.inflate portions stream declared = .ok content ∧ sound ∧
        ∀ size ∈ declared, content.size = size) ∨
      ∃ cause, decoder.inflate portions stream declared = .error (.corrupt cause) ∧
        (sound → ∃ size ∈ declared, content.size ≠ size ∧
          (size < content.size ∧ cause = .zlibOversized size ∨
            cause = .zlibSize content.size size)) := by
  have space := firstRoom_pos stream.size declared
  unfold inflate
  dsimp only
  obtain ⟨filled, sound⟩ | ⟨cause, failed, longer⟩ :=
    gives.fill_start_cases declared space enough
  · rw [filled]
    obtain ⟨passed, sizes⟩ | ⟨size, mem, differs, refused⟩ :=
      checkSize_cases declared content
    · exact .inl ⟨passed, sound, sizes⟩
    · exact .inr ⟨_, refused, fun _ => ⟨size, mem, differs, .inr rfl⟩⟩
  · rw [failed]
    refine .inr ⟨cause, rfl, fun sound => ?_⟩
    obtain ⟨size, mem, more, same⟩ := longer sound
    exact ⟨size, mem, more.ne', .inl ⟨more, same⟩⟩

/-- What is inflated is the content of a sound stream, and has the declared size. -/
theorem inflate_ok_iff {declared : Option Nat} {portions : Nat}
    (enough : stream.size + content.size < portions) {output : Octets} :
    decoder.inflate portions stream declared = .ok output ↔
      sound ∧ output = content ∧ ∀ size ∈ declared, content.size = size := by
  obtain ⟨inflated, holds, sizes⟩ | ⟨cause, failed, mismatch⟩ :=
    gives.inflate_cases declared enough
  · rw [inflated, Except.ok.injEq]
    exact ⟨fun same => ⟨holds, same.symm, sizes⟩, fun all => all.2.1.symm⟩
  · rw [failed]
    constructor
    · rintro ⟨⟩
    · rintro ⟨holds, -, sizes⟩
      obtain ⟨size, mem, differs, -⟩ := mismatch holds
      exact absurd (sizes size mem) differs

end Decoder.Gives

end ZxMedia.Packing
