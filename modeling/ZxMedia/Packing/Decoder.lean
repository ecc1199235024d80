import ZxMedia.Error

/-!
# Taking content out portion by portion

A decoder of compressed streams is called again and again, with the input that it has
not read yet and the room for its output, and each time gives the next portion of the
content. The room doubles whenever the output is full. A stream may come with the
declared size of its content. A stream with far more content is then refused before it
fills the memory.
-/

namespace ZxMedia.Packing

/-- What a call of a decoder gives. -/
structure Portion (State : Type) where
  /-- How many octets of the input were read. -/
  read : Nat
  /-- The octets of the content that follow those of the portions before. -/
  octets : Octets
  /-- Whether the stream has come to its end. -/
  isLast : Bool
  /-- The state for the next call. -/
  state : State

/-- A decoder of compressed streams. A call of it fails if the stream is broken. -/
structure Decoder where
  State : Type
  start : State
  /-- A call with the input ahead and the room for octets of the content. -/
  decode? : State → List UInt8 → Nat → Option (Portion State)

/-- The size of the output at first. -/
def firstRoom (streamSize : Nat) (declared : Option Nat) : Nat :=
  max (min (declared.getD (2 * streamSize)) (1 <<< 20)) 64

/-- Refuses an output that is longer than was declared. -/
def checkLength (declared : Option Nat) (output : Octets) : Except Error Unit :=
  match declared with
  | some size => if size < output.size then .error (.corrupt (.zlibOversized size)) else .ok ()
  | none => .ok ()

/-- Refuses an output that has not the declared size. -/
def checkSize (declared : Option Nat) (output : Octets) : Except Error Octets :=
  match declared with
  | some size =>
    if size ≠ output.size then .error (.corrupt (.zlibSize output.size size)) else .ok output
  | none => .ok output

namespace Decoder

/-- Fills the output portion by portion, with so many portions at most. A portion that
reads nothing and holds nothing means that the input has come to an end before the
stream. -/
def fill (decoder : Decoder) (declared : Option Nat) :
    Nat → decoder.State → List UInt8 → Nat → Octets → Except Error Octets
  | 0, _, _, _, _ => .error .endless
  | portions + 1, state, input, room, output =>
    let room := if output.size = room then 2 * room else room
    match decoder.decode? state input (room - output.size) with
    | none => .error (.corrupt .zlibBroken)
    | some portion =>
      let output := output ++ portion.octets
      if portion.isLast then .ok output
      else if portion.read = 0 ∧ portion.octets.isEmpty then .error (.corrupt .zlibTruncated)
      else match checkLength declared output with
        | .error error => .error error
        | .ok () =>
          fill decoder declared portions portion.state (input.drop portion.read) room output

/-- The content of a stream, which must have the declared size if one is given, taken
out in so many portions at most. -/
def inflate (decoder : Decoder) (portions : Nat) (stream : Octets)
    (declared : Option Nat) :
    Except Error Octets := do
  let room := firstRoom stream.size declared
  let output ← decoder.fill declared portions decoder.start stream.toList room #[]
  checkSize declared output

end Decoder

end ZxMedia.Packing
