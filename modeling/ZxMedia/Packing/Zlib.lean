import ZxMedia.Packing.Checksum
import ZxMedia.Packing.Decoder
import ZxMedia.Packing.Inflate

/-!
# Zlib streams

A zlib stream is a header of two octets, deflated data and the Adler-32 sum of the
content. The decoder works ahead by windows, and gives the content out as far as there
is room for it.
-/

namespace ZxMedia.Packing.Zlib

/-- Whether two octets are the header of a stream that this library decodes: the deflate
method, a window that fits, no preset dictionary, and the check bits right. -/
def isHeader (method flags : UInt8) : Bool :=
  (method.toNat * 256 + flags.toNat) % 31 == 0 && flags &&& 0x20 == 0 &&
    method.toNat % 16 == 8 && method.toNat / 16 ≤ 7

/-- A sum of four octets, the most significant first. -/
def sumOf (first second third fourth : UInt8) : Nat :=
  LittleEndian.decode [fourth, third, second, first]

/-- Decodes a whole stream. Its end is invalid if the sum is wrong. -/
def decode (stream : List UInt8) : Inflated :=
  match stream with
  | method :: flags :: body =>
    if isHeader method flags then
      let content := inflate body
      match content.ending with
      | .error _ => content
      | .ok source => match source.align.octets with
        | first :: second :: third :: fourth :: rest =>
          if sumOf first second third fourth = adler32 content.output then
            ⟨content.output, .ok (.ofOctets rest)⟩
          else ⟨content.output, .error .invalid⟩
        | _ => ⟨content.output, .error .incomplete⟩
    else ⟨#[], .error .invalid⟩
  | _ => ⟨#[], .error .incomplete⟩

/-- The decoder works ahead by windows of this size. -/
def window : Nat := 32768

/-- The end of the window that holds the octet before `position`. -/
def windowEnd (position : Nat) : Nat :=
  (position + window - 1) / window * window

/-- How far a decoder has come in the content of a stream. -/
structure Progress where
  content : Inflated
  /-- The number of octets given out. -/
  given : Nat := 0
  /-- The number of octets decoded. -/
  ready : Nat := 0

/-- Decodes up to the end of a window unless some octets are left of the last one. -/
def Progress.workAhead (progress : Progress) (room : Nat) : Nat :=
  let total := progress.content.output.size
  if progress.ready ≤ progress.given then
    min total (windowEnd (min (progress.given + room) total))
  else progress.ready

/-- Gives out as many octets as are decoded and as there is room for. That a stream is
broken shows when all that can be decoded is. -/
def Progress.give? (progress : Progress) (read room : Nat) :
    Option (Portion (Option Progress)) :=
  let { content, given, .. } := progress
  let total := content.output.size
  let ready := progress.workAhead room
  let next := min (given + room) ready
  if content.isBroken ∧ ready = total then none
  else some
    { read
      octets := content.output.extract given next
      isLast := content.isSound ∧ next = total
      state := some { content, given := next, ready } }

/-- The decoder of zlib streams. It reads all of the input at its first call. -/
def decoder : Decoder where
  State := Option Progress
  start := none
  decode? state input room := (state.getD { content := decode input }).give? input.length room

/-- More portions than any stream has: the octets that are read one by one, and those
that so many blocks can hold, with the longest copy for every symbol. -/
def maxPortions (streamSize : Nat) : Nat :=
  let bits := 8 * streamSize + 1
  streamSize + bits * (bits * 258 + 65535) + 1

/-- The content of a stream, which must have the declared size if one is given. -/
def inflate (stream : Octets) (declared : Option Nat) : Except Error Octets :=
  decoder.inflate (maxPortions stream.size) stream declared

end ZxMedia.Packing.Zlib
