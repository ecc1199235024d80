import ZxMedia.Packing.Packer
import ZxMedia.Recording.Basic
import ZxMedia.Text.Utf8

/-!
# Records in recording files

A recording file is a sequence of records: an identifier, the size of the record in four
octets, and a body. The layouts of the bodies are given here for reading and for
writing, side by side.

The content of snapshots and of input blocks may be deflated. A frame of input is the
number of its instructions, the number of its octets and these octets; a repetition has
a mark in the place of the number, and gets the number back from the frame that it
repeats.
-/

namespace ZxMedia.Recording

open LittleEndian (encode)
open Packing (Packer)

/-- The records that have a meaning. -/
inductive RecordKind where
  | creator | signatureStart | signatureEnd | snapshot | input
deriving Repr, DecidableEq

namespace RecordKind

/-- The identifier of a record. -/
def toByte : RecordKind → UInt8
  | creator => 0x10
  | signatureStart => 0x20
  | signatureEnd => 0x21
  | snapshot => 0x30
  | input => 0x80

/-- The record that an identifier stands for. -/
def ofByte? (id : UInt8) : Option RecordKind :=
  if id = 0x10 then some creator
  else if id = 0x20 then some signatureStart
  else if id = 0x21 then some signatureEnd
  else if id = 0x30 then some snapshot
  else if id = 0x80 then some input
  else none

theorem ofByte?_toByte (kind : RecordKind) : ofByte? kind.toByte = some kind := by
  cases kind <;> rfl

/-- The name of the record in the trace of a failure. -/
def part : RecordKind → String
  | creator => "RZX creator block"
  | signatureStart => "RZX signature start block"
  | signatureEnd => "RZX signature end block"
  | snapshot => "RZX snapshot block"
  | input => "RZX input recording block"

end RecordKind

/-- A record of a file before its body is interpreted. -/
structure Record where
  id : UInt8
  body : Octets
deriving Repr, DecidableEq

/-- The size of the identifier and the size in front of a body, which counts for the
size. -/
def recordHeadSize : Nat := 5

/-- A record. -/
def scanRecord : Scan Record := do
  let (id, size) ← Scan.ensuring "block length too small" (fun head => recordHeadSize ≤ head.2) <|
    Scan.within "block header" do return (← Scan.byte, ← Scan.number 4)
  let body ← Scan.within "block length exceeding file size" <| Scan.take (size - recordHeadSize)
  return { id, body }

/-- A record with its identifier and its size. -/
def encodeRecord (kind : RecordKind) (body : Octets) : Except Error Octets :=
  let size := body.size + recordHeadSize
  if size < UInt32.size then .ok ((kind.toByte :: encode 4 size).toArray ++ body)
  else .error (.corrupt (.recordTooLong kind.toByte))

/-- Reads the body of a record. What the scanner leaves is dropped. -/
def scanBody {α : Type} (kind : RecordKind) (scan : Scan α) (body : Octets) :
    Except Error α :=
  match scan body.toList with
  | .error trace => .error (.corrupt (.unreadable kind.part body.size trace))
  | .ok (value, _) => .ok value

/-- A word of four octets. -/
def scanWord : Scan UInt32 := do
  return UInt32.ofNat (← Scan.number 4)

/-- The octets of words of four octets each. -/
def encodeWords (words : List UInt32) : Octets :=
  (words.flatMap fun word => encode 4 word.toNat).toArray

/-- The text in a field of a fixed size, which ends at the first zero. -/
def decodeField (field : Octets) : String :=
  Text.Utf8.decodeLossy (field.toList.takeWhile (· ≠ 0))

/-- A text in a field of a fixed size, cut or filled up with zeros. -/
def encodeField (size : Nat) (text : String) : Octets :=
  let octets := text.toUTF8.data.take size
  octets ++ Array.replicate (size - octets.size) 0

/-- What is to be noticed about a text in a field: that it was cut. -/
def fieldNotice? (size : Nat) (text : String) : Option Notice :=
  if size < text.utf8ByteSize then some (.truncated text size) else none

/-- The size of the field for the name of a program. -/
def nameSize : Nat := 20

/-- The program that made a recording. -/
def scanCreator : Scan Creator := do
  return {
    name := decodeField (← Scan.take nameSize)
    major := ← Scan.word
    minor := ← Scan.word
    custom := ← Scan.rest }

/-- The body of the record of a program. -/
def encodeCreator (creator : Creator) : Octets :=
  encodeField nameSize creator.name
    ++ (encode 2 creator.major.toNat ++ encode 2 creator.minor.toNat) ++ creator.custom

/-- The start of a signature: the identifier of the key and the week. -/
def scanSignatureStart : Scan (UInt32 × UInt32) := do
  return (← scanWord, ← scanWord)

/-- The flag of a snapshot that is a file of its own. -/
def externalFlag : UInt32 := 1

/-- The flag of deflated content. -/
def packedFlag : UInt32 := 2

/-- The body of the record of a snapshot. -/
structure SnapshotBody where
  flags : UInt32
  extension : String
  /-- The size of the content. -/
  size : Nat
  payload : Octets
deriving Repr, DecidableEq

/-- The size of the field for the extension of a snapshot. -/
def extensionSize : Nat := 4

/-- The body of the record of a snapshot. -/
def scanSnapshot : Scan SnapshotBody := do
  return {
    flags := ← scanWord
    extension := decodeField (← Scan.take extensionSize)
    size := ← Scan.number 4
    payload := ← Scan.rest }

/-- The snapshot in a record. The size has to be right, except for a description of
another file that is not deflated. -/
def SnapshotBody.snapshot (packer : Packer) (body : SnapshotBody) :
    Except Error Snapshot :=
  let external := body.flags &&& externalFlag ≠ 0
  if body.flags &&& packedFlag ≠ 0 then do
    let data ← packer.inflate body.payload (some body.size)
    return { extension := body.extension, external, data }
  else if !external && body.payload.size ≠ body.size then
    .error (.corrupt (.snapshotSize body.payload.size body.size))
  else .ok { extension := body.extension, external, data := body.payload }

/-- The deflated form of data if it is wanted and smaller. -/
def pack? (packer : Packer) (compress : Bool) (data : Octets) : Option Octets :=
  if compress then
    let packed := packer.deflate data
    if packed.size < data.size then some packed else none
  else none

/-- The record of a snapshot. -/
def encodeSnapshot (packer : Packer) (compress : Bool) (snapshot : Snapshot) :
    Except Error Octets :=
  let packed := if snapshot.external then none else pack? packer compress snapshot.data
  if snapshot.data.size < UInt32.size then
    let flags := (if snapshot.external then externalFlag else 0)
      ||| (if packed.isSome then packedFlag else 0)
    encodeRecord .snapshot <| encodeWords [flags] ++ encodeField extensionSize snapshot.extension
      ++ encode 4 snapshot.data.size ++ packed.getD snapshot.data
  else .error (.corrupt .snapshotTooLarge)

/-- The body of the record of an input block. -/
structure InputBody where
  /-- The number of frames. -/
  count : Nat
  tstates : UInt32
  flags : UInt32
  payload : Octets
deriving Repr, DecidableEq

/-- The body of the record of an input block. -/
def scanInput : Scan InputBody := do
  let count ← Scan.number 4
  let _ ← Scan.byte
  return {
    count
    tstates := ← scanWord
    flags := ← scanWord
    payload := ← Scan.rest }

/-- A frame as it is stored: the number of instructions, and the octets unless it is a
repetition. -/
def scanFrame : Scan (UInt16 × Option Octets) := do
  let instructions ← Scan.word
  let count ← Scan.number 2
  if count = Frame.repeatMark then return (instructions, none)
  else return (instructions, some (← Scan.within "frame input" (Scan.take count)))

/-- A stored frame, after a frame whose octets it may repeat. -/
def frameOf (index : Nat) (last : Option UInt16) (instructions : UInt16)
    (input : Option Octets) :
    Except Error Frame :=
  match input, last with
  | some input, _ => Frame.ofInput instructions input
  | none, some count => .ok (.repetition instructions count)
  | none, none => .error (.corrupt (.repeatsNothing index))

/-- Reads so many frames from a part of the data on: the frames and what is left. `last`
is the number of octets of the last frame, if there is any. -/
def framesFrom (data : Octets) :
    Nat → List UInt8 → Option UInt16 → Array Frame →
    Except Error (Array Frame × List UInt8)
  | 0, ahead, _, frames => .ok (frames, ahead)
  | count + 1, ahead, last, frames => match scanFrame ahead with
    | .error trace =>
      let trace := trace.shift (data.size - ahead.length)
      .error (.corrupt (.unreadable RecordKind.input.part data.size trace))
    | .ok ((instructions, input), rest) => match frameOf frames.size last instructions input with
      | .error error => .error error
      | .ok frame => framesFrom data count rest (some frame.count) (frames.push frame)

/-- The input block in a record. -/
def InputBody.block (packer : Packer) (body : InputBody) : Report InputBlock :=
  let content := if body.flags &&& packedFlag ≠ 0 then packer.inflate body.payload none
    else .ok body.payload
  match content with
  | .error error => { result := .error error }
  | .ok data => match framesFrom data body.count data.toList none #[] with
    | .error error => { result := .error error }
    | .ok (frames, rest) =>
      { result := .ok { tstates := body.tstates, frames }
        notices := if rest.isEmpty then #[] else #[.frameJunk rest.length] }

/-- A frame as it is stored. -/
def encodeFrame (frame : Frame) : Except Error Octets :=
  let instructions := encode 2 frame.instructions.toNat
  if frame.repeats then .ok (instructions ++ encode 2 Frame.repeatMark).toArray
  else if frame.input.size < Frame.repeatMark then
    .ok ((instructions ++ encode 2 frame.input.size).toArray ++ frame.input)
  else .error (.corrupt (.frameInputWritten frame.input.size))

/-- Frames one after another. -/
def encodeFrames (frames : Array Frame) : Except Error Octets :=
  frames.foldlM (fun written frame => do return written ++ (← encodeFrame frame)) #[]

/-- The record of an input block. -/
def encodeInput (packer : Packer) (compress : Bool) (block : InputBlock) :
    Except Error Octets := do
  let frames ← encodeFrames block.frames
  let packed := pack? packer compress frames
  if block.frames.size < UInt32.size then
    let flags := if packed.isSome then packedFlag else 0
    encodeRecord .input <| (encode 4 block.frames.size ++ [0]).toArray
      ++ encodeWords [block.tstates, flags] ++ packed.getD frames
  else throw (.corrupt .tooManyFrames)

/-- The record of a part of a recording. A signature is one of the file that it came
from, and is not written. -/
def encodePart (packer : Packer) (compress : Bool) : Part → Except Error Octets
  | .input block => encodeInput packer compress block
  | .snapshot snapshot => encodeSnapshot packer compress snapshot
  | .signature _ => .ok #[]

/-- What is to be noticed about a part that is written. -/
def partNotice? : Part → Option Notice
  | .snapshot snapshot => fieldNotice? extensionSize snapshot.extension
  | _ => none

end ZxMedia.Recording
