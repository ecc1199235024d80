import ZxMedia.Tap.Chunk
import ZxMedia.Tape.BlockKind
import ZxMedia.Text.Quoted

/-!
# Tape blocks

A tape is a sequence of blocks. Some blocks are signals: coded data with its timing,
sampled data, tones, pulses and pauses. Others control the player, by jumps, loops and
calls, or only inform about the tape. A block says what is on the tape; how far it has
been played is not part of it.
-/

namespace ZxMedia

/-- A text on a tape: one octet for each character of ISO 8859-1, lines divided by
carriage returns. -/
structure TapeText where
  octets : Octets := #[]
deriving Repr, DecidableEq

namespace TapeText

/-- The text on a tape for a string; characters that do not fit an octet become question
marks. -/
def ofString (text : String) : TapeText :=
  ⟨(text.toList.map fun c => if c.toNat < 256 then UInt8.ofNat c.toNat else 63).toArray⟩

/-- The string of a text, lines divided by line feeds. -/
def toString (text : TapeText) : String :=
  String.ofList <| text.octets.toList.map fun octet =>
    if octet = 13 then '\n' else Char.ofNat octet.toNat

/-- A text between quotes. -/
def quoted (text : TapeText) : String :=
  Text.quote text.toString

end TapeText

/-- Data coded with the timing of the machine's own routines. -/
structure RomBlock where
  /-- The pause after the data in milliseconds. -/
  pause : UInt16 := 1000
  data : Octets
deriving Repr, DecidableEq

/-- Data coded with a timing of its own. -/
structure TurboBlock where
  pilotLength : UInt16
  sync1Length : UInt16
  sync2Length : UInt16
  bit0Length : UInt16
  bit1Length : UInt16
  pilotPulses : UInt16
  /-- The number of bits of the last octet that are used. -/
  usedBits : UInt8
  pause : UInt16
  data : Octets
deriving Repr, DecidableEq

/-- Coded data without a pilot tone and synchronization. -/
structure PureDataBlock where
  bit0Length : UInt16
  bit1Length : UInt16
  usedBits : UInt8
  pause : UInt16
  data : Octets
deriving Repr, DecidableEq

/-- A sampled signal, one bit for the level of each sample. -/
structure RawDataBlock where
  /-- The T-states of a sample. -/
  sampleLength : UInt16
  pause : UInt16
  usedBits : UInt8
  data : Octets
deriving Repr, DecidableEq

/-- One of the choices that a tape offers, with the block that it leads to. -/
structure SelectItem where
  offset : Int16
  description : TapeText
deriving Repr, DecidableEq

/-- A remark about the tape: its title, its publisher and the like. -/
structure ArchiveItem where
  id : UInt8
  text : TapeText
deriving Repr, DecidableEq

/-- A remark about a piece of hardware. -/
structure HardwareItem where
  type : UInt8
  id : UInt8
  value : UInt8
deriving Repr, DecidableEq

/-- A block of a tape. -/
inductive Block where
  | rom (block : RomBlock)
  | turbo (block : TurboBlock)
  /-- So many pulses of one length. -/
  | pureTone (length pulses : UInt16)
  | pulses (lengths : Array UInt16)
  | pureData (block : PureDataBlock)
  | rawData (block : RawDataBlock)
  /-- A pause in milliseconds; a pause of zero stops the tape. -/
  | pause (milliseconds : UInt16)
  | groupStart (name : TapeText)
  | groupEnd
  /-- The next block is so many blocks away from this one. -/
  | jump (offset : Int16)
  /-- The blocks up to the end of the loop are played so many times. -/
  | loopStart (count : UInt16)
  | loopEnd
  /-- The blocks at these offsets from this one are called in turn. -/
  | callSequence (offsets : Array Int16)
  | callReturn
  | select (items : Array SelectItem)
  | stopIf48k
  | setSignalLevel (high : Bool)
  | comment (text : TapeText)
  /-- A text to be shown for so many seconds. -/
  | message (seconds : UInt8) (text : TapeText)
  | archiveInfo (items : Array ArchiveItem)
  | hardware (items : Array HardwareItem)
  | custom (description : Vector UInt8 16) (data : Octets)
  /-- A block that is kept as it was found and not played. -/
  | unsupported (id : UInt8) (body : Octets)
deriving DecidableEq

namespace Block

/-- The kind of a block. -/
def kind : Block → BlockKind
  | rom _ => .rom
  | turbo _ => .turbo
  | pureTone _ _ => .pureTone
  | pulses _ => .pulses
  | pureData _ => .pureData
  | rawData _ => .rawData
  | pause _ => .pause
  | groupStart _ => .groupStart
  | groupEnd => .groupEnd
  | jump _ => .jump
  | loopStart _ => .loopStart
  | loopEnd => .loopEnd
  | callSequence _ => .callSequence
  | callReturn => .callReturn
  | select _ => .select
  | stopIf48k => .stopIf48k
  | setSignalLevel _ => .setSignalLevel
  | comment _ => .comment
  | message _ _ => .message
  | archiveInfo _ => .archiveInfo
  | hardware _ => .hardware
  | custom _ _ => .custom
  | unsupported _ _ => .unsupported

/-- The octets of a block of data. -/
def data? : Block → Option Octets
  | rom block => some block.data
  | turbo block => some block.data
  | pureData block => some block.data
  | rawData block => some block.data
  | _ => none

/-- The pause of a block that has one, in milliseconds. -/
def pause? : Block → Option UInt16
  | rom block => some block.pause
  | turbo block => some block.pause
  | pureData block => some block.pause
  | rawData block => some block.pause
  | pause milliseconds => some milliseconds
  | _ => none

/-- Whether a block is a signal. -/
def isTimed : Block → Bool
  | rom _ | turbo _ | pureTone _ _ | pulses _ | pureData _ | rawData _ | pause _ => true
  | _ => false

/-- An offset with its sign. -/
def signedText (offset : Int16) : String :=
  if 0 ≤ offset then s!"+{offset}" else s!"{offset}"

/-- What is said about a block after the title of its kind. -/
def details : Block → String
  | rom block => match Tap.Chunk.ofOctets block.data with
    | .ok chunk => s!": {chunk.describe}"
    | .error _ => s!": {block.data.size} bytes"
  | turbo block => s!": {block.data.size} bytes"
  | pureData block => s!": {block.data.size} bytes"
  | rawData block => s!": {block.data.size} bytes"
  | pureTone length count => s!": {count} x {length}"
  | pulses lengths => s!": {lengths.size} pulses"
  | pause milliseconds =>
    if milliseconds = 0 then ": stop the tape" else s!": {milliseconds} ms"
  | groupStart text | comment text | message _ text => s!": {text.quoted}"
  | jump offset => s!": {signedText offset}"
  | loopStart count => s!": {count} times"
  | callSequence offsets => s!": {offsets.size} calls"
  | select items => s!": {items.size} options"
  | setSignalLevel high => if high then ": high" else ": low"
  | archiveInfo items => match items.find? (·.id == 0) with
    | some title => s!": {title.text.quoted}"
    | none => ""
  | custom description data =>
    let text : TapeText := ⟨description.toArray⟩
    s!": {Text.quote (Text.trimEnd text.toString)} {data.size} bytes"
  | unsupported id body => s!" 0x{Text.hexByte id}: {body.size} bytes"
  | groupEnd | loopEnd | callReturn | stopIf48k | hardware _ => ""

/-- A line that tells what a block is. -/
def describe (block : Block) : String :=
  block.kind.title ++ block.details

end Block

end ZxMedia
