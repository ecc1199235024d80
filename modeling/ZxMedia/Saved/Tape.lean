import ZxMedia.Saved.Value
import ZxMedia.Tape.Basic

/-!
# Saved tapes

A tape is saved with how far each of its blocks has been played, so that playing goes on
where it was. What is restored need not be a state that arises by playing: numbers are
only held to the range of their words.
-/

namespace ZxMedia.Saved

open Value

/-- Saves a timing. -/
def saveConfig (config : PlaybackConfig) : Value :=
  .object [("frameTstates", .ofNat config.frameTstates)]

/-- Restores a timing. What is missing gets its usual value. -/
def restoreConfig? : Value → Option PlaybackConfig
  | .object fields => match fields.lookup "frameTstates" with
    | some value => (value.below? UInt32.size).map fun frameTstates => { frameTstates }
    | none => some {}
  | .list [] => some {}
  | .list [value] => (value.below? UInt32.size).map fun frameTstates => { frameTstates }
  | _ => none

/-- The names of the phases of coded data. -/
def dataPhases : List (String × DataPhase) :=
  [("Pilot", .pilot), ("Sync1", .sync1), ("Sync2", .sync2), ("Data1", .data1), ("Data2", .data2),
    ("Pause", .pause)]

/-- Saves the phase of coded data. -/
def saveDataPhase : DataPhase → Value
  | .pilot => .text "Pilot"
  | .sync1 => .text "Sync1"
  | .sync2 => .text "Sync2"
  | .data1 => .text "Data1"
  | .data2 => .text "Data2"
  | .pause => .text "Pause"

/-- Saves how far coded data has been played. -/
def saveDataState (state : DataState) : Value :=
  .object [("phase", saveDataPhase state.phase), ("edge_count", .ofNat state.pulsesLeft),
    ("bytes_through_block", .ofNat state.bytesBegun), ("bits_left", .ofNat state.bitsLeft),
    ("current_byte", .ofByte state.register), ("bit_tstates", .ofNat state.bitLength)]

/-- Restores how far coded data has been played. -/
def restoreDataState? (value : Value) : Option DataState := do
  let fields ← value.fields? ["phase", "edge_count", "bytes_through_block", "bits_left",
    "current_byte", "bit_tstates"]
  return {
    phase := ← field? fields "phase" (choice? dataPhases)
    pulsesLeft := ← field? fields "edge_count" (below? UInt16.size)
    bytesBegun := ← field? fields "bytes_through_block" index?
    bitsLeft := ← field? fields "bits_left" (below? UInt8.size)
    register := ← field? fields "current_byte" byte?
    bitLength := ← field? fields "bit_tstates" (below? UInt16.size) }

/-- The names of the phases of sampled data. -/
def rawPhases : List (String × RawPhase) :=
  [("Data", .data), ("Pause", .pause)]

/-- Saves the phase of sampled data. -/
def saveRawPhase : RawPhase → Value
  | .data => .text "Data"
  | .pause => .text "Pause"

/-- Saves how far sampled data has been played. -/
def saveRawState (state : RawState) : Value :=
  .object [("phase", saveRawPhase state.phase), ("bytes_through_block", .ofNat state.byteIndex),
    ("bits_through_byte", .ofNat state.bitIndex), ("last_bit", .bool state.level),
    ("bit_tstates", .ofNat state.runLength)]

/-- Restores how far sampled data has been played. -/
def restoreRawState? (value : Value) : Option RawState := do
  let fields ← value.fields? ["phase", "bytes_through_block", "bits_through_byte", "last_bit",
    "bit_tstates"]
  return {
    phase := ← field? fields "phase" (choice? rawPhases)
    byteIndex := ← field? fields "bytes_through_block" index?
    bitIndex := ← field? fields "bits_through_byte" (below? UInt8.size)
    level := ← field? fields "last_bit" bool?
    runLength := ← field? fields "bit_tstates" (below? UInt32.size) }

/-- Saves a text. -/
def saveText (text : TapeText) : Value :=
  .ofOctets text.octets

/-- Restores a text. -/
def restoreText? (value : Value) : Option TapeText :=
  value.octets?.map TapeText.mk

/-- Saves a choice. -/
def saveSelectItem (item : SelectItem) : Value :=
  .object [("offset", .ofOffset item.offset), ("description", saveText item.description)]

/-- Restores a choice. -/
def restoreSelectItem? (value : Value) : Option SelectItem := do
  let fields ← value.fields? ["offset", "description"]
  return {
    offset := ← field? fields "offset" offset?
    description := ← field? fields "description" restoreText? }

/-- Saves a remark. -/
def saveArchiveItem (item : ArchiveItem) : Value :=
  .object [("id", .ofByte item.id), ("text", saveText item.text)]

/-- Restores a remark. -/
def restoreArchiveItem? (value : Value) : Option ArchiveItem := do
  let fields ← value.fields? ["id", "text"]
  return { id := ← field? fields "id" byte?, text := ← field? fields "text" restoreText? }

/-- Saves a remark about hardware. -/
def saveHardwareItem (item : HardwareItem) : Value :=
  .object [("hw_type", .ofByte item.type), ("hw_id", .ofByte item.id),
    ("value", .ofByte item.value)]

/-- Restores a remark about hardware. -/
def restoreHardwareItem? (value : Value) : Option HardwareItem := do
  let fields ← value.fields? ["hw_type", "hw_id", "value"]
  return {
    type := ← field? fields "hw_type" byte?
    id := ← field? fields "hw_id" byte?
    value := ← field? fields "value" byte? }

/-- Saves how far a block has been played, if that is anything. -/
def saveProgress : Track → Value
  | ⟨.rom _, state⟩ => saveDataState state
  | ⟨.turbo _, state⟩ => saveDataState state
  | ⟨.pureData _, state⟩ => saveDataState state
  | ⟨.rawData _, state⟩ => saveRawState state
  | ⟨.pureTone _ _, left⟩ => .ofNat left
  | ⟨.pulses _, index⟩ => .ofNat index
  | _ => .null

/-- Saves a block and how far it has been played. -/
def saveTrack (track : Track) : Value :=
  let progress := saveProgress track
  match track.block with
  | .rom block => ofVariant "Rom" <| .object
    [("pause", .ofWord block.pause), ("data", .ofOctets block.data), ("state", progress)]
  | .turbo block => ofVariant "Turbo" <| .object
    [("pilot_length", .ofWord block.pilotLength), ("sync1_length", .ofWord block.sync1Length),
      ("sync2_length", .ofWord block.sync2Length), ("bit0_length", .ofWord block.bit0Length),
      ("bit1_length", .ofWord block.bit1Length), ("pilot_pulses", .ofWord block.pilotPulses),
      ("bits_in_last_byte", .ofByte block.usedBits), ("pause", .ofWord block.pause),
      ("data", .ofOctets block.data), ("state", progress)]
  | .pureTone length pulses => ofVariant "PureTone" <| .object
    [("length", .ofWord length), ("pulses", .ofWord pulses), ("remaining", progress)]
  | .pulses lengths => ofVariant "Pulses" <| .object
    [("lengths", .ofArray .ofWord lengths), ("index", progress)]
  | .pureData block => ofVariant "PureData" <| .object
    [("bit0_length", .ofWord block.bit0Length), ("bit1_length", .ofWord block.bit1Length),
      ("bits_in_last_byte", .ofByte block.usedBits), ("pause", .ofWord block.pause),
      ("data", .ofOctets block.data), ("state", progress)]
  | .rawData block => ofVariant "RawData" <| .object
    [("bit_length", .ofWord block.sampleLength), ("pause", .ofWord block.pause),
      ("bits_in_last_byte", .ofByte block.usedBits), ("data", .ofOctets block.data),
      ("state", progress)]
  | .pause milliseconds => ofVariant "Pause" (.ofWord milliseconds)
  | .groupStart name => ofVariant "GroupStart" (saveText name)
  | .groupEnd => .text "GroupEnd"
  | .jump offset => ofVariant "Jump" (.ofOffset offset)
  | .loopStart count => ofVariant "LoopStart" (.ofWord count)
  | .loopEnd => .text "LoopEnd"
  | .callSequence offsets => ofVariant "CallSequence" (.ofArray .ofOffset offsets)
  | .callReturn => .text "Return"
  | .select items => ofVariant "Select" (.ofArray saveSelectItem items)
  | .stopIf48k => .text "StopIf48k"
  | .setSignalLevel high => ofVariant "SetSignalLevel" (.bool high)
  | .comment remark => ofVariant "Comment" (saveText remark)
  | .message seconds shown => ofVariant "Message" <| .object
    [("time", .ofByte seconds), ("text", saveText shown)]
  | .archiveInfo items => ofVariant "ArchiveInfo" (.ofArray saveArchiveItem items)
  | .hardware items => ofVariant "Hardware" (.ofArray saveHardwareItem items)
  | .custom description data => ofVariant "Custom" <| .object
    [("description", .ofOctets description.toArray), ("data", .ofOctets data)]
  | .unsupported id body => ofVariant "Unsupported" <| .object
    [("id", .ofByte id), ("body", .ofOctets body)]

/-- Restores a block with the timing of the machine's own routines. -/
def restoreRom? (value : Value) : Option Track := do
  let fields ← value.fields? ["pause", "data", "state"]
  let block : RomBlock :=
    { pause := ← field? fields "pause" word?, data := ← field? fields "data" octets? }
  return ⟨.rom block, ← field? fields "state" restoreDataState?⟩

/-- Restores a block with a timing of its own. -/
def restoreTurbo? (value : Value) : Option Track := do
  let fields ← value.fields? ["pilot_length", "sync1_length", "sync2_length", "bit0_length",
    "bit1_length", "pilot_pulses", "bits_in_last_byte", "pause", "data", "state"]
  let block : TurboBlock := {
    pilotLength := ← field? fields "pilot_length" word?
    sync1Length := ← field? fields "sync1_length" word?
    sync2Length := ← field? fields "sync2_length" word?
    bit0Length := ← field? fields "bit0_length" word?
    bit1Length := ← field? fields "bit1_length" word?
    pilotPulses := ← field? fields "pilot_pulses" word?
    usedBits := ← field? fields "bits_in_last_byte" byte?
    pause := ← field? fields "pause" word?
    data := ← field? fields "data" octets? }
  return ⟨.turbo block, ← field? fields "state" restoreDataState?⟩

/-- Restores a tone. -/
def restoreTone? (value : Value) : Option Track := do
  let fields ← value.fields? ["length", "pulses", "remaining"]
  let length ← field? fields "length" word?
  let pulses ← field? fields "pulses" word?
  let left ← field? fields "remaining" (below? UInt16.size)
  return ⟨.pureTone length pulses, left⟩

/-- Restores a sequence of pulses. -/
def restorePulses? (value : Value) : Option Track := do
  let fields ← value.fields? ["lengths", "index"]
  let lengths ← field? fields "lengths" (array? word?)
  let index ← field? fields "index" index?
  return ⟨.pulses lengths, index⟩

/-- Restores coded data without a pilot tone. -/
def restorePureData? (value : Value) : Option Track := do
  let fields ← value.fields? ["bit0_length", "bit1_length", "bits_in_last_byte", "pause", "data",
    "state"]
  let block : PureDataBlock := {
    bit0Length := ← field? fields "bit0_length" word?
    bit1Length := ← field? fields "bit1_length" word?
    usedBits := ← field? fields "bits_in_last_byte" byte?
    pause := ← field? fields "pause" word?
    data := ← field? fields "data" octets? }
  return ⟨.pureData block, ← field? fields "state" restoreDataState?⟩

/-- Restores sampled data. -/
def restoreRawData? (value : Value) : Option Track := do
  let fields ← value.fields? ["bit_length", "pause", "bits_in_last_byte", "data", "state"]
  let block : RawDataBlock := {
    sampleLength := ← field? fields "bit_length" word?
    pause := ← field? fields "pause" word?
    usedBits := ← field? fields "bits_in_last_byte" byte?
    data := ← field? fields "data" octets? }
  return ⟨.rawData block, ← field? fields "state" restoreRawState?⟩

/-- Restores a message. -/
def restoreMessage? (value : Value) : Option Block := do
  let fields ← value.entries?
  return .message (← field? fields "time" byte?) (← field? fields "text" restoreText?)

/-- Restores octets of a fixed number. -/
def vector? (count : Nat) (value : Value) : Option (Vector UInt8 count) := do
  let octets ← value.octets?
  if size : octets.size = count then return ⟨octets, size⟩ else none

/-- Restores a custom block. -/
def restoreCustom? (value : Value) : Option Block := do
  let fields ← value.entries?
  return .custom (← field? fields "description" (vector? 16)) (← field? fields "data" octets?)

/-- Restores a block that is kept as it was found. -/
def restoreUnsupported? (value : Value) : Option Block := do
  let fields ← value.entries?
  return .unsupported (← field? fields "id" byte?) (← field? fields "body" octets?)

/-- The blocks that have no content, by their names. -/
def plainBlocks : List (String × Block) :=
  [("GroupEnd", .groupEnd), ("LoopEnd", .loopEnd), ("Return", .callReturn),
    ("StopIf48k", .stopIf48k)]

/-- Restores a block of a named kind with its content. -/
def restoreTrackOf? (name : String) (content : Value) : Option Track :=
  let plain (block : Option Block) : Option Track := block.map Track.ofBlock
  match name with
  | "Rom" => restoreRom? content
  | "Turbo" => restoreTurbo? content
  | "PureTone" => restoreTone? content
  | "Pulses" => restorePulses? content
  | "PureData" => restorePureData? content
  | "RawData" => restoreRawData? content
  | "Pause" => plain (content.word?.map .pause)
  | "GroupStart" => plain ((restoreText? content).map .groupStart)
  | "Jump" => plain (content.offset?.map .jump)
  | "LoopStart" => plain (content.word?.map .loopStart)
  | "CallSequence" => plain ((content.array? offset?).map .callSequence)
  | "Select" => plain ((content.array? restoreSelectItem?).map .select)
  | "SetSignalLevel" => plain (content.bool?.map .setSignalLevel)
  | "Comment" => plain ((restoreText? content).map .comment)
  | "Message" => plain (restoreMessage? content)
  | "ArchiveInfo" => plain ((content.array? restoreArchiveItem?).map .archiveInfo)
  | "Hardware" => plain ((content.array? restoreHardwareItem?).map .hardware)
  | "Custom" => plain (restoreCustom? content)
  | "Unsupported" => plain (restoreUnsupported? content)
  | _ => none

/-- Restores a block and how far it has been played. -/
def restoreTrack? (value : Value) : Option Track :=
  match choice? plainBlocks value with
  | some block => some (.ofBlock block)
  | none => match value.variant? with
    | some (name, some content) => restoreTrackOf? name content
    | _ => none

/-- Saves a call sequence in progress. -/
def saveCall (call : CallState) : Value :=
  .object [("block", .ofNat call.block), ("next", .ofNat call.next)]

/-- Restores a call sequence in progress. -/
def restoreCall? (value : Value) : Option CallState := do
  let fields ← value.fields? ["block", "next"]
  return { block := ← field? fields "block" index?, next := ← field? fields "next" index? }

/-- Saves a tape. -/
def saveTape (tape : Tape) : Value :=
  .object [("blocks", .ofArray saveTrack tape.tracks),
    ("current", .ofOption .ofNat tape.current), ("loop_block", .ofOption .ofNat tape.loopBlock),
    ("loop_count", .ofNat tape.loopCount), ("call", .ofOption saveCall tape.call),
    ("config", saveConfig tape.config)]

/-- Restores a tape. -/
def restoreTape? (value : Value) : Option Tape := do
  let fields ← value.fields? ["blocks", "current", "loop_block", "loop_count", "call", "config"]
  return {
    tracks := ← field? fields "blocks" (array? restoreTrack?)
    current := ← optionalField? fields "current" index?
    loopBlock := ← optionalField? fields "loop_block" index?
    loopCount := ← field? fields "loop_count" (below? UInt16.size)
    call := ← optionalField? fields "call" restoreCall?
    config := ← field? fields "config" restoreConfig? }

end ZxMedia.Saved
