/-!
# Kinds of tape blocks

Each kind has the number by which tape files identify it, a title for people and a short
name for saved states.
-/

namespace ZxMedia

/-- The kind of a tape block. -/
inductive BlockKind where
  | rom | turbo | pureTone | pulses | pureData | rawData | pause | groupStart | groupEnd | jump
  | loopStart | loopEnd | callSequence | callReturn | select | stopIf48k | setSignalLevel | comment
  | message | archiveInfo | hardware | custom | unsupported
deriving Repr, DecidableEq

namespace BlockKind

/-- The number of a kind in tape files; a block of no known kind has 255. -/
def id : BlockKind → UInt8
  | rom => 0x10
  | turbo => 0x11
  | pureTone => 0x12
  | pulses => 0x13
  | pureData => 0x14
  | rawData => 0x15
  | pause => 0x20
  | groupStart => 0x21
  | groupEnd => 0x22
  | jump => 0x23
  | loopStart => 0x24
  | loopEnd => 0x25
  | callSequence => 0x26
  | callReturn => 0x27
  | select => 0x28
  | stopIf48k => 0x2A
  | setSignalLevel => 0x2B
  | comment => 0x30
  | message => 0x31
  | archiveInfo => 0x32
  | hardware => 0x33
  | custom => 0x35
  | unsupported => 0xFF

/-- The title of a kind. -/
def title : BlockKind → String
  | rom => "Standard Speed Data"
  | turbo => "Turbo Speed Data"
  | pureTone => "Pure Tone"
  | pulses => "Pulse Sequence"
  | pureData => "Pure Data"
  | rawData => "Direct Recording"
  | pause => "Pause"
  | groupStart => "Group Start"
  | groupEnd => "Group End"
  | jump => "Jump"
  | loopStart => "Loop Start"
  | loopEnd => "Loop End"
  | callSequence => "Call Sequence"
  | callReturn => "Return"
  | select => "Select"
  | stopIf48k => "Stop If 48K"
  | setSignalLevel => "Set Signal Level"
  | comment => "Text Description"
  | message => "Message"
  | archiveInfo => "Archive Info"
  | hardware => "Hardware Type"
  | custom => "Custom Info"
  | unsupported => "Unsupported"

/-- The name of a kind in saved states. -/
def name : BlockKind → String
  | rom => "Rom"
  | turbo => "Turbo"
  | pureTone => "PureTone"
  | pulses => "Pulses"
  | pureData => "PureData"
  | rawData => "RawData"
  | pause => "Pause"
  | groupStart => "GroupStart"
  | groupEnd => "GroupEnd"
  | jump => "Jump"
  | loopStart => "LoopStart"
  | loopEnd => "LoopEnd"
  | callSequence => "CallSequence"
  | callReturn => "Return"
  | select => "Select"
  | stopIf48k => "StopIf48k"
  | setSignalLevel => "SetSignalLevel"
  | comment => "Comment"
  | message => "Message"
  | archiveInfo => "ArchiveInfo"
  | hardware => "Hardware"
  | custom => "Custom"
  | unsupported => "Unsupported"

end BlockKind

end ZxMedia
