/-!
# Identifiers of TZX blocks

The numbers by which the TZX format tells its blocks apart.
-/

namespace ZxMedia.Tzx

/-- The kinds of blocks that the format assigns a number to. -/
inductive BlockId where
  | standardSpeed | turboSpeed | pureTone | seqOfPulses | pureData | directRec | c64Rom | c64Turbo
  | cswRecording | generalized | pause | groupStart | groupEnd | jump | loopStart | loopEnd
  | callSeq | callReturn | select | stopIn48k | setLevel | text | message | archive | hardware
  | emulationInfo | custom | snapshot | glue
deriving Repr, DecidableEq

namespace BlockId

/-- All identifiers with their numbers and names. -/
def table : List (BlockId × UInt8 × String) :=
  [(standardSpeed, 0x10, "StandardSpeed"), (turboSpeed, 0x11, "TurboSpeed"),
    (pureTone, 0x12, "PureTone"), (seqOfPulses, 0x13, "SeqOfPulses"),
    (pureData, 0x14, "PureData"), (directRec, 0x15, "DirectRec"), (c64Rom, 0x16, "C64Rom"),
    (c64Turbo, 0x17, "C64Turbo"), (cswRecording, 0x18, "CswRecording"),
    (generalized, 0x19, "Generalized"), (pause, 0x20, "Pause"),
    (groupStart, 0x21, "GroupStart"), (groupEnd, 0x22, "GroupEnd"), (jump, 0x23, "Jump"),
    (loopStart, 0x24, "LoopStart"), (loopEnd, 0x25, "LoopEnd"), (callSeq, 0x26, "CallSeq"),
    (callReturn, 0x27, "Return"), (select, 0x28, "Select"), (stopIn48k, 0x2A, "StopIn48k"),
    (setLevel, 0x2B, "SetLevel"), (text, 0x30, "Text"), (message, 0x31, "Message"),
    (archive, 0x32, "Archive"), (hardware, 0x33, "Hardware"),
    (emulationInfo, 0x34, "EmulationInfo"), (custom, 0x35, "Custom"),
    (snapshot, 0x40, "Snapshot"), (glue, 0x5A, "Glue")]

/-- The identifier of a number, if the number is assigned. -/
def ofByte? (number : UInt8) : Option BlockId :=
  (table.find? fun (_, own, _) => own == number).map (·.1)

/-- The number of an identifier. -/
def toByte (id : BlockId) : UInt8 :=
  match table.find? fun (own, _, _) => own == id with
  | some (_, number, _) => number
  | none => 0

/-- The name of an identifier. -/
def name (id : BlockId) : String :=
  match table.find? fun (own, _, _) => own == id with
  | some (_, _, name) => name
  | none => ""

theorem ofByte?_toByte (id : BlockId) : ofByte? id.toByte = some id := by
  cases id <;> rfl

end BlockId

end ZxMedia.Tzx
