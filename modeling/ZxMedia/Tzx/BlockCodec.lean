import ZxMedia.Notice
import ZxMedia.Tape.Block
import ZxMedia.Tzx.BlockId

/-!
# Blocks in TZX files

A block in a file is its identifier and a body whose layout depends on the identifier.
`encode` and `scan` give and read these layouts side by side, kind for kind. Sizes and
counts are written in fields of one to four octets, and a block whose parts do not fit
their fields is not written.

Some layouts are read and never written: blocks that are kept as they were found, and
the header of a file that was appended to another, which is no block of the tape.
-/

namespace ZxMedia.Tzx

open LittleEndian (capacity encode)

/-- A size in a field of `width` octets, if it fits. -/
def sizeField (width : Nat) (part : String) (size : Nat) : Except Error (List UInt8) :=
  if size < capacity width then .ok (encode width size)
  else .error (.corrupt (.fieldTooLong part size))

/-- Line feeds become carriage returns, which divide the lines of texts on tapes. -/
def lineEnd (octet : UInt8) : UInt8 :=
  if octet = 10 then 13 else octet

/-- A text after its size in one octet. -/
def encodeText (part : String) (text : TapeText) : Except Error Octets := do
  let size ← sizeField 1 part text.octets.size
  return size.toArray ++ text.octets.map lineEnd

/-- Items one after another. -/
def encodeItems {α : Type} (item : α → Except Error Octets) (items : List α) :
    Except Error Octets :=
  items.foldlM (fun written value => do return written ++ (← item value)) #[]

/-- A list of items after their number in one octet, after the size of all this in two
octets. -/
def encodeList {α : Type} (part : String) (item : α → Except Error Octets)
    (items : Array α) :
    Except Error Octets := do
  let count ← sizeField 1 part items.size
  let body := count.toArray ++ (← encodeItems item items.toList)
  let size ← sizeField 2 part body.size
  return size.toArray ++ body

/-- Data after its size in a field of `width` octets. -/
def encodeSized (width : Nat) (part : String) (data : Octets) : Except Error Octets := do
  return (← sizeField width part data.size).toArray ++ data

/-- The words of two octets each. -/
def encodeWords (words : List Nat) : Octets :=
  (words.flatMap (encode 2)).toArray

/-- A choice: its offset and its description. -/
def encodeSelectItem (item : SelectItem) : Except Error Octets := do
  return encodeWords [item.offset.toUInt16.toNat]
    ++ (← encodeText "select description" item.description)

/-- A remark: its kind and its text. -/
def encodeArchiveItem (item : ArchiveItem) : Except Error Octets := do
  return (#[item.id] : Octets) ++ (← encodeText "archive info text" item.text)

/-- The body of a block. -/
def encodeBody : Block → Except Error Octets
  | .rom block => do
    return encodeWords [block.pause.toNat] ++ (← encodeSized 2 "standard speed data" block.data)
  | .turbo block => do
    return encodeWords [block.pilotLength.toNat, block.sync1Length.toNat, block.sync2Length.toNat,
        block.bit0Length.toNat, block.bit1Length.toNat, block.pilotPulses.toNat]
      ++ (#[block.usedBits] : Octets) ++ encodeWords [block.pause.toNat]
      ++ (← encodeSized 3 "turbo speed data" block.data)
  | .pureTone length pulses => .ok (encodeWords [length.toNat, pulses.toNat])
  | .pulses lengths => do
    return (← sizeField 1 "sequence of pulses" lengths.size).toArray
      ++ encodeWords (lengths.toList.map UInt16.toNat)
  | .pureData block => do
    return encodeWords [block.bit0Length.toNat, block.bit1Length.toNat]
      ++ (#[block.usedBits] : Octets) ++ encodeWords [block.pause.toNat]
      ++ (← encodeSized 3 "pure data" block.data)
  | .rawData block => do
    return encodeWords [block.sampleLength.toNat, block.pause.toNat]
      ++ (#[block.usedBits] : Octets) ++ (← encodeSized 3 "direct recording" block.data)
  | .pause milliseconds => .ok (encodeWords [milliseconds.toNat])
  | .groupStart name => encodeText "group name" name
  | .groupEnd => .ok #[]
  | .jump offset => .ok (encodeWords [offset.toUInt16.toNat])
  | .loopStart count => .ok (encodeWords [count.toNat])
  | .loopEnd => .ok #[]
  | .callSequence offsets => do
    return (← sizeField 2 "call sequence" offsets.size).toArray
      ++ encodeWords (offsets.toList.map fun offset => offset.toUInt16.toNat)
  | .callReturn => .ok #[]
  | .select items => encodeList "select block" encodeSelectItem items
  | .stopIf48k => .ok (encode 4 0).toArray
  | .setSignalLevel high => .ok (encode 4 1 ++ [high.toUInt8]).toArray
  | .comment text => encodeText "text description" text
  | .message seconds text => do
    return (#[seconds] : Octets) ++ (← encodeText "message" text)
  | .archiveInfo items => encodeList "archive info" encodeArchiveItem items
  | .hardware items => do
    return (← sizeField 1 "hardware type" items.size).toArray
      ++ (items.toList.flatMap fun item => [item.type, item.id, item.value]).toArray
  | .custom description data => do
    return description.toArray ++ (← encodeSized 4 "custom info" data)
  | .unsupported _ body => .ok body

/-- The identifier that a block is written with. -/
def blockId : Block → UInt8
  | .unsupported id _ => id
  | block => block.kind.id

/-- A block with its identifier. -/
def encodeBlock (block : Block) : Except Error Octets := do
  return (#[blockId block] : Octets) ++ (← encodeBody block)

/-- A text after its size in one octet. -/
def scanText : Scan TapeText := do
  return ⟨← Scan.sized 1⟩

/-- A choice. -/
def scanSelectItem : Scan SelectItem := do
  return { offset := ← Scan.offset, description := ← scanText }

/-- A remark. -/
def scanArchiveItem : Scan ArchiveItem := do
  return { id := ← Scan.byte, text := ← scanText }

/-- A remark about hardware. -/
def scanHardwareItem : Scan HardwareItem := do
  return { type := ← Scan.byte, id := ← Scan.byte, value := ← Scan.byte }

/-- So many octets as a vector. -/
def scanVector (count : Nat) : Scan (Vector UInt8 count) := do
  let octets ← Scan.take count
  if size : octets.size = count then return ⟨octets, size⟩ else Scan.fail .endOfData

/-- What a block of a file is on a tape. -/
inductive Item where
  | block (block : Block)
  /-- The header of a file that was appended. -/
  | glue
deriving DecidableEq

/-- A block kept as it was found: its size in `width` octets, and as many octets. -/
def scanKept (id : UInt8) (width : Nat) : Scan Block := do
  return .unsupported id (← Scan.spelling width)

/-- The body of a block that becomes a block of the tape, and the name of this part of a
file. -/
def scanBody : BlockId → UInt8 → Option (String × Scan Block)
  | .standardSpeed, _ => some ("standard speed data block", do
    return .rom { pause := ← Scan.word, data := ← Scan.sized 2 })
  | .turboSpeed, _ => some ("turbo speed data block", do
    return .turbo {
      pilotLength := ← Scan.word
      sync1Length := ← Scan.word
      sync2Length := ← Scan.word
      bit0Length := ← Scan.word
      bit1Length := ← Scan.word
      pilotPulses := ← Scan.word
      usedBits := ← Scan.byte
      pause := ← Scan.word
      data := ← Scan.sized 3 })
  | .pureTone, _ => some ("pure tone block", do return .pureTone (← Scan.word) (← Scan.word))
  | .seqOfPulses, _ => some ("sequence of pulses block", do
    return .pulses (← Scan.items (← Scan.number 1) Scan.word))
  | .pureData, _ => some ("pure data block", do
    return .pureData {
      bit0Length := ← Scan.word
      bit1Length := ← Scan.word
      usedBits := ← Scan.byte
      pause := ← Scan.word
      data := ← Scan.sized 3 })
  | .directRec, _ => some ("direct recording block", do
    return .rawData {
      sampleLength := ← Scan.word
      pause := ← Scan.word
      usedBits := ← Scan.byte
      data := ← Scan.sized 3 })
  | .c64Rom, id => some ("block length exceeding file size", scanKept id 4)
  | .c64Turbo, id => some ("block length exceeding file size", scanKept id 4)
  | .cswRecording, id => some ("block length exceeding file size", scanKept id 4)
  | .generalized, id => some ("block length exceeding file size", scanKept id 4)
  | .emulationInfo, id => some ("emulation info block", do
    return .unsupported id (← Scan.take 8))
  | .snapshot, id => some ("snapshot block", do
    return .unsupported id ((#[← Scan.byte] : Octets) ++ (← Scan.spelling 3)))
  | .pause, _ => some ("pause block", do return .pause (← Scan.word))
  | .groupStart, _ => some ("group start block", do return .groupStart (← scanText))
  | .groupEnd, _ => some ("group end block", pure .groupEnd)
  | .jump, _ => some ("jump block", do return .jump (← Scan.offset))
  | .loopStart, _ => some ("loop start block", do return .loopStart (← Scan.word))
  | .loopEnd, _ => some ("loop end block", pure .loopEnd)
  | .callSeq, _ => some ("call sequence block", do
    return .callSequence (← Scan.items (← Scan.number 2) Scan.offset))
  | .callReturn, _ => some ("return block", pure .callReturn)
  | .select, _ => some ("select block", do
    return .select (← Scan.inside 2 do Scan.items (← Scan.number 1) scanSelectItem))
  | .stopIn48k, _ => some ("stop the tape if in 48k mode block", do
    let _ ← Scan.sized 4
    return .stopIf48k)
  | .setLevel, _ => some ("set signal level block", do
    return .setSignalLevel ((← Scan.inside 4 Scan.byte) ≠ 0))
  | .text, _ => some ("text description block", do return .comment (← scanText))
  | .message, _ => some ("message block", do return .message (← Scan.byte) (← scanText))
  | .archive, _ => some ("archive info block", do
    return .archiveInfo (← Scan.inside 2 do Scan.items (← Scan.number 1) scanArchiveItem))
  | .hardware, _ => some ("hardware type block", do
    return .hardware (← Scan.items (← Scan.number 1) scanHardwareItem))
  | .custom, _ => some ("custom info block", do
    return .custom (← scanVector 16) (← Scan.sized 4))
  | .glue, _ => none

/-- The octets of a file header after its first one. -/
def glueSize : Nat := 9

/-- A block of a file. -/
def scanItem : Scan Item := do
  let id ← Scan.within "block ID" Scan.byte
  match BlockId.ofByte? id with
  | none => return .block (← Scan.within "unknown block" (scanKept id 4))
  | some known => match scanBody known id with
    | some (part, scan) => return .block (← Scan.within part scan)
    | none =>
      let _ ← Scan.within "glue block" (Scan.take glueSize)
      return .glue

/-- What is odd about the block of a file that begins with an identifier. -/
def itemNotice? (id : UInt8) : Option Notice :=
  match BlockId.ofByte? id with
  | none => some (.unknownBlock id)
  | some .glue => some .glue
  | some _ => none

end ZxMedia.Tzx
