import ZxMedia.Tape.Basic

/-!
# TAP files

A TAP file is a sequence of chunks, each after its size in two octets. Reading a file
makes a block with the machine's own timing of each chunk, whatever is in it. Writing a
tape keeps the octets of its coded data and drops everything else.
-/

namespace ZxMedia.Tap

/-- The pause after each chunk of a file in milliseconds. -/
def filePause : UInt16 := 1000

/-- A chunk after its size. -/
def scanChunk : Scan Octets :=
  Scan.within "TAP chunk exceeding file size" (Scan.sized 2)

/-- What is odd about a chunk: a flag of neither kind, or a wrong checksum. -/
def chunkNotice? (chunk : Octets) : Option Notice :=
  match Chunk.ofOctets chunk with
  | .ok (.unknown _ flag) => some (.chunkFlag chunk.size flag)
  | .ok (.data _ sum) => if sum = 0 then none else some (.chunkChecksum chunk.size)
  | _ => none

/-- The chunks of a file as far as they can be read, and the trace of the failure that
ends them. -/
structure Chunks where
  chunks : Array Octets
  failure : Option Scan.Trace
deriving DecidableEq

/-- Reads chunks from a part of a file on. Each takes at least the two octets of its
size, so the size of the file bounds the steps. -/
def chunksFrom (file : List UInt8) : Nat → List UInt8 → Array Octets → Chunks
  | 0, _, chunks => ⟨chunks, none⟩
  | _ + 1, [], chunks => ⟨chunks, none⟩
  | steps + 1, ahead, chunks => match scanChunk ahead with
    | .error trace => ⟨chunks, some (trace.shift (file.length - ahead.length))⟩
    | .ok (chunk, rest) => chunksFrom file steps rest (chunks.push chunk)

/-- The chunks of a file. -/
def chunksOf (file : List UInt8) : Chunks :=
  chunksFrom file file.length file #[]

/-- Reads a file as a tape. -/
def read (file : Octets) : Report Tape :=
  let found := chunksOf file.toList
  { result := match found.failure with
      | some trace => .error (.corrupt (.unreadable "TAP" file.size trace))
      | none => .ok (.ofBlocks (found.chunks.toList.map fun data =>
          .rom { pause := filePause, data }))
    notices := found.chunks.filterMap chunkNotice? }

/-- The payload of a block that can be a chunk. -/
def payload? : Block → Option Octets
  | .rom block => some block.data
  | .turbo block => some block.data
  | .pureData block => some block.data
  | _ => none

/-- What is to be noticed about a block that is not written: that a signal is
missing. -/
def skipNotice? (block : Block) : Option Notice :=
  match block with
  | .rom _ | .turbo _ | .pureData _ => none
  | .rawData _ => some .rawDataSkipped
  | block => if block.isTimed then some (.blockSkipped block.kind) else none

/-- A chunk after its size, unless it is too large. -/
def encodeChunk (data : Octets) : Except Error Octets :=
  if data.size ≤ Chunk.maxSize then .ok ((LittleEndian.encode 2 data.size).toArray ++ data)
  else .error (.corrupt (.payloadTooLarge data.size))

/-- Writes blocks one after another behind what was written before, up to the first one
that is too large. -/
def writeBlocks : List Block → Octets → Array Notice → Report Octets
  | [], written, notices => { result := .ok written, notices }
  | block :: blocks, written, notices =>
    let notices := match skipNotice? block with
      | some notice => notices.push notice
      | none => notices
    match payload? block with
    | none => writeBlocks blocks written notices
    | some data => match encodeChunk data with
      | .error error => { result := .error error, notices }
      | .ok chunk => writeBlocks blocks (written ++ chunk) notices

/-- Writes the coded data of a tape as a file. -/
def write (tape : Tape) : Report Octets :=
  writeBlocks tape.blocks #[] #[]

end ZxMedia.Tap
