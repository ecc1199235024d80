import ZxMedia.Scan
import ZxMedia.FileType
import ZxMedia.Text.Hex

/-!
# Errors

An error names its cause. The causes fall into a few classes: data that does not have
the structure it should have, a signature that does not match, a variant of a format
that is not supported, and a request that the present state does not allow.
`Error.message` gives the text of each.

Two further outcomes leave no value at all: a number that outgrows the machine word it
is kept in, or an index the data it points into, and a search that does not come to an
end, as on a tape whose blocks only ever lead to each other. `Error.overflow` and
`Error.endless` stand for them.
-/

namespace ZxMedia

/-- What can be wrong with a gzip file. -/
inductive GzipFault where
  /-- The file ends inside its header or trailer. -/
  | endOfFile
  /-- The header is not one of a gzip file. -/
  | header
  /-- The compressed data ends early. -/
  | incomplete
  /-- The compressed data can not be decoded. -/
  | broken
  /-- A checksum or the size differs from the recorded one. -/
  | checksum
deriving Repr, DecidableEq

/-- The text about a gzip file. -/
def GzipFault.message : GzipFault → String
  | endOfFile => "unexpected end of file"
  | header => "invalid gzip header"
  | incomplete => "incomplete deflate stream"
  | broken => "corrupt deflate stream"
  | checksum => "corrupt gzip stream does not have a matching checksum"

/-- Why data does not have the structure it should have. -/
inductive Corruption where
  /-- A remark of the caller. -/
  | note (text : String)
  /-- A zlib stream can not be decoded. -/
  | zlibBroken
  /-- A zlib stream ends early. -/
  | zlibTruncated
  /-- A zlib stream holds more octets than were declared, as seen before its end. -/
  | zlibOversized (declared : Nat)
  /-- A zlib stream holds another number of octets than was declared. -/
  | zlibSize (actual declared : Nat)
  /-- A gzip file is broken. -/
  | gzip (fault : GzipFault)
  /-- The numbers of a key are not those of a key. -/
  | keyParameters
  /-- One of the two integers of a signature can not be read. -/
  | signatureInteger (name : String)
  /-- A signature is longer than its two integers. -/
  | signatureJunk (size : Nat)
  /-- A part of a file can not be read. -/
  | unreadable (part : String) (size : Nat) (trace : Scan.Trace)
  /-- A header chunk has another size than headers have. -/
  | headerLength
  /-- A header chunk has an unknown type. -/
  | headerType
  /-- A chunk is larger than chunks can be. -/
  | chunkTooLarge
  /-- A payload does not fit a chunk. -/
  | payloadTooLarge (size : Nat)
  /-- A part of a block is longer than its length field can say. -/
  | fieldTooLong (part : String) (size : Nat)
  /-- There is no block at the position. -/
  | noSuchBlock (index count : Nat)
  /-- A jump or a call leads off the tape. -/
  | jumpOutside (index : Nat) (offset : Int) (count : Nat)
  /-- A frame has more input than a frame can hold. -/
  | frameInput (size : Nat)
  /-- A frame to be written has more input than a frame can hold. -/
  | frameInputWritten (size : Nat)
  /-- A frame repeats an earlier frame, and there is none. -/
  | repeatsNothing (index : Nat)
  /-- The first frame of a block to be played repeats an earlier frame. -/
  | firstFrameRepeats
  /-- A recording has no frames. -/
  | noInput
  /-- Another number of octets was read during a frame than was recorded. -/
  | inputCount (read recorded frame : Nat)
  /-- All octets recorded for a frame have been read. -/
  | inputExhausted (recorded frame : Nat)
  /-- The octets of a frame are missing. -/
  | inputMissing
  /-- A snapshot has another size than was declared. -/
  | snapshotSize (actual declared : Nat)
  /-- A snapshot is larger than a file can say. -/
  | snapshotTooLarge
  /-- An input block has more frames than a file can say. -/
  | tooManyFrames
  /-- A block is longer than a file can say. -/
  | recordTooLong (id : UInt8)
  /-- A signature ends that has not begun. -/
  | signatureNotStarted
  /-- A signature begins and does not end. -/
  | signatureNotEnded
deriving Repr, DecidableEq

/-- What was wrong with the data. -/
def Corruption.message : Corruption → String
  | note text => text
  | zlibBroken => "zlib stream: deflate decompression error"
  | zlibTruncated => "zlib stream: unexpected end of data"
  | zlibOversized declared => s!"zlib stream: more than {declared} bytes were declared"
  | zlibSize actual declared =>
    s!"decompressed {actual} bytes while {declared} bytes were declared"
  | gzip fault => s!"gzip stream: {fault.message}"
  | keyParameters => "invalid DSA key parameters"
  | signatureInteger name => s!"DSA signature: malformed integer {name}"
  | signatureJunk size => s!"DSA signature: {size} bytes of junk after the integers"
  | unreadable part size trace => s!"{part}:\n{trace.describe size}"
  | headerLength => "not a proper TAP header: invalid length"
  | headerType => "unknown TAP header type"
  | chunkTooLarge => "not a proper TAP chunk: too large"
  | payloadTooLarge size => s!"TAP chunk of {size} bytes is too large"
  | fieldTooLong part size => s!"TZX: {part} too long: {size}"
  | noSuchBlock index count => s!"block index {index} out of range of {count} blocks"
  | jumpOutside index offset count =>
    s!"block {index} jumps by {offset} outside of the tape of {count} blocks"
  | frameInput size => s!"too many input bytes in a frame: {size}"
  | frameInputWritten size => s!"RZX: too many input bytes in a frame: {size}"
  | repeatsNothing index => s!"RZX input: the frame {index} repeats a non-existent frame"
  | firstFrameRepeats => "RZX: the first frame of an input block repeats the last frame"
  | noInput => "RZX: no input recording blocks"
  | inputCount count recorded frame =>
    s!"RZX: {count} input bytes were read while {recorded} were recorded in the frame {frame}"
  | inputExhausted recorded frame =>
    s!"RZX: more than {recorded} input bytes were read in the frame {frame}"
  | inputMissing => "RZX: missing input data"
  | snapshotSize actual declared =>
    s!"RZX snapshot: {actual} bytes while {declared} bytes were declared"
  | snapshotTooLarge => "RZX: snapshot too large"
  | tooManyFrames => "RZX: too many frames"
  | recordTooLong id => s!"RZX: block 0x{Text.hexByte id} too long"
  | signatureNotStarted => "RZX: signature end block without a signature start block"
  | signatureNotEnded => "RZX: signature start block without a signature end block"

/-- A variant of a format that this library does not read. -/
inductive Unsupported where
  /-- A remark of the caller. -/
  | note (text : String)
  /-- A version of a format other than the supported ones. -/
  | version (format : String) (major minor : UInt8)
  /-- Data compressed with bzip2. -/
  | bzip2
  /-- A file that is not one of a tape. -/
  | notATape (type : FileType)
deriving Repr, DecidableEq

/-- What is not supported. -/
def Unsupported.message : Unsupported → String
  | note text => text
  | version format major minor => s!"{format} version {major}.{minor} is not supported"
  | bzip2 => "bzip2 decompression unsupported"
  | notATape type => s!"{type.name} is not a supported tape format"

/-- Why the present state does not allow a request. -/
inductive Misuse where
  /-- A remark of the caller. -/
  | note (text : String)
  /-- An integer has more bits than its encoding can count. -/
  | integerTooLarge
  /-- No signature comes out of the key and the data. -/
  | signingFailed
  /-- The cursor of a tape is not at a block of it. -/
  | cursorOffTape (index count : Nat)
  /-- A call is in progress, and its sequence is not on the tape. -/
  | callWithoutSequence
  /-- Input comes while none is being recorded. -/
  | notRecording
  /-- The cursor of a recording is not at an input block. -/
  | cursorOffInput
  /-- The recording is not being played. -/
  | notPlaying
deriving Repr, DecidableEq

/-- What was asked for at the wrong time. -/
def Misuse.message : Misuse → String
  | note text => text
  | integerTooLarge => "integer too large for MPI encoding"
  | signingFailed => "DSA signing failed: signature error"
  | cursorOffTape index count => s!"current block {index} outside of the tape of {count} blocks"
  | callWithoutSequence => "call state without a call sequence block"
  | notRecording => "no input block is being recorded"
  | cursorOffInput => "RZX: the playback cursor is not at an input block"
  | notPlaying => "RZX: playback has not been started"

/-- The classes by which a system reports failures of its streams. -/
inductive StreamKind where
  | unexpectedEof | outOfMemory | unsupported | other | invalidData
deriving Repr, DecidableEq

/-- Why there is no answer. -/
inductive Error where
  /-- There is no memory of the requested size. -/
  | outOfMemory
  /-- The data does not have the structure it should have. -/
  | corrupt (cause : Corruption)
  /-- The signature is not one of this data by this key. -/
  | signature
  /-- The variant of the format is not supported. -/
  | unknown (cause : Unsupported)
  /-- The present state does not allow the request. -/
  | logic (cause : Misuse)
  /-- A stream that was read from or written to failed. -/
  | stream (kind : StreamKind) (text : String)
  /-- A number outgrew its machine word, or an index its data. -/
  | overflow
  /-- A search did not come to an end within its bound. -/
  | endless
deriving Repr, DecidableEq

namespace Error

/-- The text of an error. -/
def message : Error → String
  | outOfMemory => "out of memory"
  | corrupt cause => s!"corrupt data: {cause.message}"
  | signature => "signature does not match"
  | unknown cause => s!"unknown or unsupported: {cause.message}"
  | logic cause => s!"logic error: {cause.message}"
  | stream _ text => text
  | overflow => "arithmetic overflow"
  | endless => "endless search"

/-- The word for the class of an error. -/
def className : Error → String
  | outOfMemory => "out of memory"
  | corrupt _ => "corrupt"
  | signature => "signature"
  | unknown _ => "unknown"
  | logic _ => "logic"
  | stream _ _ => "i/o"
  | overflow => "overflow"
  | endless => "endless"

/-- Whether the data was at fault. -/
def isCorrupt : Error → Bool
  | corrupt _ => true
  | _ => false

/-- Whether the signature was at fault. -/
def isSignature : Error → Bool
  | signature => true
  | _ => false

/-- The class under which a stream reports an error that ended it. -/
def streamKind : Error → StreamKind
  | stream kind _ => kind
  | outOfMemory => .outOfMemory
  | unknown _ => .unsupported
  | logic _ => .other
  | corrupt _ | signature | overflow | endless => .invalidData

end Error

end ZxMedia
