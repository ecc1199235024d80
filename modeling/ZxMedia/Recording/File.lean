import ZxMedia.Recording.RecordCodec
import ZxMedia.Signing.Dsa

/-!
# Recording files

A file is a header and records up to its end. Records with other identifiers than the
known ones are passed over, and each record is read on its own: all that is carried from
one to the next is the start of a signature that waits for its end.

A signature stands at the end of what it signs: it is one of all octets in front of the
record that ends it.
-/

namespace ZxMedia.Recording

open LittleEndian (encode)
open Packing (Packer)

/-- The octets that every file begins with. -/
def signature : List UInt8 := [0x52, 0x5A, 0x58, 0x21]

/-- The major version that is read and written. -/
def majorVersion : UInt8 := 0

/-- The minor version that is written. -/
def minorVersion : UInt8 := 13

/-- The flag of files that are signed. -/
def signedFlag : UInt32 := 1

/-- The header of a file. -/
structure Header where
  major : UInt8
  minor : UInt8
  flags : UInt32
deriving Repr, DecidableEq

/-- Whether the header says that the file is signed. -/
def Header.isSigned (header : Header) : Bool :=
  header.flags &&& signedFlag ≠ 0

/-- The header of a file. -/
def scanHeader : Scan Header := do
  Scan.within "RZX signature" (Scan.tag signature)
  Scan.within "RZX version and flags" do
    return { major := ← Scan.byte, minor := ← Scan.byte, flags := ← scanWord }

/-- The records of a file as far as they can be read, each with its place, and the trace
of the failure that ends them. -/
structure Records where
  records : Array (Nat × Record)
  failure : Option Scan.Trace
deriving DecidableEq

/-- Reads records from a part of a file on. Each takes at least its head, so the size of
the file bounds the steps. -/
def recordsFrom (size : Nat) : Nat → List UInt8 → Array (Nat × Record) → Records
  | 0, _, records => ⟨records, none⟩
  | _ + 1, [], records => ⟨records, none⟩
  | steps + 1, octet :: ahead, records =>
    let place := size - (ahead.length + 1)
    match scanRecord (octet :: ahead) with
    | .error trace => ⟨records, some (trace.shift place)⟩
    | .ok (record, rest) => recordsFrom size steps rest (records.push (place, record))

/-- The records after the header of a file. -/
def recordsOf (file ahead : List UInt8) : Records :=
  recordsFrom file.length ahead.length ahead #[]

/-- What was read of a file: a recording, and the start of a signature that waits for
its end. -/
structure Draft where
  recording : Recording := {}
  opened : Option (UInt32 × UInt32) := none
deriving Repr, DecidableEq

namespace Draft

/-- Puts a part at the end of the recording. -/
def push (draft : Draft) (part : Part) : Draft :=
  { draft with recording := draft.recording.pushPart part }

/-- Adds a record of a known kind. -/
def addKnown (packer : Packer) (draft : Draft) (place : Nat) (kind : RecordKind)
    (body : Octets) :
    Report Draft :=
  match kind with
  | .creator =>
    { result := do
        let creator ← scanBody kind scanCreator body
        return { draft with recording := { draft.recording with creator } } }
  | .signatureStart =>
    { result := do return { draft with opened := some (← scanBody kind scanSignatureStart body) } }
  | .signatureEnd => match draft.opened with
    | none => { result := .error (.corrupt .signatureNotStarted) }
    | some (keyId, week) =>
      let info : SignInfo := { keyId, week, signature := body, signedSize := place }
      { result := .ok { draft.push (.signature info) with opened := none } }
  | .snapshot =>
    { result := do
        let found ← scanBody kind scanSnapshot body
        return draft.push (.snapshot (← found.snapshot packer)) }
  | .input => match scanBody kind scanInput body with
    | .error error => { result := .error error }
    | .ok found =>
      let read := found.block packer
      { result := read.result.map fun block => draft.push (.input block)
        notices := read.notices }

/-- Adds a record. -/
def add (packer : Packer) (draft : Draft) (place : Nat) (record : Record) :
    Report Draft :=
  match RecordKind.ofByte? record.id with
  | some kind => draft.addKnown packer place kind record.body
  | none => { result := .ok draft, notices := #[.unknownRecord record.id record.body.size] }

/-- Adds records one after another, up to the first one that can not be read. -/
def addAll (packer : Packer) : List (Nat × Record) → Draft → Array Notice → Report Draft
  | [], draft, notices => { result := .ok draft, notices }
  | (place, record) :: records, draft, notices =>
    let added := draft.add packer place record
    let notices := notices ++ added.notices
    match added.result with
    | .error error => { result := .error error, notices }
    | .ok draft => addAll packer records draft notices

end Draft

/-- Reads a file of a header and records. -/
def readRecords (packer : Packer) (file ahead : List UInt8) (header : Header) :
    Report Recording :=
  let found := recordsOf file ahead
  let read := Draft.addAll packer found.records.toList {} #[]
  match read.result, found.failure with
  | .error error, _ => { result := .error error, notices := read.notices }
  | .ok _, some trace =>
    { result := .error (.corrupt (.unreadable "RZX" file.length trace)), notices := read.notices }
  | .ok draft, none =>
    if draft.opened.isSome then
      { result := .error (.corrupt .signatureNotEnded), notices := read.notices }
    else
      let unsigned := header.isSigned && draft.recording.signInfo?.isNone
      { result := .ok draft.recording
        notices := if unsigned then read.notices.push .signatureMissing else read.notices }

/-- Reads a file as a recording. A signature is not verified. Packed content is a zlib
stream unless another packer is given. -/
def read (file : Octets) (packer : Packer := Packing.Zlib.packer) : Report Recording :=
  let octets := file.toList
  match scanHeader octets with
  | .error trace =>
    { result := .error (.corrupt (.unreadable "RZX header" file.size trace)) }
  | .ok (header, ahead) =>
    if majorVersion < header.major then
      { result := .error (.unknown (.version "RZX" header.major header.minor)) }
    else readRecords packer octets ahead header

/-- Whether a file says that it is signed. -/
def saysSigned (file : Octets) : Bool :=
  match scanHeader file.toList with
  | .ok (header, _) => header.isSigned
  | .error _ => false

/-- Verifies the first signature of a recording that was read from a file. A file that
says it is signed needs a signature. -/
def verify (recording : Recording) (file : Octets) (key : Signing.PublicKey)
    (scheme : Signing.Scheme := .seeded) : Except Error Unit :=
  match recording.signInfo? with
  | some info => Signing.verify info.signature (file.extract 0 info.signedSize) key scheme
  | none => if saysSigned file then .error .signature else .ok ()

/-- Reads a file as a recording and verifies the signature, if there is one. -/
def readVerified (file : Octets) (key : Signing.PublicKey)
    (packer : Packer := Packing.Zlib.packer) (scheme : Signing.Scheme := .seeded) :
    Report Recording :=
  let report := read file packer
  { report with result := do
      let recording ← report.result
      recording.verify file key scheme
      return recording }

/-- Who signs a file. -/
structure Signer where
  keyId : UInt32
  key : Signing.PrivateKey
  /-- The week of the signing, counted from the beginning of 1970. -/
  week : UInt32

/-- How a file is written. -/
structure WriteOptions where
  /-- Whether content is deflated where that makes it smaller. -/
  compress : Bool := true
  signer : Option Signer := none
  /-- The program to name in the place of the one that made the recording. -/
  creator : Option Creator := none

/-- The header of a file. -/
def encodeHeader (signed : Bool) : Octets :=
  (signature ++ [majorVersion, minorVersion]).toArray
    ++ encodeWords [if signed then signedFlag else 0]

/-- Writes the parts of a recording behind what was written before, up to the first one
that can not be written. -/
def writeParts (packer : Packer) (compress : Bool) :
    List Part → Octets → Array Notice → Report Octets
  | [], written, notices => { result := .ok written, notices }
  | part :: parts, written, notices => match encodePart packer compress part with
    | .error error => { result := .error error, notices }
    | .ok record =>
      let notices := match partNotice? part with
        | some notice => notices.push notice
        | none => notices
      writeParts packer compress parts (written ++ record) notices

/-- What is written before the parts of a recording. -/
def encodeFront (creator : Creator) (signer : Option Signer) : Except Error Octets := do
  let front :=
    encodeHeader signer.isSome ++ (← encodeRecord .creator (encodeCreator creator))
  match signer with
  | none => return front
  | some signer =>
    return front ++ (← encodeRecord .signatureStart (encodeWords [signer.keyId, signer.week]))

/-- Puts a signature behind what it signs. -/
def signFile (written : Octets) (signer : Signer) (scheme : Signing.Scheme := .seeded) :
    Except Error Octets := do
  let record ← encodeRecord .signatureEnd (← Signing.sign written signer.key scheme)
  return written ++ record

/-- Writes a recording as a file. Content is packed as a zlib stream unless another
packer is given, and signed with a nonce that is drawn from a seed unless another scheme
is. -/
def write (recording : Recording) (options : WriteOptions)
    (packer : Packer := Packing.Zlib.packer) (scheme : Signing.Scheme := .seeded) :
    Report Octets :=
  let creator := options.creator.getD recording.creator
  let notices := (fieldNotice? nameSize creator.name).toArray
  match encodeFront creator options.signer with
  | .error error => { result := .error error, notices }
  | .ok front =>
    let written := writeParts packer options.compress recording.parts.toList front notices
    match options.signer with
    | none => written
    | some signer => { written with result := written.result.bind (signFile · signer scheme) }

end ZxMedia.Recording
