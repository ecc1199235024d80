import ZxMedia.FileType
import ZxMedia.FileType.Name
import ZxMedia.Packing.Gzip

/-!
# Identifying files

The type of a file is told from its name and its content. Every known type scores for a
matching extension and for a matching signature, and the file is of the type that scores
best, unless nothing scores or two types share the best score.
-/

namespace ZxMedia

namespace FileType

/-- Octets that files of a type have at a fixed place, and the score for having them. -/
structure Signature where
  octets : List UInt8
  offset : Nat
  score : Nat
deriving Repr, DecidableEq

/-- A way to tell a type. -/
structure Entry where
  type : FileType
  extension : String
  extensionScore : Nat
  signature : Option Signature := none
deriving Repr, DecidableEq

/-- An entry with a signature. -/
def Entry.signed (type : FileType) (extension : String) (extensionScore : Nat)
    (octets : List UInt8) (offset score : Nat) : Entry :=
  { type, extension, extensionScore, signature := some ⟨octets, offset, score⟩ }

/-- The octets of a text in ASCII. -/
def ascii (text : String) : List UInt8 :=
  text.toList.map fun c => UInt8.ofNat c.toNat

/-- All ways to tell a type. -/
def entries : List Entry :=
  [.signed rzx "rzx" 3 (ascii "RZX!") 0 4,
    { type := sna, extension := "sna", extensionScore := 3 },
    { type := snp, extension := "snp", extensionScore := 3 },
    .signed sp "sp" 3 (ascii "SP\x00") 0 1,
    .signed szx "szx" 3 (ascii "ZXST") 0 4,
    .signed z80 "z80" 3 [0, 0] 6 1,
    .signed zxs "zxs" 3 (ascii "SNAP") 8 4,
    .signed slt "slt" 3 [0, 0] 6 1,
    { type := dck, extension := "dck", extensionScore := 3 },
    { type := if2Rom, extension := "rom", extensionScore := 3 },
    { type := mdr, extension := "mdr", extensionScore := 3 },
    .signed tap "tap" 3 [0x13, 0, 0] 0 1,
    .signed spc "spc" 3 [0x11, 0, 0] 0 1,
    .signed sta "sta" 3 [0x11, 0, 0] 0 1,
    .signed ltp "ltp" 3 [0x13, 0, 0] 0 1,
    .signed tzx "tzx" 3 (ascii "ZXTape!\x1a") 0 4,
    .signed warajevoTap "tap" 2 [0xFF, 0xFF, 0xFF, 0xFF] 8 2,
    .signed dsk "dsk" 3 (ascii "MV - CPC") 0 4,
    .signed dsk "dsk" 3 (ascii "EXTENDED") 0 4,
    .signed scl "scl" 3 (ascii "SINCLAIR") 0 4,
    { type := trd, extension := "trd", extensionScore := 3 },
    .signed bz2 "bz2" 3 (ascii "BZh") 0 4,
    .signed gz "gz" 3 [0x1F, 0x8B] 0 4,
    .signed csw "csw" 2 (ascii "Compressed Square Wave\x1a") 0 4]

/-- Whether content has the octets of a signature at their place. -/
def Signature.matches (signature : Signature) (content : Octets) : Bool :=
  let found :=
    content.extract signature.offset (signature.offset + signature.octets.length)
  found.toList == signature.octets

/-- The score of an entry for a file. -/
def Entry.score (entry : Entry) (content : Octets) (extension : Option String) : Nat :=
  let named := if extension = some entry.extension then entry.extensionScore else 0
  let signed := match entry.signature with
    | some signature => if signature.matches content then signature.score else 0
    | none => 0
  named + signed

/-- The best type so far, its score, and whether another type has the same score. -/
structure Standing where
  type : FileType := unknown
  score : Nat := 0
  tie : Bool := false

/-- Compares one more entry with the best one so far. -/
def Standing.consider (content : Octets) (extension : Option String) (standing : Standing)
    (entry : Entry) : Standing :=
  let score := entry.score content extension
  if standing.score < score then { type := entry.type, score }
  else if score = standing.score ∧ score ≠ 0 ∧ entry.type ≠ standing.type then
    { standing with tie := true }
  else standing

/-- The type of a file by a table of ways to tell it, from its content and its name if
it has one. -/
def identifyAmong (table : List Entry) (content : Octets) (name : Option String) :
    FileType :=
  let extension := name.bind FileName.extension?
  let standing := table.foldl (Standing.consider content extension) {}
  if standing.tie then unknown else standing.type

/-- The type of a file, from its content and its name if it has one. -/
def identify (content : Octets) (name : Option String) : FileType :=
  identifyAmong entries content name

/-- The type of a file and its category. -/
def identifyClass (content : Octets) (name : Option String) : FileType × FileClass :=
  let type := identify content name
  (type, type.fileClass)

end FileType

/-- The type of a file and the content that was unpacked to find it. -/
structure Identified where
  type : FileType
  unpacked : Option Octets
deriving DecidableEq

/-- The category of a file that was identified. -/
def Identified.fileClass (found : Identified) : FileClass :=
  found.type.fileClass

/-- Identifies a file after unpacking it as often as it is compressed. Each layer takes
off the last extension of the name. A file may unpack to itself, so the number of layers
looked at is limited. -/
def identifyDeep (layers : Nat) (file : Octets) (name : Option String)
    (unpacked : Option Octets)
    (inflate : Octets → Except Error Octets := Packing.Gzip.inflate) :
    Except Error Identified :=
  let content := unpacked.getD file
  match FileType.identify content name with
  | .gz => match layers with
    | 0 => .error .endless
    | layers + 1 => match inflate content with
      | .error error => .error error
      | .ok inflated =>
        identifyDeep layers file (name.map FileName.dropExtension) (some inflated) inflate
  | .bz2 => .error (.unknown .bzip2)
  | type => .ok { type, unpacked }
termination_by structural layers

end ZxMedia
