import ZxMedia.Tape.Basic
import ZxMedia.Tzx.BlockCodec

/-!
# TZX files

A TZX file is a header with a signature and a version, and blocks up to its end. A
second header in the middle of a file, left behind by appending one file to another, is
passed over.
-/

namespace ZxMedia.Tzx

/-- The octets that every file begins with. -/
def signature : List UInt8 := [0x5A, 0x58, 0x54, 0x61, 0x70, 0x65, 0x21, 0x1A]

/-- The major version that is read and written. -/
def majorVersion : UInt8 := 1

/-- The minor version that is written. -/
def minorVersion : UInt8 := 20

/-- The header of a file: its version. -/
def scanHeader : Scan (UInt8 × UInt8) := do
  Scan.within "TZX signature" (Scan.tag signature)
  Scan.within "TZX version" do return (← Scan.byte, ← Scan.byte)

/-- The items of a file as far as they can be read, what is odd about them, and the
trace of the failure that ends them. -/
structure Items where
  items : Array Item
  notices : Array Notice
  failure : Option Scan.Trace

/-- Reads items from a part of a file on. Each takes at least the octet of its
identifier, so the size of the file bounds the steps. -/
def itemsFrom (file : List UInt8) : Nat → List UInt8 → Array Item → Array Notice → Items
  | 0, _, items, notices => ⟨items, notices, none⟩
  | _ + 1, [], items, notices => ⟨items, notices, none⟩
  | steps + 1, id :: ahead, items, notices =>
    let notices := match itemNotice? id with
      | some notice => notices.push notice
      | none => notices
    match scanItem (id :: ahead) with
    | .error trace => ⟨items, notices, some (trace.shift (file.length - (ahead.length + 1)))⟩
    | .ok (item, rest) => itemsFrom file steps rest (items.push item) notices

/-- The block of the tape that an item of a file is. -/
def Item.block? : Item → Option Block
  | .block content => some content
  | .glue => none

/-- Reads a file as a tape. -/
def read (file : Octets) : Report Tape :=
  let octets := file.toList
  match scanHeader octets with
  | .error trace =>
    { result := .error (.corrupt (.unreadable "TZX header" file.size trace)) }
  | .ok ((major, minor), ahead) =>
    if major = majorVersion then
      let found := itemsFrom octets ahead.length ahead #[] #[]
      { result := match found.failure with
          | some trace => .error (.corrupt (.unreadable "TZX" file.size trace))
          | none => .ok (.ofBlocks (found.items.toList.filterMap Item.block?))
        notices := found.notices }
    else { result := .error (.unknown (.version "TZX" major minor)) }

/-- The header that files are written with. -/
def header : Octets :=
  (signature ++ [majorVersion, minorVersion]).toArray

/-- Writes a tape as a file. -/
def write (tape : Tape) : Except Error Octets :=
  tape.blocks.foldlM (fun written block => do return written ++ (← encodeBlock block)) header

end ZxMedia.Tzx
