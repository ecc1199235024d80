import ZxMedia.Error
import ZxMedia.Text.Blank
import ZxMedia.Text.Utf8

/-!
# Chunks

The tape routines of the machine save octets in chunks. The first octet of a chunk is a
flag, which tells a header from data, and the last one makes the exclusive sum of the
chunk zero. A header says what the data chunk after it holds and under which name.
-/

namespace ZxMedia.Tap

/-- The exclusive sum of octets, which is zero for a chunk as it was saved. -/
def checksum (octets : Octets) : UInt8 :=
  octets.foldl (· ^^^ ·) 0

/-- What the data chunk after a header holds. -/
inductive FileKind where
  | program | numberArray | charArray | code
deriving Repr, DecidableEq

namespace FileKind

/-- The number of a kind in headers. -/
def id : FileKind → UInt8
  | program => 0
  | numberArray => 1
  | charArray => 2
  | code => 3

/-- The kind of a number. -/
def ofId (id : UInt8) : Except Error FileKind :=
  match id with
  | 0 => .ok program
  | 1 => .ok numberArray
  | 2 => .ok charArray
  | 3 => .ok code
  | _ => .error (.corrupt .headerType)

/-- The name by which the machine announces a kind. -/
def title : FileKind → String
  | program => "Program"
  | numberArray => "Number array"
  | charArray => "Character array"
  | code => "Bytes"

end FileKind

/-- The size of a header without its flag and checksum. -/
def headerSize : Nat := 17

/-- A header. -/
structure Header where
  kind : FileKind
  /-- The name, filled up with spaces. -/
  name : Vector UInt8 10
  /-- The size of the data without its flag and checksum. -/
  length : UInt16
  /-- The address of code, the first line of a program, or the letter of an array. -/
  first : UInt16
  /-- The size of a program without its variables. -/
  second : UInt16
deriving DecidableEq

namespace Header

/-- The name as a text. -/
def nameText (header : Header) : String :=
  Text.Utf8.decodeLossy header.name.toList

/-- The letter of an array. -/
def arrayLetter (header : Header) : Char :=
  Char.ofNat (header.first.toNat / 256 % 32 + 64)

/-- A line that tells what was saved. -/
def describe (header : Header) : String :=
  let name := s!"{header.kind.title}: \"{Text.trimEnd header.nameText}\""
  match header.kind with
  | .program =>
    let line := if header.first < 10000 then s!" LINE {header.first}" else ""
    let storage :=
      if header.second ≠ header.length then
        s!" PROG {header.second} VARS {header.length - header.second}"
      else ""
    name ++ line ++ storage
  | .numberArray => s!"{name} DATA {header.arrayLetter}()"
  | .charArray => s!"{name} DATA {header.arrayLetter}$()"
  | .code => s!"{name} CODE {header.first},{header.length}"

/-- Reads a header. -/
def ofOctets (octets : Octets) : Except Error Header :=
  if size : octets.size = headerSize then do
    have occupied : 0 < octets.size := by simp [size, headerSize]
    let kind ← FileKind.ofId octets[0]
    let word (index : Nat) : UInt16 :=
      UInt16.ofNat (LittleEndian.decode (octets.extract index (index + 2)).toList)
    return {
      kind
      name := ⟨octets.extract 1 11, by simp [size, headerSize]⟩
      length := word 11
      first := word 13
      second := word 15 }
  else .error (.corrupt .headerLength)

end Header

/-- What a chunk is. -/
inductive Chunk where
  | header (head : Header)
  /-- Data of a size without its flag and checksum, and the exclusive sum of the
  chunk. -/
  | data (length : Nat) (checksum : UInt8)
  /-- A chunk that is neither, of a size with its flag. -/
  | unknown (size : Nat) (flag : UInt8)
  | empty
deriving DecidableEq

namespace Chunk

/-- The largest size of a chunk. -/
def maxSize : Nat := 65535

/-- Tells what a chunk is. -/
def ofOctets (octets : Octets) : Except Error Chunk :=
  if empty : octets.size = 0 then .ok .empty
  else
    have occupied : 0 < octets.size := by omega
    let flag := octets[0]
    let size := octets.size
    if size = 1 then .ok (.unknown 1 flag)
    else if maxSize < size then .error (.corrupt .chunkTooLarge)
    else if flag = 0 ∧ size = headerSize + 2 ∧ checksum octets = 0 then
      match Header.ofOctets (octets.extract 1 (headerSize + 1)) with
      | .ok head => .ok (.header head)
      | .error _ => .ok (.unknown size flag)
    else if flag = 0xFF then .ok (.data (size - 2) (checksum octets))
    else .ok (.unknown size flag)

/-- A line that tells what a chunk is. -/
def describe : Chunk → String
  | .header head => head.describe
  | .data length _ => s!"(data {length})"
  | .unknown size _ => s!"(unknown {size})"
  | .empty => "(empty)"

end Chunk

end ZxMedia.Tap
