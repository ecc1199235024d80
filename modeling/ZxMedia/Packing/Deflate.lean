import ZxMedia.Packing.CodeLengths
import ZxMedia.Packing.Gzip
import ZxMedia.Packing.Token
import ZxMedia.Packing.Zlib

/-!
# Deflating data

The tokens of data are written in the fixed codes, or in codes that suit them and are
described in front of them. The shorter of the two forms is packed into a stream, which
is decoded before it is given out: should it not give the data back, the data is stored
as it is. So decoding a stream that was made here always gives back what it was made
from, however the tokens and codes were chosen.
-/

namespace ZxMedia.Packing

/-- The symbol whose base with added bits gives a value, with the added bits. -/
def extended (bases : Array (Nat × Nat)) (value : Nat) : Nat × List Bool :=
  let covers : Nat × Nat → Bool := fun (base, width) => base ≤ value && value < base + 1 <<< width
  let index := (bases.findIdx? covers).getD 0
  let (base, width) := bases.getD index (0, 0)
  (index, numberBits width (value - base))

/-- The number of the length symbol of the longest copy, which has a length of its
own. -/
def longestIndex : Nat := 28

/-- The length symbol of a copy, counted from the first one, with the added bits. -/
def lengthParts (length : Nat) : Nat × List Bool :=
  if length = Token.maxLength then (longestIndex, []) else extended lengthBases length

/-- The symbol of a token, and the bits added to it. -/
def Token.symbol : Token → Nat × List Bool
  | literal octet => (octet.toNat, [])
  | copy length _ => let (index, added) := lengthParts length; (endOfBlock + 1 + index, added)

/-- The distance symbol of a token, if it has one, and the bits added to it. -/
def Token.distanceSymbol? : Token → Option (Nat × List Bool)
  | literal _ => none
  | copy _ distance => some (extended distanceBases distance)

/-- The strings of two codes by their symbols. -/
structure StringTables where
  symbols : Array (List Bool)
  distances : Array (List Bool)

namespace StringTables

/-- The strings of the codes of the given lengths. -/
def ofLengths (symbols distances : List Nat) : StringTables :=
  ⟨Code.stringTable symbols, Code.stringTable distances⟩

/-- The fixed codes. -/
def fixed : StringTables := ofLengths fixedLengths (List.replicate 32 5)

/-- The bits of a token. -/
def tokenBits (tables : StringTables) (token : Token) : List Bool :=
  let (symbol, added) := token.symbol
  let distance := match token.distanceSymbol? with
    | none => []
    | some (symbol, added) => tables.distances.getD symbol [] ++ added
  tables.symbols.getD symbol [] ++ added ++ distance

/-- The bits of tokens and of the end of their block. -/
def blockBits (tables : StringTables) (tokens : List Token) : List Bool :=
  tokens.flatMap tables.tokenBits ++ tables.symbols.getD endOfBlock []

end StringTables

/-- How often each of the first `size` symbols occurs. -/
def countSymbols (size : Nat) (symbols : List Nat) : List Nat :=
  let counts := symbols.foldl (fun counts symbol => counts.modify symbol (· + 1))
    (Array.replicate size 0)
  counts.toList

/-- Drops the zeros at the end of a list that is longer than `least`. -/
def trimZeros (least : Nat) (lengths : List Nat) : List Nat :=
  let used := (lengths.reverse.dropWhile (· = 0)).length
  lengths.take (max least used)

/-- A way to say that a length is repeated: the symbol, the fewest times and the added
bits. -/
structure Repetition where
  symbol : Nat
  least : Nat
  width : Nat

/-- The ways to repeat a length: zeros have two of their own, another length that was
given before has one. -/
def repetitions (length : Nat) : List Repetition :=
  if length = 0 then [⟨18, 11, 7⟩, ⟨17, 3, 3⟩] else [⟨16, 3, 2⟩]

/-- Describes that a length is given `count` more times, as symbols with the bits added
to them. -/
def describeRepeats (length : Nat) : Nat → Nat → List (Nat × List Bool)
  | _, 0 => []
  | 0, _ => []
  | steps + 1, count + 1 => match (repetitions length).find? (·.least ≤ count + 1) with
    | some way =>
      let times := min (count + 1) (way.least + 1 <<< way.width - 1)
      (way.symbol, numberBits way.width (times - way.least))
        :: describeRepeats length steps (count + 1 - times)
    | none => (length, []) :: describeRepeats length steps count

/-- Describes a run of equal lengths. Only zeros can be repeated before they were given
once. -/
def describeRun : List Nat → List (Nat × List Bool)
  | [] => []
  | length :: rest =>
    if length = 0 then describeRepeats 0 (rest.length + 1) (rest.length + 1)
    else (length, []) :: describeRepeats length rest.length rest.length

/-- Describes the lengths of two codes: the counts, the code of the description and the
lengths. -/
def describeCodes (symbols distances : List Nat) : List Bool :=
  let parts := ((symbols ++ distances).splitBy (· == ·)).flatMap describeRun
  let own := Code.limitedLengths 7 64 (countSymbols lengthOrder.length (parts.map (·.1)))
  let ordered := trimZeros 4 (lengthOrder.map fun symbol => own.getD symbol 0)
  let table := Code.stringTable own
  numberBits 5 (symbols.length - 257) ++ numberBits 5 (distances.length - 1)
    ++ numberBits 4 (ordered.length - 4) ++ ordered.flatMap (numberBits 3)
    ++ parts.flatMap fun (symbol, added) => table.getD symbol [] ++ added

/-- One last block of tokens in the fixed codes. -/
def fixedBlock (tokens : List Token) : List Bool :=
  [true, true, false] ++ StringTables.fixed.blockBits tokens

/-- One last block of tokens in codes that suit them. -/
def describedBlock (tokens : List Token) : List Bool :=
  let counts := countSymbols 286 (endOfBlock :: tokens.map (·.symbol.1))
  let distanceCounts :=
    countSymbols 30 (tokens.filterMap fun token => token.distanceSymbol?.map (·.1))
  let symbols := trimZeros 257 (Code.limitedLengths Code.maxLength 64 counts)
  let distances := trimZeros 1 (Code.limitedLengths Code.maxLength 64 distanceCounts)
  [true, false, true] ++ describeCodes symbols distances
    ++ (StringTables.ofLengths symbols distances).blockBits tokens

/-- Gathers bits into octets, the last one filled up with zeros. -/
def packBits : List Bool → List UInt8
  | [] => []
  | b0 :: b1 :: b2 :: b3 :: b4 :: b5 :: b6 :: b7 :: bits =>
    UInt8.ofNat (bitsValue [b0, b1, b2, b3, b4, b5, b6, b7]) :: packBits bits
  | bits => [UInt8.ofNat (bitsValue bits)]

/-- The shorter of the deflated forms of data. -/
def deflate (data : Octets) : List UInt8 :=
  let tokens := tokensOf data
  let fixed := packBits (fixedBlock tokens)
  let described := packBits (describedBlock tokens)
  if described.length < fixed.length then described else fixed

/-- The most octets that a stored block holds. -/
def maxStored : Nat := 65535

/-- A block of octets as they are, with the mark of the last block. -/
def storedBlock (isLast : Bool) (octets : List UInt8) : List UInt8 :=
  let size := LittleEndian.encode 2 octets.length
  UInt8.ofNat isLast.toNat :: size ++ size.map (~~~ ·) ++ octets

/-- Blocks of octets as they are: `blocks` full ones, and a last one with the octets
after them. -/
def storedBlocks : Nat → List UInt8 → List UInt8
  | 0, octets => storedBlock true octets
  | blocks + 1, octets =>
    storedBlock false (octets.take maxStored) ++ storedBlocks blocks (octets.drop maxStored)

/-- Data in the form of stored blocks. -/
def store (data : Octets) : List UInt8 :=
  storedBlocks (data.size / maxStored) data.toList

/-- A zlib stream with the given compressed form of data. -/
def Zlib.stream (data : Octets) (body : List UInt8) : List UInt8 :=
  0x78 :: 0xDA :: body ++ (LittleEndian.encode 4 (adler32 data)).reverse

/-- The zlib stream of data. -/
def Zlib.deflate (data : Octets) : Octets :=
  let packed := Zlib.stream data (Packing.deflate data)
  let content := Zlib.decode packed
  if content.output = data ∧ content.ending.isOk then packed.toArray
  else (Zlib.stream data (store data)).toArray

/-- A gzip file with the given compressed form of data. -/
def Gzip.file (data : Octets) (body : List UInt8) : List UInt8 :=
  [0x1F, 0x8B, 8, 0, 0, 0, 0, 0, 0, 0xFF] ++ body
    ++ LittleEndian.encode 4 (crc32 data) ++ LittleEndian.encode 4 (data.size % UInt32.size)

/-- The gzip file of data. -/
def Gzip.deflate (data : Octets) : Octets :=
  let packed := Gzip.file data (Packing.deflate data)
  match Gzip.decode packed with
  | .ok content =>
    if content = data then packed.toArray else (Gzip.file data (store data)).toArray
  | .error _ => (Gzip.file data (store data)).toArray

end ZxMedia.Packing
