import ZxMedia.Packing.Code

/-!
# Decoding deflated data

Deflated data is a sequence of blocks. A block holds octets as they are, or symbols of
two codes, which are fixed ones or are described at its start. A symbol is an octet, the
end of the block, or the length of a string that occurred before, followed by the
distance to it. Decoding keeps the octets it has found when it stops, so that what could
be read of broken data is known.
-/

namespace ZxMedia.Packing

/-- What decoding leads to. -/
structure Inflated where
  /-- The octets found. -/
  output : Octets
  /-- What follows the compressed data, or why decoding stopped. -/
  ending : Except Stop BitSource

/-- Whether decoding came to the end. -/
def Inflated.isSound (content : Inflated) : Bool :=
  content.ending.isOk

/-- Whether decoding stopped at something invalid. -/
def Inflated.isBroken (content : Inflated) : Bool :=
  match content.ending with
  | .error .invalid => true
  | _ => false

/-- Repeats `count` octets that were found `distance` octets ago. Before the first octet
there are zeros. -/
def copyBack (distance : Nat) : Nat → Octets → Octets
  | 0, output => output
  | count + 1, output =>
    let octet :=
      if distance ≤ output.size then output.getD (output.size - distance) 0 else 0
    copyBack distance count (output.push octet)

/-- A step of the description of data. -/
inductive Token where
  /-- One octet as it is. -/
  | literal (octet : UInt8)
  /-- A string of `length` octets that occurred `distance` octets before. -/
  | copy (length distance : Nat)
deriving Repr, DecidableEq

/-- The data that was found before, with what a token adds to it. -/
def Token.expand (output : Octets) : Token → Octets
  | literal octet => output.push octet
  | copy length distance => copyBack distance length output

/-- The base lengths of the length symbols and the number of bits that are added to
them. -/
def lengthBases : Array (Nat × Nat) :=
  #[(3, 0), (4, 0), (5, 0), (6, 0), (7, 0), (8, 0), (9, 0), (10, 0), (11, 1), (13, 1), (15, 1),
    (17, 1), (19, 2), (23, 2), (27, 2), (31, 2), (35, 3), (43, 3), (51, 3), (59, 3), (67, 4),
    (83, 4), (99, 4), (115, 4), (131, 5), (163, 5), (195, 5), (227, 5), (258, 0)]

/-- The base distances of the distance symbols and the number of bits that are added to
them. -/
def distanceBases : Array (Nat × Nat) :=
  #[(1, 0), (2, 0), (3, 0), (4, 0), (5, 1), (7, 1), (9, 2), (13, 2), (17, 3), (25, 3), (33, 4),
    (49, 4), (65, 5), (97, 5), (129, 6), (193, 6), (257, 7), (385, 7), (513, 8), (769, 8),
    (1025, 9), (1537, 9), (2049, 10), (3073, 10), (4097, 11), (6145, 11), (8193, 12), (12289, 12),
    (16385, 13), (24577, 13)]

/-- Reads the bits that are added to the base of a symbol. -/
def readExtended (bases : Array (Nat × Nat)) (index : Nat) (source : BitSource) :
    Except Stop (Nat × BitSource) :=
  match bases[index]? with
  | none => .error .invalid
  | some (base, width) => match source.number? width with
    | none => .error .incomplete
    | some (extra, source) => .ok (base + extra, source)

/-- The symbol that ends a block. -/
def endOfBlock : Nat := 256

/-- Reads the distance that follows a length symbol: the length, the distance and the
rest. -/
def readReference (distances : Code) (symbol : Nat) (source : BitSource) :
    Except Stop (Nat × Nat × BitSource) := do
  let (length, source) ← readExtended lengthBases (symbol - endOfBlock - 1) source
  let (index, source) ← distances.read source
  let (distance, source) ← readExtended distanceBases index source
  return (length, distance, source)

/-- Reads a token, or the end of a block. -/
def readToken (symbols distances : Code) (source : BitSource) :
    Except Stop (Option Token × BitSource) := do
  let (symbol, source) ← symbols.read source
  if symbol < endOfBlock then return (some (.literal (UInt8.ofNat symbol)), source)
  else if symbol = endOfBlock then return (none, source)
  else
    let (length, distance, source) ← readReference distances symbol source
    return (some (.copy length distance), source)

/-- Decodes symbols up to the end of a block. Every symbol takes at least one bit, so
the number of bits ahead bounds the number of steps. -/
def inflateSymbols (symbols distances : Code) : Nat → BitSource → Octets → Inflated
  | 0, _, output => ⟨output, .error .incomplete⟩
  | steps + 1, source, output => match readToken symbols distances source with
    | .error stop => ⟨output, .error stop⟩
    | .ok (none, source) => ⟨output, .ok source⟩
    | .ok (some token, source) =>
      inflateSymbols symbols distances steps source (token.expand output)

/-- Decodes a block that holds octets as they are: their number, its complement, the
octets. -/
def inflateStored (source : BitSource) (output : Octets) : Inflated :=
  match source.align.octets with
  | low :: high :: notLow :: notHigh :: octets =>
    if notLow = ~~~low ∧ notHigh = ~~~high then
      let size := LittleEndian.decode [low, high]
      let found := octets.take size
      let output := output ++ found
      if found.length < size then ⟨output, .error .incomplete⟩
      else ⟨output, .ok (.ofOctets (octets.drop size))⟩
    else ⟨output, .error .invalid⟩
  | _ => ⟨output, .error .incomplete⟩

/-- The lengths of the fixed code of symbols. -/
def fixedLengths : List Nat :=
  List.replicate 144 8 ++ List.replicate 112 9 ++ List.replicate 24 7 ++ List.replicate 8 8

/-- The fixed code of symbols. -/
def fixedSymbols : Code := Code.ofLengths fixedLengths

/-- The fixed code of distances. -/
def fixedDistances : Code := Code.ofLengths (List.replicate 32 5)

/-- The order in which a block gives the lengths of the code that its lengths are
written in. -/
def lengthOrder : List Nat :=
  [16, 17, 18, 0, 8, 7, 9, 6, 10, 5, 11, 4, 12, 3, 13, 2, 14, 1, 15]

/-- Reads `count` lengths of three bits. -/
def readShortLengths : Nat → BitSource → Except Stop (List Nat × BitSource)
  | 0, source => .ok ([], source)
  | count + 1, source => match source.number? 3 with
    | none => .error .incomplete
    | some (length, source) => match readShortLengths count source with
      | .error stop => .error stop
      | .ok (lengths, source) => .ok (length :: lengths, source)

/-- How often a symbol above 15 repeats a length, as a base and the bits added to it. -/
def repeatBases : Array (Nat × Nat) := #[(3, 2), (3, 3), (11, 7)]

/-- Reads the lengths of the codes of a block until there are `count` of them; the last
repetition must not go beyond. -/
def readLengths (code : Code) (count : Nat) :
    Nat → BitSource → Array Nat → Except Stop (Array Nat × BitSource)
  | 0, _, _ => .error .incomplete
  | steps + 1, source, lengths =>
    if count ≤ lengths.size then
      if lengths.size = count then .ok (lengths, source) else .error .invalid
    else match code.read source with
      | .error stop => .error stop
      | .ok (symbol, source) =>
        if symbol < 16 then readLengths code count steps source (lengths.push symbol)
        else if symbol = 16 ∧ lengths.isEmpty then .error .invalid
        else match readExtended repeatBases (symbol - 16) source with
          | .error stop => .error stop
          | .ok (times, source) =>
            let length := if symbol = 16 then lengths.back?.getD 0 else 0
            readLengths code count steps source (lengths ++ List.replicate times length)

/-- Reads the three counts at the start of a block that describes its codes. -/
def readCounts (source : BitSource) : Except Stop (Nat × Nat × Nat × BitSource) :=
  let counts : Option (Nat × Nat × Nat × BitSource) := do
    let (symbols, source) ← source.number? 5
    let (distances, source) ← source.number? 5
    let (lengths, source) ← source.number? 4
    return (symbols + 257, distances + 1, lengths + 4, source)
  match counts with
  | none => .error .incomplete
  | some counts => .ok counts

/-- Reads the two codes that a block describes at its start. -/
def readCodes (source : BitSource) : Except Stop (Code × Code × BitSource) := do
  let (symbols, distances, short, source) ← readCounts source
  if 286 < symbols ∨ 30 < distances then throw .invalid
  let (shortLengths, source) ← readShortLengths short source
  let given := lengthOrder.zip shortLengths
  let ordered := (List.range 19).map fun symbol => (given.lookup symbol).getD 0
  if !Code.isComplete ordered then throw .invalid
  let count := symbols + distances
  let (lengths, source) ← readLengths (Code.ofLengths ordered) count (count + 1) source #[]
  let symbolCode ← Code.ofLengths? (lengths.toList.take symbols)
  let distanceCode ← Code.ofLengths? (lengths.toList.drop symbols)
  return (symbolCode, distanceCode, source)

/-- Decodes the content of a block of one of the four kinds. -/
def inflateBlock (kind steps : Nat) (source : BitSource) (output : Octets) : Inflated :=
  match kind with
  | 0 => inflateStored source output
  | 1 => inflateSymbols fixedSymbols fixedDistances steps source output
  | 2 => match readCodes source with
    | .error stop => ⟨output, .error stop⟩
    | .ok (symbols, distances, source) => inflateSymbols symbols distances steps source output
  | _ => ⟨output, .error .invalid⟩

/-- Decodes blocks up to the one marked as the last. -/
def inflateBlocks (steps : Nat) : Nat → BitSource → Octets → Inflated
  | 0, _, output => ⟨output, .error .incomplete⟩
  | blocks + 1, source, output => match source.number? 3 with
    | none => ⟨output, .error .incomplete⟩
    | some (header, source) =>
      let decoded := inflateBlock (header / 2) steps source output
      match decoded.ending with
      | .error _ => decoded
      | .ok source =>
        if header % 2 = 1 then decoded else inflateBlocks steps blocks source decoded.output

/-- Decodes deflated data at the start of a string of octets. -/
def inflate (octets : List UInt8) : Inflated :=
  let bits := 8 * octets.length + 1
  inflateBlocks bits bits (.ofOctets octets) #[]

end ZxMedia.Packing
