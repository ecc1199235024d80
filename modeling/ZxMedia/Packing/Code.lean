import ZxMedia.Packing.Bits

/-!
# Codes of varying length

A code gives each of its symbols a string of bits, and no string begins another one, so
that symbols can be read without marks between them. A code is kept as a binary tree
with the symbols at its leaves. Compressed data describes a code by the lengths of its
strings alone: shorter strings stand further left, and among strings of one length those
of smaller symbols do.
-/

namespace ZxMedia.Packing

/-- Why compressed data can not be decoded further. -/
inductive Stop where
  /-- The data ends early. -/
  | incomplete
  /-- The data is not the compressed form of anything. -/
  | invalid
deriving Repr, DecidableEq

/-- A code as a tree: a zero bit leads left and a one bit right. -/
inductive Code where
  /-- No symbol has a string that begins like this. -/
  | unused
  | symbol (value : Nat)
  | branch (zero one : Code)
deriving Repr, DecidableEq

namespace Code

/-- The longest string of a code. -/
def maxLength : Nat := 15

/-- Reads the symbol at the front of a source. -/
def read : Code → BitSource → Except Stop (Nat × BitSource)
  | .unused, _ => .error .invalid
  | .symbol value, source => .ok (value, source)
  | .branch zero one, source => match source.next? with
    | none => .error .incomplete
    | some (false, source) => zero.read source
    | some (true, source) => one.read source

/-- Hangs symbols, sorted by the lengths of their strings, into the tree below a node at
a depth: the next symbol becomes a leaf when its string ends here, and otherwise both
subtrees take what they can. The symbols that are left come back. -/
def hang : Nat → Nat → List (Nat × Nat) → Code × List (Nat × Nat)
  | _, _, [] => (.unused, [])
  | 0, _, (value, _) :: rest => (.symbol value, rest)
  | room + 1, depth, (value, length) :: rest =>
    if length ≤ depth then (.symbol value, rest)
    else
      let (zero, left) := hang room (depth + 1) ((value, length) :: rest)
      let (one, left) := hang room (depth + 1) left
      (.branch zero one, left)

/-- The symbols whose strings have the given length, in increasing order. -/
def symbolsOfLength (lengths : List Nat) (length : Nat) : List (Nat × Nat) :=
  (lengths.zipIdx.filter fun (own, _) => own == length).map fun (own, value) => (value, own)

/-- The code whose symbols have strings of the given lengths; a length of zero means
that the symbol has no string. A code without symbols still takes a bit to be found
wrong. -/
def ofLengths (lengths : List Nat) : Code :=
  match (List.range maxLength).flatMap fun n => symbolsOfLength lengths (n + 1) with
  | [] => .branch .unused .unused
  | symbols => (hang maxLength 0 symbols).1

/-- The part of all strings of 16 bits that begin with a string of the code. -/
def coverage (lengths : List Nat) : Nat :=
  lengths.foldr (fun length total => (if length = 0 then 0 else 1 <<< (16 - length)) + total) 0

/-- Whether every sequence of bits begins with a string of exactly one symbol. -/
def isComplete (lengths : List Nat) : Bool :=
  coverage lengths == 65536

/-- The lengths of the strings, without the symbols that have none. -/
def usedLengths (lengths : List Nat) : List Nat :=
  lengths.filter (· ≠ 0)

/-- Whether a code of these lengths can be read with. It is complete, or it leaves
strings unused because no more than one symbol is needed: then that symbol has a string
of a single bit. -/
def isUsable (lengths : List Nat) : Bool :=
  isComplete lengths || usedLengths lengths == [] || usedLengths lengths == [1]

/-- The code of the given lengths, if it can be read with. -/
def ofLengths? (lengths : List Nat) : Except Stop Code :=
  if isUsable lengths then .ok (ofLengths lengths) else .error .invalid

end Code

end ZxMedia.Packing
