import ZxMedia.Timing

/-!
# Edges of the tape signal

The signal of a tape is a sequence of intervals, most of which end with an edge: a
change of the level. Flags tell when an interval ends without one, when the player
should stop, and when a block or the tape has ended. The flags have a form of seven bits
in an octet (`toByte`, `ofByte?`), and these two are inverse to each other.
-/

namespace ZxMedia

/-- What holds at the end of an interval. -/
structure EdgeFlags where
  /-- The level does not change. -/
  noEdge : Bool := false
  /-- The tape should be stopped. -/
  stop : Bool := false
  /-- The level should be set low. -/
  levelLow : Bool := false
  /-- The level should be set high. -/
  levelHigh : Bool := false
  /-- The block has ended. -/
  block : Bool := false
  /-- The tape should be stopped on a machine with 48K of memory. -/
  stop48 : Bool := false
  /-- The tape has ended, and the cursor went back to the first block. -/
  tape : Bool := false
deriving Repr, DecidableEq

namespace EdgeFlags

/-- The flags in the order of their bits, with their names. -/
def entries (flags : EdgeFlags) : List (String × Bool) :=
  [("NO_EDGE", flags.noEdge), ("STOP", flags.stop), ("LEVEL_LOW", flags.levelLow),
    ("LEVEL_HIGH", flags.levelHigh), ("BLOCK", flags.block), ("STOP48", flags.stop48),
    ("TAPE", flags.tape)]

/-- The names of the flags that are set, the lowest bit first. -/
def names (flags : EdgeFlags) : List String :=
  (flags.entries.filter (·.2)).map (·.1)

/-- The flags as bits, the first flag lowest. -/
def toByte (flags : EdgeFlags) : Nat :=
  flags.noEdge.toNat + 2 * flags.stop.toNat + 4 * flags.levelLow.toNat + 8 * flags.levelHigh.toNat
    + 16 * flags.block.toNat + 32 * flags.stop48.toNat + 64 * flags.tape.toNat

/-- The flags of bits, unless a bit is set that stands for no flag. -/
def ofByte? (bits : Nat) : Option EdgeFlags :=
  if bits < 128 then
    some {
      noEdge := bits.testBit 0
      stop := bits.testBit 1
      levelLow := bits.testBit 2
      levelHigh := bits.testBit 3
      block := bits.testBit 4
      stop48 := bits.testBit 5
      tape := bits.testBit 6 }
  else none

theorem ofByte?_toByte (flags : EdgeFlags) : ofByte? flags.toByte = some flags := by
  obtain ⟨noEdge, stop, levelLow, levelHigh, block, stop48, tape⟩ := flags
  cases noEdge <;> cases stop <;> cases levelLow <;> cases levelHigh <;> cases block <;>
    cases stop48 <;> cases tape <;> rfl

/-- The text about bits that are no flags. -/
def unrecognized : String := "unrecognized edge flags"

end EdgeFlags

/-- An interval of the signal and what holds at its end. -/
structure Edge where
  tstates : Nat
  flags : EdgeFlags := {}
deriving Repr, DecidableEq

/-- Whether the level changes at the end of the interval. -/
def Edge.isEdge (edge : Edge) : Bool :=
  !edge.flags.noEdge

end ZxMedia
