/-!
# Timing

Time is counted in T-states, the ticks of the processor clock. Pauses on a tape are
given in milliseconds and are played as parts of video frames of 20 ms, whatever the
real frame rate of the machine is.
-/

namespace ZxMedia

/-- The largest number of T-states that a machine word of the player can hold. -/
def maxTstates : Nat := UInt32.size - 1

/-- The sum of two durations, held at the largest one. -/
def addTstates (first second : Nat) : Nat :=
  min (first + second) maxTstates

/-- The timing of the machine that plays a tape. -/
structure PlaybackConfig where
  /-- The number of T-states in a video frame. -/
  frameTstates : Nat := 69888
deriving Repr, DecidableEq

/-- The duration of a pause given in milliseconds: its twentieth part in frames, rounded
down to whole T-states and held at the largest duration. -/
def PlaybackConfig.pauseTstates (config : PlaybackConfig) (milliseconds : Nat) : Nat :=
  min (milliseconds * config.frameTstates / 20) maxTstates

theorem PlaybackConfig.pauseTstates_le (config : PlaybackConfig) (milliseconds : Nat) :
    config.pauseTstates milliseconds ≤ maxTstates :=
  Nat.min_le_right _ _

end ZxMedia
