import ZxMedia.Packing.Inflate

/-!
# Describing data by its repetitions

Data is described by tokens: single octets, and copies of strings that occurred before.
A copy is only used after its octets have been compared, so that expanding the tokens
gives the data back whatever earlier positions were looked at.
-/

namespace ZxMedia.Packing

namespace Token

/-- The shortest string worth copying. -/
def minLength : Nat := 3

/-- The longest string that a copy can say. -/
def maxLength : Nat := 258

/-- The longest way back to a string. -/
def maxDistance : Nat := 32768

end Token

/-- The data that tokens describe. -/
def expand (tokens : List Token) : Octets :=
  tokens.foldl Token.expand #[]

/-- How many octets from two positions on are equal, at most `limit`. -/
def commonLength (data : Octets) : Nat → Nat → Nat → Nat
  | 0, _, _ => 0
  | limit + 1, first, second =>
    match data[first]?, data[second]? with
    | some found, some wanted =>
      if found = wanted then commonLength data limit (first + 1) (second + 1) + 1 else 0
    | _, _ => 0

/-- The number of slots in which positions are remembered. -/
def slots : Nat := 4096

/-- The slot for the three octets at a position. -/
def slot (data : Octets) (position : Nat) : Nat :=
  let octet (index : Nat) := (data.getD index 0).toNat
  (octet position * 1089 + octet (position + 1) * 33 + octet (position + 2)) % slots

/-- The longest copy for the octets at a position from an earlier one, if it is worth
its bits: the length. -/
def copyLength? (data : Octets) (position earlier : Nat) : Option Nat :=
  if earlier < position ∧ position - earlier ≤ Token.maxDistance then
    let length := commonLength data Token.maxLength earlier position
    if Token.minLength ≤ length then some length else none
  else none

/-- Describes the data from a position on. Each step passes at least one octet, so that
their number bounds the steps; `seen` remembers the last position of each slot. -/
def tokensFrom (data : Octets) : Nat → Nat → Array Nat → Array Token → Array Token
  | 0, _, _, tokens => tokens
  | steps + 1, position, seen, tokens =>
    if h : position < data.size then
      let index := slot data position
      let earlier := seen.getD index data.size
      let seen := seen.setIfInBounds index position
      match copyLength? data position earlier with
      | some length =>
        tokensFrom data steps (position + length) seen
          (tokens.push (.copy length (position - earlier)))
      | none => tokensFrom data steps (position + 1) seen (tokens.push (.literal data[position]))
    else tokens

/-- The tokens that describe data. -/
def tokensOf (data : Octets) : List Token :=
  (tokensFrom data data.size 0 (Array.replicate slots data.size) #[]).toList

end ZxMedia.Packing
