import ZxMedia.Packing.Code

/-!
# Codes that suit their symbols

The more often a symbol occurs, the shorter its string should be. The lengths are found
by joining the two rarest groves of symbols again and again until one grove is left:
every join makes the strings of all symbols below it longer by a bit. Where a string
would become too long, the counts are brought closer to one another and the joining
starts again.
-/

namespace ZxMedia.Packing.Code

/-- Symbols whose strings will have a beginning in common. -/
structure Grove where
  /-- How often the symbols occur together. -/
  weight : Nat
  /-- The symbols, with the lengths of their strings after the common beginning. -/
  members : List (Nat × Nat)

namespace Grove

/-- Two groves as one: every string becomes longer by a bit. -/
def join (left right : Grove) : Grove :=
  ⟨left.weight + right.weight,
    (left.members ++ right.members).map fun (value, length) => (value, length + 1)⟩

/-- Puts a grove in its place among groves of increasing weight. -/
def insert (grove : Grove) : List Grove → List Grove
  | [] => [grove]
  | next :: groves =>
    if grove.weight ≤ next.weight then grove :: next :: groves else next :: insert grove groves

@[simp] theorem length_insert (grove : Grove) (groves : List Grove) :
    (grove.insert groves).length = groves.length + 1 := by
  induction groves with
  | nil => rfl
  | cons next groves ih =>
    simp only [insert]
    split
    · rfl
    · simp [ih]

/-- Joins the two rarest groves until one is left: its symbols with their lengths. -/
def joinAll : List Grove → List (Nat × Nat)
  | [] => []
  | [grove] => grove.members
  | left :: right :: groves => joinAll ((left.join right).insert groves)
termination_by groves => groves.length
decreasing_by simp

end Grove

/-- The lengths that suit symbols with the given counts. A symbol that does not occur
gets no string, and the string of a lone symbol has one bit. -/
def suitedLengths (counts : List Nat) : List Nat :=
  let groves := (counts.zipIdx.filter fun (count, _) => count ≠ 0).foldr
    (fun (count, value) => Grove.insert ⟨count, [(value, 0)]⟩) []
  let members := Grove.joinAll groves
  (List.range counts.length).map fun value => ((members.lookup value).map (max 1)).getD 0

/-- The lengths that suit the counts with no string longer than `limit`. Each round
brings the counts closer together; when all of them are one, the strings are as even as
they can be. -/
def limitedLengths (limit : Nat) : Nat → List Nat → List Nat
  | 0, counts => suitedLengths counts
  | rounds + 1, counts =>
    let lengths := suitedLengths counts
    if lengths.all (· ≤ limit) then lengths
    else limitedLengths limit rounds (counts.map fun count => (count + 1) / 2)

/-- The strings of a code by their symbols, each with the path that leads to it. -/
def strings : Code → List Bool → List (Nat × List Bool)
  | .unused, _ => []
  | .symbol value, path => [(value, path.reverse)]
  | .branch zero one, path => zero.strings (false :: path) ++ one.strings (true :: path)

/-- The strings of the code of the given lengths in an array, by their symbols. -/
def stringTable (lengths : List Nat) : Array (List Bool) :=
  let strings := (ofLengths lengths).strings []
  (List.range lengths.length).toArray.map fun value => (strings.lookup value).getD []

end ZxMedia.Packing.Code
