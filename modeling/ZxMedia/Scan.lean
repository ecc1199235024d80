import ZxMedia.Octets

/-!
# Scanning octets

A scanner takes a value off the front of a string of octets and leaves the rest. When it
cannot, it answers with a trace: a list of marks, the innermost first, each with the
offset at which it stood and what was being read there. Offsets count from the place
where the outermost scanner began.
-/

namespace ZxMedia

namespace Scan

/-- What a mark of a trace says about its place. -/
inductive Cause where
  /-- Fewer octets were left than were needed. -/
  | endOfData
  /-- The octets differ from the fixed ones expected here. -/
  | mismatch
  /-- The value read here is not allowed. -/
  | refused
  /-- One of the items of the list that starts here could not be read. -/
  | list
  /-- The named part of the file starts here. -/
  | part (name : String)
deriving Repr, DecidableEq

/-- A place in the scanned octets, and what failed or began there. -/
structure Mark where
  offset : Nat
  cause : Cause
deriving Repr, DecidableEq

/-- The marks of a failure, the innermost first. -/
abbrev Trace := List Mark

/-- The same marks counted from a place `distance` octets earlier. -/
def Trace.shift (distance : Nat) (trace : Trace) : Trace :=
  trace.map fun mark => { mark with offset := distance + mark.offset }

/-- The word or name with which a mark is shown. -/
def Cause.describe : Cause → String
  | .endOfData => "in Eof"
  | .mismatch => "in Tag"
  | .refused => "in Verify"
  | .list => "in Count"
  | .part name => name

/-- One line for each mark, numbered from the innermost; `size` is the size of the
scanned data. -/
def Trace.describe (size : Nat) (trace : Trace) : String :=
  "\n".intercalate <| trace.mapIdx fun index mark =>
    s!"{index}: at byte {mark.offset} of {size}, {mark.cause.describe}"

end Scan

/-- A scanner of values: from the octets ahead, a value with the octets that follow it,
or the trace of a failure. -/
def Scan (α : Type) := List UInt8 → Except Scan.Trace (α × List UInt8)

namespace Scan

variable {α β : Type}

/-- Fails at the place where it stands. -/
def fail (cause : Cause) : Scan α :=
  fun _ => .error [⟨0, cause⟩]

/-- Runs one scanner and then another on what it left. -/
def andThen (first : Scan α) (next : α → Scan β) : Scan β :=
  fun ahead => match first ahead with
    | .error trace => .error trace
    | .ok (value, rest) => match next value rest with
      | .error trace => .error (trace.shift (ahead.length - rest.length))
      | .ok answer => .ok answer

instance : Monad Scan where
  pure value := fun ahead => .ok (value, ahead)
  bind := andThen

/-- Adds the name of a part of the file to the trace of a failure inside it. -/
def within (name : String) (scan : Scan α) : Scan α :=
  fun ahead => match scan ahead with
    | .error trace => .error (trace ++ [⟨0, .part name⟩])
    | .ok answer => .ok answer

/-- Refuses a value that is not allowed, at the place where it begins, under a name that
tells why. -/
def ensuring (name : String) (allowed : α → Bool) (scan : Scan α) : Scan α :=
  fun ahead => match scan ahead with
    | .error trace => .error trace
    | .ok (value, rest) =>
      if allowed value then .ok (value, rest) else .error [⟨0, .refused⟩, ⟨0, .part name⟩]

/-- Splits off exactly `count` octets, if there are so many. -/
def split? : Nat → List UInt8 → Option (List UInt8 × List UInt8)
  | 0, ahead => some ([], ahead)
  | _ + 1, [] => none
  | count + 1, octet :: ahead =>
    (split? count ahead).map fun (taken, rest) => (octet :: taken, rest)

theorem split?_eq (count : Nat) (ahead : List UInt8) :
    split? count ahead =
      if count ≤ ahead.length then some (ahead.take count, ahead.drop count) else none := by
  induction count generalizing ahead with
  | zero => simp [split?]
  | succ count ih =>
    cases ahead with
    | nil => simp [split?]
    | cons octet ahead =>
      by_cases enough : count ≤ ahead.length <;> simp [split?, ih, enough]

/-- Splits off as many octets as a given string has. -/
theorem split?_append (taken rest : List UInt8) :
    split? taken.length (taken ++ rest) = some (taken, rest) := by
  simp [split?_eq]

/-- Splits off exactly `count` octets with the taken ones gathered in an array, for
payloads of any size. -/
def splitArray? : Nat → List UInt8 → Octets → Option (Octets × List UInt8)
  | 0, ahead, taken => some (taken, ahead)
  | _ + 1, [], _ => none
  | count + 1, octet :: ahead, taken => splitArray? count ahead (taken.push octet)

theorem splitArray?_eq (count : Nat) (ahead : List UInt8) (taken : Octets) :
    splitArray? count ahead taken =
      (split? count ahead).map fun (octets, rest) => (taken ++ octets.toArray, rest) := by
  induction count generalizing ahead taken with
  | zero => simp [splitArray?, split?]
  | succ count ih =>
    cases ahead with
    | nil => rfl
    | cons octet ahead =>
      simp only [splitArray?, split?, ih, Option.map_map]
      congr 1
      funext ⟨octets, rest⟩
      simp only [Function.comp, Prod.mk.injEq, and_true]
      apply Array.toList_inj.mp
      simp

/-- Takes exactly `count` octets. -/
def take (count : Nat) : Scan Octets :=
  fun ahead => match splitArray? count ahead #[] with
    | some answer => .ok answer
    | none => .error [⟨0, .endOfData⟩]

/-- Takes an unsigned number of `width` octets. -/
def number (width : Nat) : Scan Nat :=
  fun ahead => match split? width ahead with
    | some (octets, rest) => .ok (LittleEndian.decode octets, rest)
    | none => .error [⟨0, .endOfData⟩]

/-- Takes an octet. -/
def byte : Scan UInt8 :=
  fun ahead => match ahead with
    | octet :: rest => .ok (octet, rest)
    | [] => .error [⟨0, .endOfData⟩]

/-- Takes a word of two octets. -/
def word : Scan UInt16 := do
  return UInt16.ofNat (← number 2)

/-- Takes a signed offset of two octets. -/
def offset : Scan Int16 := do
  return (← word).toInt16

/-- Takes all that is left. -/
def rest : Scan Octets :=
  fun ahead => .ok (ahead.toArray, [])

/-- Takes the given octets, which have to be there. -/
def tag (expected : List UInt8) : Scan Unit :=
  fun ahead => match split? expected.length ahead with
    | some (octets, rest) => if octets = expected then .ok ((), rest) else .error [⟨0, .mismatch⟩]
    | none => .error [⟨0, .mismatch⟩]

/-- Takes as many octets as the number in front of them says. -/
def sized (width : Nat) : Scan Octets := do
  take (← number width)

/-- Takes items one after another from `ahead`, a part of the octets that began at
`start`. -/
def itemsFrom (item : Scan α) (start : List UInt8) :
    Nat → List UInt8 → Array α → Except Trace (Array α × List UInt8)
  | 0, ahead, items => .ok (items, ahead)
  | count + 1, ahead, items => match item ahead with
    | .error trace => .error (trace.shift (start.length - ahead.length) ++ [⟨0, .list⟩])
    | .ok (value, rest) => itemsFrom item start count rest (items.push value)

/-- Takes `count` items. -/
def items (count : Nat) (item : Scan α) : Scan (Array α) :=
  fun ahead => itemsFrom item ahead count ahead #[]

/-- Takes a body whose size is in front of it, and reads a value at the start of the
body. What follows the value inside the body is dropped. -/
def inside (width : Nat) (scan : Scan α) : Scan α := do
  let size ← number width
  fun ahead => match split? size ahead with
    | none => .error [⟨0, .endOfData⟩]
    | some (body, rest) => match scan body with
      | .error trace => .error trace
      | .ok (value, _) => .ok (value, rest)

/-- Takes as many octets as the number in front of them says, together with that
number. -/
def spelling (width : Nat) : Scan Octets := do
  let size ← take width
  return size ++ (← take (LittleEndian.decode size.toList))

end Scan

end ZxMedia
