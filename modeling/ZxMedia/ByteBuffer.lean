import ZxMedia.Error

/-!
# Growing buffers

A buffer is written at its end and keeps track of the room it has allocated. Room grows
at least twofold, so that a run of small writes allocates rarely. Seen from outside a
buffer is the list of the octets written to it (`toList`), and every operation is an
equation about that list.
-/

namespace ZxMedia

/-- Octets written one after another, and the room allocated for them. -/
structure ByteBuffer where
  content : Octets := #[]
  /-- The number of octets that there is room for. -/
  allocated : Nat := 0
deriving Repr, DecidableEq

namespace ByteBuffer

/-- The octets written so far. -/
def toList (buffer : ByteBuffer) : List UInt8 :=
  buffer.content.toList

/-- The number of octets written so far. -/
def size (buffer : ByteBuffer) : Nat :=
  buffer.content.size

/-- The number of sizes that a machine word can say. -/
def addressable : Nat := UInt64.size

/-- The size of the address space: no allocation reaches it, however much memory there
is. -/
def allocationLimit : Nat := 1 <<< 47

/-- Allocates room for so many octets in all, which must be as many as are held.
Allocations of `memory` octets and more fail. -/
def allocate (buffer : ByteBuffer) (target memory : Nat) : Except Error ByteBuffer :=
  if target < buffer.size then .error .overflow
  else if memory ≤ target then .error .outOfMemory
  else .ok { buffer with allocated := target }

/-- Makes room for `requested` more octets: just the requested room at first, then at
least twice the present room whenever that is not enough. -/
def makeRoom (buffer : ByteBuffer) (requested : Nat) (memory : Nat := allocationLimit) :
    Except Error ByteBuffer :=
  if buffer.allocated = 0 then buffer.allocate requested memory
  else if addressable ≤ buffer.size + requested then .error .overflow
  else if buffer.size + requested ≤ buffer.allocated then .ok buffer
  else if addressable ≤ 2 * buffer.allocated then .error .overflow
  else buffer.allocate (max (buffer.size + requested) (2 * buffer.allocated)) memory

/-- An empty buffer with room for `capacity` octets. -/
def withCapacity (capacity : Nat) (memory : Nat := allocationLimit) :
    Except Error ByteBuffer :=
  makeRoom {} capacity memory

/-- Writes octets at the end. -/
def write (buffer : ByteBuffer) (octets : Octets) (memory : Nat := allocationLimit) :
    Except Error ByteBuffer :=
  match buffer.makeRoom octets.size memory with
  | .error error => .error error
  | .ok buffer => .ok { buffer with content := buffer.content ++ octets }

/-- Writes the low `width` octets of a number at the end. -/
def writeNumber (buffer : ByteBuffer) (width number : Nat)
    (memory : Nat := allocationLimit) :
    Except Error ByteBuffer :=
  buffer.write (LittleEndian.encode width number).toArray memory

/-- Replaces the four octets at `start` by a number. -/
def patch (buffer : ByteBuffer) (start number : Nat) : Except Error ByteBuffer :=
  if start + 4 ≤ buffer.size then
    .ok { buffer with content :=
      buffer.content.extract 0 start ++ LittleEndian.encode 4 number
        ++ buffer.content.extract (start + 4) buffer.size }
  else .error .overflow

/-- Replaces every octet by its image under a function. -/
def map (buffer : ByteBuffer) (change : UInt8 → UInt8) : ByteBuffer :=
  { buffer with content := buffer.content.map change }

/-- Forgets what was written and keeps the room. -/
def clear (buffer : ByteBuffer) : ByteBuffer :=
  { buffer with content := #[] }

/-- Forgets what was written past the first `size` octets and keeps the room. -/
def truncate (buffer : ByteBuffer) (size : Nat) : ByteBuffer :=
  { buffer with content := buffer.content.take size }

theorem toList_allocate {buffer roomy : ByteBuffer} {target memory : Nat}
    (made : buffer.allocate target memory = .ok roomy) :
    roomy.toList = buffer.toList := by
  unfold allocate at made
  split at made
  · cases made
  · split at made
    · cases made
    · cases made
      rfl

theorem toList_makeRoom {buffer roomy : ByteBuffer} {requested memory : Nat}
    (made : buffer.makeRoom requested memory = .ok roomy) :
    roomy.toList = buffer.toList := by
  unfold makeRoom at made
  split at made
  · exact toList_allocate made
  · split at made
    · cases made
    · split at made
      · cases made
        rfl
      · split at made
        · cases made
        · exact toList_allocate made

theorem toList_write {buffer written : ByteBuffer} {octets : Octets} {memory : Nat}
    (done : buffer.write octets memory = .ok written) :
    written.toList = buffer.toList ++ octets.toList := by
  unfold write at done
  split at done
  · cases done
  · next roomy made =>
    cases done
    have kept := toList_makeRoom made
    simp only [toList] at kept ⊢
    rw [← kept, Array.toList_append]

@[simp] theorem toList_map (buffer : ByteBuffer) (change : UInt8 → UInt8) :
    (buffer.map change).toList = buffer.toList.map change := by
  simp [map, toList]

@[simp] theorem toList_clear (buffer : ByteBuffer) : buffer.clear.toList = [] := rfl

@[simp] theorem toList_truncate (buffer : ByteBuffer) (size : Nat) :
    (buffer.truncate size).toList = buffer.toList.take size := by
  simp [truncate, toList]

end ByteBuffer

end ZxMedia
