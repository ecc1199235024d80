import ZxMedia.ByteBuffer
import ZxMedia.Proofs.Encoding

/-!
# Buffers stand for lists of octets

Whatever is done with a buffer does the same to the list of its octets: writing appends
to the list, patching replaces a part of it, and clearing and truncating shorten it.
Meanwhile the buffer only gains room. It never holds more octets than it has room for,
and so the room that is asked of the allocator is never negative, although before the
first allocation the octets held are not looked at.

If nothing but writing is done with a new buffer, at most half of its room is unused.
-/

namespace ZxMedia

/-- The octets of a number are its digits to the base of 256, the lowest one first. -/
theorem LittleEndian.encode_eq_map (width number : Nat) :
    encode width number =
      (List.range width).map fun place => UInt8.ofNat (number / 256 ^ place) := by
  induction width generalizing number with
  | zero => rfl
  | succ width ih =>
      rw [encode, ih, List.range_succ_eq_map, List.map_cons, List.map_map, Nat.pow_zero,
        Nat.div_one]
      congr 1
      apply List.map_congr_left
      intro place _
      rw [Function.comp_apply, Nat.succ_eq_add_one, Nat.pow_succ', Nat.div_div_eq_div_mul]

namespace ByteBuffer

/-- Something done with a buffer. -/
inductive Operation where
  | makeRoom (requested : Nat)
  | write (octets : Octets)
  | writeNumber (width number : Nat)
  | patch (start number : Nat)
  | map (change : UInt8 → UInt8)
  | clear
  | truncate (size : Nat)

namespace Operation

/-- The low digits of a number to the base of 256, the lowest one first. -/
def digits (width number : Nat) : List UInt8 :=
  (List.range width).map fun place => UInt8.ofNat (number / 256 ^ place)

/-- What an operation makes of a plain list of octets. A patch has to lie within the
list. -/
def onList (octets : List UInt8) : Operation → Option (List UInt8)
  | makeRoom _ => some octets
  | write added => some (octets ++ added.toList)
  | writeNumber width number => some (octets ++ digits width number)
  | patch start number =>
    if start + 4 ≤ octets.length then
      some (octets.take start ++ digits 4 number ++ octets.drop (start + 4))
    else none
  | map change => some (octets.map change)
  | clear => some []
  | truncate size => some (octets.take size)

/-- The number of octets that an operation asks room for. -/
def requested? : Operation → Option Nat
  | makeRoom requested => some requested
  | write octets => some octets.size
  | writeNumber width _ => some width
  | _ => none

/-- Whether an operation only writes at the end. -/
def isWrite : Operation → Bool
  | write _ | writeNumber _ _ => true
  | _ => false

end Operation

/-- The buffer after an operation, where allocations of `memory` octets and more
fail. -/
def perform (memory : Nat) (buffer : ByteBuffer) : Operation → Except Error ByteBuffer
  | .makeRoom requested => buffer.makeRoom requested memory
  | .write octets => buffer.write octets memory
  | .writeNumber width number => buffer.writeNumber width number memory
  | .patch start number => buffer.patch start number
  | .map change => .ok (buffer.map change)
  | .clear => .ok buffer.clear
  | .truncate size => .ok (buffer.truncate size)

/-- The buffer after operations one after another. -/
def run (memory : Nat) (buffer : ByteBuffer) (operations : List Operation) :
    Except Error ByteBuffer :=
  operations.foldlM (perform memory) buffer

/-- The room of the buffer after it was made for so many more octets. -/
def roomFor (buffer : ByteBuffer) (requested : Nat) : Nat :=
  if buffer.allocated = 0 then requested
  else if buffer.size + requested ≤ buffer.allocated then buffer.allocated
  else max (buffer.size + requested) (2 * buffer.allocated)

/-- If an operation asks for room, the sizes it has to do with are far below the largest
number of a machine word, and there is memory for the room. -/
def Affords (memory : Nat) (buffer : ByteBuffer) (operation : Operation) : Prop :=
  ∀ requested, operation.requested? = some requested →
    buffer.size < 2 ^ 62 ∧ requested < 2 ^ 62 ∧ buffer.roomFor requested < memory

/-- Every operation can be afforded where it is done. -/
def AffordsAll (memory : Nat) (buffer : ByteBuffer) : List Operation → Prop
  | [] => True
  | operation :: operations => buffer.Affords memory operation ∧
    ∀ after, buffer.perform memory operation = .ok after → after.AffordsAll memory operations

/-- The octets of the buffer are the list, and it has room for them. -/
structure Represents (buffer : ByteBuffer) (octets : List UInt8) : Prop where
  content : buffer.toList = octets
  inRoom : buffer.size ≤ buffer.allocated

variable {buffer start : ByteBuffer} {octets changed : List UInt8}
    {memory requested : Nat}
variable {operation : Operation} {operations : List Operation}

@[simp] theorem length_toList (buffer : ByteBuffer) :
    buffer.toList.length = buffer.size :=
  Array.length_toList

/-! ## Room -/

/-- More room is made than is needed, and none is given up. -/
theorem le_roomFor (inRoom : buffer.size ≤ buffer.allocated) (requested : Nat) :
    buffer.size + requested ≤ buffer.roomFor requested ∧
      buffer.allocated ≤ buffer.roomFor requested := by
  unfold roomFor
  split
  · omega
  · split <;> omega

/-- Room is only made when it is needed, and then no more than twice as much. -/
theorem roomFor_le (inRoom : buffer.size ≤ buffer.allocated)
    (filled : buffer.allocated ≤ 2 * buffer.size) (requested : Nat) :
    buffer.roomFor requested ≤ 2 * (buffer.size + requested) := by
  unfold roomFor
  split
  · omega
  · split <;> omega

theorem allocate_ok {target : Nat} (inRoom : buffer.size ≤ target)
    (enough : target < memory) :
    buffer.allocate target memory = .ok { buffer with allocated := target } := by
  rw [allocate, if_neg (Nat.not_lt.mpr inRoom), if_neg (Nat.not_le.mpr enough)]

/-- Room that can be afforded is made. -/
theorem makeRoom_ok (inRoom : buffer.size ≤ buffer.allocated)
    (held : buffer.size < 2 ^ 62)
    (asked : requested < 2 ^ 62) (enough : buffer.roomFor requested < memory) :
    buffer.makeRoom requested memory =
      .ok { buffer with allocated := buffer.roomFor requested } := by
  have needed := (le_roomFor inRoom requested).1
  have addressed : ¬addressable ≤ buffer.size + requested := by
    unfold addressable UInt64.size
    omega
  unfold makeRoom
  unfold roomFor at needed enough ⊢
  by_cases fresh : buffer.allocated = 0
  · simp only [if_pos fresh] at needed enough ⊢
    exact allocate_ok (by omega) enough
  · simp only [if_neg fresh, if_neg addressed] at needed enough ⊢
    by_cases fits : buffer.size + requested ≤ buffer.allocated
    · simp only [if_pos fits]
    · simp only [if_neg fits] at needed enough ⊢
      -- What is doubled is less than what is needed.
      have doubled : ¬addressable ≤ 2 * buffer.allocated := by
        unfold addressable UInt64.size
        omega
      rw [if_neg doubled]
      exact allocate_ok (by omega) enough

/-! ## Operations -/

variable {after : ByteBuffer}

theorem Represents.length (represents : buffer.Represents octets) :
    octets.length = buffer.size := by
  rw [← represents.content, length_toList]

theorem Represents.makeRoom (represents : buffer.Represents octets)
    (affords : buffer.Affords memory (.makeRoom requested)) :
    ∃ after, buffer.makeRoom requested memory = .ok after ∧ after.Represents octets ∧
      after.size = buffer.size ∧ after.allocated = buffer.roomFor requested := by
  obtain ⟨held, asked, enough⟩ := affords requested rfl
  have needed := (le_roomFor represents.inRoom requested).1
  exact ⟨_, makeRoom_ok represents.inRoom held asked enough,
    ⟨represents.content, Nat.le_of_add_right_le needed⟩, rfl, rfl⟩

theorem Represents.write (represents : buffer.Represents octets) {added : Octets}
    (affords : buffer.Affords memory (.write added)) :
    ∃ after, buffer.write added memory = .ok after ∧
      after.Represents (octets ++ added.toList) ∧
      after.size = buffer.size + added.size ∧
      after.allocated = buffer.roomFor added.size := by
  obtain ⟨roomy, made, kept, same, room⟩ := represents.makeRoom affords
  have needed := (le_roomFor represents.inRoom added.size).1
  have done : buffer.write added memory =
      .ok { roomy with content := roomy.content ++ added } := by
    rw [ByteBuffer.write, made]
  have sized : ({ roomy with content := roomy.content ++ added } : ByteBuffer).size =
      buffer.size + added.size := by
    rw [← same]
    exact Array.size_append
  refine ⟨_, done, ⟨?_, ?_⟩, sized, room⟩
  · rw [toList_write done, represents.content]
  · rw [sized]
    exact needed.trans_eq room.symm

theorem Represents.writeNumber (represents : buffer.Represents octets)
    {width number : Nat}
    (affords : buffer.Affords memory (.writeNumber width number)) :
    ∃ after, buffer.writeNumber width number memory = .ok after ∧
      after.Represents (octets ++ Operation.digits width number) ∧
      after.size = buffer.size + width ∧ after.allocated = buffer.roomFor width := by
  have sized : (LittleEndian.encode width number).toArray.size = width :=
    LittleEndian.length_encode width number
  have written := @Represents.write buffer octets memory represents
    (LittleEndian.encode width number).toArray (by
      intro requested asked
      cases asked
      rw [sized]
      exact affords width rfl)
  rw [sized, LittleEndian.encode_eq_map] at written
  rw [ByteBuffer.writeNumber, LittleEndian.encode_eq_map]
  exact written

theorem Represents.patch (represents : buffer.Represents octets) {start number : Nat}
    (inside : start + 4 ≤ octets.length) :
    ∃ after, buffer.patch start number = .ok after ∧ after.Represents
        (octets.take start ++ Operation.digits 4 number ++ octets.drop (start + 4)) ∧
      after.allocated = buffer.allocated := by
  rw [represents.length] at inside
  have whole : buffer.content.size ≤ buffer.size - (start + 4) + (start + 4) :=
    (Nat.sub_add_cancel inside).ge
  have patched : (buffer.content.extract 0 start ++ LittleEndian.encode 4 number ++
      buffer.content.extract (start + 4) buffer.size).toList =
      octets.take start ++ Operation.digits 4 number ++ octets.drop (start + 4) := by
    rw [LittleEndian.encode_eq_map, ← represents.content]
    simpa [toList, Operation.digits] using whole
  have long : (octets.take start ++ Operation.digits 4 number ++ octets.drop (start + 4)).length =
      buffer.size := by
    simp only [List.length_append, List.length_take, List.length_drop, Operation.digits,
      List.length_map, List.length_range, represents.length]
    omega
  refine ⟨_, if_pos inside, ⟨patched, ?_⟩, rfl⟩
  rw [← length_toList, toList, patched, long]
  exact represents.inRoom

/-- An operation does to a buffer what it does to the list, and no room is given up. -/
theorem Represents.perform (represents : buffer.Represents octets)
    (affords : buffer.Affords memory operation)
    (listed : operation.onList octets = some changed) :
    ∃ after, buffer.perform memory operation = .ok after ∧ after.Represents changed ∧
      buffer.allocated ≤ after.allocated := by
  cases operation with
  | makeRoom requested =>
      cases listed
      obtain ⟨after, made, kept, -, room⟩ := represents.makeRoom affords
      exact ⟨after, made, kept, (le_roomFor represents.inRoom _).2.trans_eq room.symm⟩
  | write added =>
      cases listed
      obtain ⟨after, done, appended, -, room⟩ := represents.write affords
      exact ⟨after, done, appended, (le_roomFor represents.inRoom _).2.trans_eq room.symm⟩
  | writeNumber width number =>
      cases listed
      obtain ⟨after, done, appended, -, room⟩ := represents.writeNumber affords
      exact ⟨after, done, appended, (le_roomFor represents.inRoom _).2.trans_eq room.symm⟩
  | patch start number =>
      simp only [Operation.onList, Option.ite_none_right_eq_some,
        Option.some.injEq] at listed
      obtain ⟨inside, rfl⟩ := listed
      obtain ⟨after, done, patched, same⟩ := represents.patch inside
      exact ⟨after, done, patched, same.ge⟩
  | map change =>
      cases listed
      refine ⟨_, rfl, ⟨?_, ?_⟩, Nat.le_refl _⟩
      · rw [toList_map, represents.content]
      · exact (Array.size_map).trans_le represents.inRoom
  | clear =>
      cases listed
      exact ⟨_, rfl, ⟨rfl, Nat.zero_le _⟩, Nat.le_refl _⟩
  | truncate size =>
      cases listed
      refine ⟨_, rfl, ⟨?_, ?_⟩, Nat.le_refl _⟩
      · rw [toList_truncate, represents.content]
      · rw [← length_toList, toList_truncate, List.length_take, length_toList]
        exact (Nat.min_le_right _ _).trans represents.inRoom

theorem Represents.perform_overflow (represents : buffer.Represents octets)
    (unlisted : operation.onList octets = none) :
    buffer.perform memory operation = .error .overflow := by
  cases operation with
  | patch start number =>
      simp only [Operation.onList, ite_eq_right_iff, reduceCtorEq, imp_false,
        represents.length] at unlisted
      exact if_neg unlisted
  | _ => cases unlisted

/-- Writing leaves at most half of the room unused, if it was so before. -/
theorem Represents.perform_write (represents : buffer.Represents octets)
    (affords : buffer.Affords memory operation) (writes : operation.isWrite = true)
    (filled : buffer.allocated ≤ 2 * buffer.size)
    (done : buffer.perform memory operation = .ok after) :
    after.allocated ≤ 2 * after.size := by
  cases operation with
  | write added =>
      obtain ⟨_, written, -, sized, room⟩ := represents.write affords
      cases written.symm.trans done
      rw [room, sized]
      exact roomFor_le represents.inRoom filled added.size
  | writeNumber width number =>
      obtain ⟨_, written, -, sized, room⟩ := represents.writeNumber affords
      cases written.symm.trans done
      rw [room, sized]
      exact roomFor_le represents.inRoom filled width
  | _ => cases writes

/-! ## Operations one after another -/

theorem run_cons (buffer : ByteBuffer) (operation : Operation)
    (operations : List Operation) :
    buffer.run memory (operation :: operations) =
      (buffer.perform memory operation >>= fun next => next.run memory operations) :=
  List.foldlM_cons

/-- A run does to a buffer what it does to the list, and no room is given up. -/
theorem Represents.run (represents : buffer.Represents octets)
    (affords : buffer.AffordsAll memory operations)
    (listed : operations.foldlM Operation.onList octets = some changed) :
    ∃ after, buffer.run memory operations = .ok after ∧ after.Represents changed ∧
      buffer.allocated ≤ after.allocated := by
  induction operations generalizing buffer octets with
  | nil =>
      cases listed
      exact ⟨buffer, rfl, represents, Nat.le_refl _⟩
  | cons operation operations ih =>
      rw [List.foldlM_cons] at listed
      obtain ⟨middle, first, others⟩ := Option.bind_eq_some_iff.mp listed
      obtain ⟨next, done, represented, room⟩ := represents.perform affords.1 first
      obtain ⟨after, later, changes, more⟩ := ih represented (affords.2 next done) others
      refine ⟨after, ?_, changes, room.trans more⟩
      rw [run_cons, done]
      exact later

theorem Represents.run_overflow (represents : buffer.Represents octets)
    (affords : buffer.AffordsAll memory operations)
    (unlisted : operations.foldlM Operation.onList octets = none) :
    buffer.run memory operations = .error .overflow := by
  induction operations generalizing buffer octets with
  | nil => cases unlisted
  | cons operation operations ih =>
      rw [run_cons]
      cases first : operation.onList octets with
      | none =>
          rw [represents.perform_overflow first]
          rfl
      | some middle =>
          obtain ⟨next, done, represented, -⟩ := represents.perform affords.1 first
          rw [List.foldlM_cons, first] at unlisted
          rw [done]
          exact ih represented (affords.2 next done) unlisted

/-- If nothing is done but writing, at most half of the room stays unused. -/
theorem Represents.run_writes (represents : buffer.Represents octets)
    (affords : buffer.AffordsAll memory operations)
    (writes : ∀ operation ∈ operations, operation.isWrite = true)
    (filled : buffer.allocated ≤ 2 * buffer.size)
    (done : buffer.run memory operations = .ok after) :
    after.allocated ≤ 2 * after.size := by
  induction operations generalizing buffer octets with
  | nil =>
      cases done
      exact filled
  | cons operation operations ih =>
      rw [List.forall_mem_cons] at writes
      obtain ⟨next, first, others⟩ := bind_ok.mp done
      obtain ⟨middle, listed⟩ : ∃ middle, operation.onList octets = some middle := by
        cases operation with
        | write | writeNumber => exact ⟨_, rfl⟩
        | _ => cases writes.1
      obtain ⟨_, same, represented, -⟩ := represents.perform affords.1 listed
      cases first.symm.trans same
      exact ih represented (affords.2 _ first) writes.2
        (represents.perform_write affords.1 writes.1 filled first) others

theorem run_append (buffer : ByteBuffer) (front back : List Operation) :
    buffer.run memory (front ++ back) =
      (buffer.run memory front >>= fun middle => middle.run memory back) :=
  List.foldlM_append

theorem affordsAll_cons {next : ByteBuffer} (affords : buffer.Affords memory operation)
    (done : buffer.perform memory operation = .ok next)
    (others : next.AffordsAll memory operations) :
    buffer.AffordsAll memory (operation :: operations) := by
  refine ⟨affords, ?_⟩
  intro after same
  cases done.symm.trans same
  exact others

theorem affordsAll_append {front back : List Operation}
    (affords : buffer.AffordsAll memory (front ++ back)) :
    buffer.AffordsAll memory front ∧
      ∀ middle, buffer.run memory front = .ok middle → middle.AffordsAll memory back := by
  induction front generalizing buffer with
  | nil =>
      refine ⟨trivial, ?_⟩
      rintro _ ⟨⟩
      exact affords
  | cons operation front ih =>
      refine ⟨⟨affords.1, fun next done => (ih (affords.2 next done)).1⟩, ?_⟩
      intro middle ran
      obtain ⟨next, done, others⟩ := bind_ok.mp ran
      exact (ih (affords.2 next done)).2 middle others

/-! ## Buffers from their beginning -/

theorem represents_new : ({} : ByteBuffer).Represents [] := ⟨rfl, Nat.le_refl 0⟩

theorem withCapacity_ok {capacity : Nat} (enough : capacity < memory) :
    withCapacity capacity memory = .ok { allocated := capacity } := by
  simp only [withCapacity, makeRoom, if_true]
  exact allocate_ok (Nat.zero_le capacity) enough

theorem represents_withCapacity {capacity : Nat}
    (made : withCapacity capacity memory = .ok start) : start.Represents [] := by
  by_cases enough : capacity < memory
  · rw [withCapacity_ok enough] at made
    cases made
    exact ⟨rfl, Nat.zero_le _⟩
  · have failed : withCapacity capacity memory = .error .outOfMemory :=
      if_pos (Nat.not_lt.mp enough)
    rw [failed] at made
    cases made

/-- A buffer that is new or begins with room is, at any time of a run, the list that the
same operations make of an empty one, unless one of them patches what is not held, which
is an overflow. It has room for what it holds, never less than before, and whatever is
asked for next, the room to have then is enough for what is held. If a new buffer is
only written to, at most half of the room is unused. -/
theorem run_represents {front back : List Operation}
    (begun : start = {} ∨ ∃ capacity, withCapacity capacity memory = .ok start)
    (affords : start.AffordsAll memory (front ++ back)) :
    (∀ octets, (front ++ back).foldlM Operation.onList [] = some octets →
      ∃ earlier after, start.run memory front = .ok earlier ∧
        earlier.run memory back = .ok after ∧ earlier.allocated ≤ after.allocated ∧
        after.toList = octets ∧ after.size ≤ after.allocated ∧
        (∀ requested, after.size ≤ after.roomFor requested) ∧
        (start = {} → (∀ operation ∈ front ++ back, operation.isWrite = true) →
          after.allocated ≤ 2 * after.size)) ∧
    ((front ++ back).foldlM Operation.onList [] = none →
      start.run memory (front ++ back) = .error .overflow) := by
  have empty : start.Represents [] := by
    rcases begun with rfl | ⟨capacity, made⟩
    · exact represents_new
    · exact represents_withCapacity made
  refine ⟨?_, empty.run_overflow affords⟩
  intro octets listed
  obtain ⟨affordsFront, affordsBack⟩ := affordsAll_append affords
  rw [List.foldlM_append] at listed
  obtain ⟨middle, listedFront, listedBack⟩ := Option.bind_eq_some_iff.mp listed
  obtain ⟨earlier, ran, represents, -⟩ := empty.run affordsFront listedFront
  obtain ⟨after, later, represented, room⟩ :=
    represents.run (affordsBack earlier ran) listedBack
  refine ⟨earlier, after, ran, later, room, represented.content,
    represented.inRoom, ?_, ?_⟩
  · intro requested
    exact Nat.le_of_add_right_le (le_roomFor represented.inRoom requested).1
  · rintro rfl writes
    apply empty.run_writes affords writes (Nat.le_refl 0)
    rw [run_append, ran]
    exact later

/-- Operations that outgrow the room once, and fill it again after it was not needed any
more. -/
def patching : List Operation :=
  [.writeNumber 3 0x0A0B0C, .write #[1, 2], .patch 0 0xDEADBEEF, .truncate 4, .writeNumber 2 0x1234]

theorem run_represents_patching :
    ∃ earlier after, run allocationLimit {} (patching.take 2) = .ok earlier ∧
      earlier.run allocationLimit (patching.drop 2) = .ok after ∧
      earlier.allocated ≤ after.allocated ∧
      after.toList = [0xEF, 0xBE, 0xAD, 0xDE, 0x34, 0x12] ∧
      after.size ≤ after.allocated := by
  have affords : AffordsAll allocationLimit {} (patching.take 2 ++ patching.drop 2) := by
    refine affordsAll_cons ?_ rfl (affordsAll_cons ?_ rfl (affordsAll_cons nofun rfl
      (affordsAll_cons nofun rfl (affordsAll_cons ?_ rfl trivial)))) <;>
    · rintro _ ⟨⟩
      decide
  have listed : (patching.take 2 ++ patching.drop 2).foldlM Operation.onList [] =
      some [0xEF, 0xBE, 0xAD, 0xDE, 0x34, 0x12] := by decide
  obtain ⟨earlier, after, ran, later, room, content, inRoom, -⟩ :=
    (run_represents (.inl rfl) affords).1 _ listed
  exact ⟨earlier, after, ran, later, room, content, inRoom⟩

end ByteBuffer

end ZxMedia
