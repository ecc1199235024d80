import ZxMedia.Proofs.Encoding
import ZxMedia.Tap.File

/-!
# Chunks of TAP files

A file that can be read is one chunk after another and nothing else (`read_ok_iff`), and
what is written of a tape are the chunks of its payloads (`write_ok_iff`). A chunk says
its own size, and nothing is asked of what is in it.
-/

namespace ZxMedia.Tap

open LittleEndian (capacity encode)

variable {chunks : List Octets} {chunk : Octets}

/-- A chunk as it is in a file: its size and its octets. -/
def chunkOctets (chunk : Octets) : List UInt8 :=
  encode 2 chunk.size ++ chunk.toList

/-- The block that a chunk of a file is read as. -/
def chunkBlock (chunk : Octets) : Block :=
  .rom { pause := filePause, data := chunk }

/-- The sizes of chunks are those that two octets can say. -/
theorem lt_capacity_iff : chunk.size < capacity 2 ↔ chunk.size ≤ Chunk.maxSize :=
  Nat.lt_succ_iff

/-- A chunk is read from its octets and from no others. -/
theorem scanChunk_ok_iff {ahead rest : List UInt8} :
    scanChunk ahead = .ok (chunk, rest) ↔
      chunk.size ≤ Chunk.maxSize ∧ ahead = chunkOctets chunk ++ rest := by
  rw [← lt_capacity_iff]
  constructor
  · intro answered
    obtain ⟨size, middle, counted, taken⟩ :=
      Scan.bind_answer (Scan.within_answer answered)
    obtain ⟨fits, rfl⟩ := Scan.number_answer counted
    obtain ⟨rfl, rfl⟩ := Scan.take_answer taken
    exact ⟨fits, (List.append_assoc ..).symm⟩
  · rintro ⟨fits, rfl⟩
    exact (Scan.Reads.sized fits).within _ rest

/-! ## Reading -/

/-- A chunk that is read is one more, and it has octets of its own. -/
theorem chunksFrom_of_scan {file ahead rest : List UInt8}
    (scanned : scanChunk ahead = .ok (chunk, rest)) (steps : Nat)
    (before : Array Octets) :
    chunksFrom file (steps + 1) ahead before =
      chunksFrom file steps rest (before.push chunk) ∧
      rest.length < ahead.length := by
  obtain ⟨-, same⟩ := scanChunk_ok_iff.mp scanned
  have lengths := congrArg List.length same
  simp only [chunkOctets, List.length_append, LittleEndian.length_encode] at lengths
  cases ahead with
  | nil =>
      rw [List.length_nil] at lengths
      omega
  | cons octet ahead =>
      refine ⟨?_, by omega⟩
      simp only [chunksFrom, scanned]

theorem chunksFrom_octets {file : List UInt8}
    (fit : ∀ chunk ∈ chunks, chunk.size ≤ Chunk.maxSize)
    {steps : Nat} (enough : (chunks.flatMap chunkOctets).length ≤ steps)
    (before : Array Octets) :
    chunksFrom file steps (chunks.flatMap chunkOctets) before =
      ⟨before ++ chunks, none⟩ := by
  induction chunks generalizing steps before with
  | nil => cases steps <;> simp [chunksFrom]
  | cons chunk chunks ih =>
      rw [List.forall_mem_cons] at fit
      have scanned :=
        scanChunk_ok_iff.mpr ⟨fit.1, @List.flatMap_cons _ _ chunk chunks chunkOctets⟩
      cases steps with
      | zero =>
          have shorter := (@chunksFrom_of_scan _ file _ _ scanned 0 before).2
          omega
      | succ steps =>
          obtain ⟨first, shorter⟩ := @chunksFrom_of_scan _ file _ _ scanned steps before
          rw [first, ih fit.2 (by omega)]
          simp

/-- The rest of a file that can be read to its end is made of chunks. -/
theorem chunksFrom_ok {file ahead : List UInt8} {steps : Nat} {before : Array Octets}
    (enough : ahead.length ≤ steps)
    (whole : (chunksFrom file steps ahead before).failure = none) :
    ∃ chunks : List Octets, (∀ chunk ∈ chunks, chunk.size ≤ Chunk.maxSize) ∧
      ahead = chunks.flatMap chunkOctets := by
  induction steps generalizing ahead before with
  | zero =>
      obtain rfl : ahead = [] := List.length_eq_zero_iff.mp (Nat.le_zero.mp enough)
      exact ⟨[], List.forall_mem_nil _, rfl⟩
  | succ steps ih =>
      cases ahead with
      | nil => exact ⟨[], List.forall_mem_nil _, rfl⟩
      | cons octet ahead =>
          cases scanned : scanChunk (octet :: ahead) with
          | error trace =>
              simp only [chunksFrom, scanned] at whole
              cases whole
          | ok answer =>
              obtain ⟨chunk, rest⟩ := answer
              obtain ⟨first, shorter⟩ :=
                @chunksFrom_of_scan _ file _ _ scanned steps before
              rw [first] at whole
              obtain ⟨chunks, fit, rfl⟩ := ih (by omega) whole
              obtain ⟨fits, same⟩ := scanChunk_ok_iff.mp scanned
              exact ⟨chunk :: chunks, List.forall_mem_cons.mpr ⟨fits, fit⟩, same⟩

/-- The files that can be read are those made of chunks, and the tape has a block of
each. -/
theorem read_ok_iff {file : Octets} {tape : Tape} :
    (read file).result = .ok tape ↔
      ∃ chunks : List Octets, (∀ chunk ∈ chunks, chunk.size ≤ Chunk.maxSize) ∧
        file.toList = chunks.flatMap chunkOctets ∧
        tape = .ofBlocks (chunks.map chunkBlock) := by
  have made {chunks : List Octets} (fit : ∀ chunk ∈ chunks, chunk.size ≤ Chunk.maxSize)
      (same : file.toList = chunks.flatMap chunkOctets) :
      (read file).result = .ok (.ofBlocks (chunks.map chunkBlock)) := by
    simp only [read, chunksOf, same, chunksFrom_octets fit le_rfl,
      Array.toList_appendList, List.nil_append]
    rfl
  constructor
  · intro succeeded
    have whole : (chunksOf file.toList).failure = none := by
      simp only [read] at succeeded
      split at succeeded
      next => cases succeeded
      next whole => exact whole
    obtain ⟨chunks, fit, same⟩ := chunksFrom_ok le_rfl whole
    rw [made fit same] at succeeded
    exact ⟨chunks, fit, same, (Except.ok.inj succeeded).symm⟩
  · rintro ⟨chunks, fit, same, rfl⟩
    exact made fit same

/-! ## Writing -/

/-- The payloads of the blocks that chunks are read as are the chunks. -/
theorem payloads_chunkBlocks (chunks : List Octets) :
    (chunks.map chunkBlock).filterMap payload? = chunks := by
  rw [List.filterMap_map]
  exact List.filterMap_some

theorem encodeChunk_ok {octets : Octets} :
    encodeChunk chunk = .ok octets ↔
      chunk.size ≤ Chunk.maxSize ∧ octets.toList = chunkOctets chunk := by
  unfold encodeChunk
  split
  next fits =>
    rw [Except.ok.injEq, ← Array.toList_inj, and_iff_right fits]
    simp [chunkOctets, eq_comm]
  next long => simp [long]

/-- Blocks are written behind what was written before if their payloads are not too
large. -/
theorem writeBlocks_ok_iff {blocks : List Block} {written file : Octets}
    {notices : Array Notice} :
    (writeBlocks blocks written notices).result = .ok file ↔
      (∀ chunk ∈ blocks.filterMap payload?, chunk.size ≤ Chunk.maxSize) ∧
        file.toList =
          written.toList ++ (blocks.filterMap payload?).flatMap chunkOctets := by
  induction blocks generalizing written notices with
  | nil => simp [writeBlocks, ← Array.toList_inj, eq_comm]
  | cons block blocks ih =>
      cases coded : payload? block with
      | none => simp only [writeBlocks, coded, ih, List.filterMap_cons_none coded]
      | some chunk =>
          simp only [writeBlocks, coded, List.filterMap_cons_some coded,
            List.forall_mem_cons]
          cases encoded : encodeChunk chunk with
          | error error =>
              have long : ¬ chunk.size ≤ Chunk.maxSize := by
                intro fits
                have octets :=
                  encodeChunk_ok.mpr ⟨fits, (chunkOctets chunk).toList_toArray⟩
                rw [octets] at encoded
                cases encoded
              simp [long]
          | ok octets =>
              obtain ⟨fits, same⟩ := encodeChunk_ok.mp encoded
              simp [ih, fits, same]

/-- A tape is written if none of its payloads is too large, as the chunks of its
payloads. -/
theorem write_ok_iff {tape : Tape} {file : Octets} :
    (write tape).result = .ok file ↔
      (∀ chunk ∈ tape.blocks.filterMap payload?, chunk.size ≤ Chunk.maxSize) ∧
        file.toList = (tape.blocks.filterMap payload?).flatMap chunkOctets :=
  writeBlocks_ok_iff

end ZxMedia.Tap
