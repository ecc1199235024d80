import ZxMedia.Proofs.Encoding
import ZxMedia.Proofs.Recording.Frames
import ZxMedia.Recording.RecordCodec

/-!
# Records in recording files are read back

What is written of a snapshot or of a block of input is a record whose body is read as
the same snapshot or block, whether its content was packed or not. Two things are not in
the body as such: the number of octets of a repetition, which the frames in front of it
give, and the end of a text, which is the first zero of its field.
-/

namespace ZxMedia.Recording

open LittleEndian (capacity encode)
open Packing (Packer)
open Scan (Reads Fills)

/-! ## Fields -/

/-- A text of so many octets at most, each an ASCII character other than the one of
number zero. -/
def FitsField (size : Nat) (text : String) : Prop :=
  text.utf8ByteSize ≤ size ∧ ∀ c ∈ text.toList, 0 < c.toNat ∧ c.toNat < 128

instance (size : Nat) (text : String) : Decidable (FitsField size text) :=
  haveI : Decidable (∀ c ∈ text.toList, 0 < c.toNat ∧ c.toNat < 128) := List.decidableBAll _ _
  inferInstanceAs (Decidable (_ ∧ _))

theorem octets_ascii {text : String} (ascii : ∀ c ∈ text.toList, c.toNat < 128) :
    text.toUTF8.data.toList = text.toList.map fun c => UInt8.ofNat c.toNat := by
  rw [String.toUTF8_eq_toByteArray, ← String.utf8Encode_toList]
  generalize text.toList = chars at ascii
  induction chars with
  | nil => rfl
  | cons c chars ih =>
      rw [List.forall_mem_cons] at ascii
      have one : c.utf8Size = 1 := by
        rw [Char.utf8Size_eq_one_iff, UInt32.le_iff_toNat_le]
        exact Nat.le_of_lt_succ ascii.1
      rw [List.utf8Encode_cons, List.utf8Encode_singleton,
        String.utf8EncodeChar_eq_singleton one]
      simp [ih ascii.2]
      rfl

theorem decodeLossy_ascii {chars : List Char} (ascii : ∀ c ∈ chars, c.toNat < 128) :
    Text.Utf8.decodeLossy (chars.map fun c => UInt8.ofNat c.toNat) =
      String.ofList chars := by
  have small : ∀ octet ∈ chars.map fun c => UInt8.ofNat c.toNat, octet < 0x80 := by
    simp only [List.forall_mem_map, UInt8.lt_iff_toNat_lt, UInt8.toNat_ofNat']
    intro c member
    have bound := ascii c member
    change c.toNat % 256 < 128
    omega
  unfold Text.Utf8.decodeLossy
  rw [Text.Utf8.decodeFrom_ascii small, List.map_map]
  congr 1
  conv_rhs => rw [← List.map_id chars]
  apply List.map_congr_left
  intro c member
  have bound := ascii c member
  have low : c.toNat % 256 = c.toNat := Nat.mod_eq_of_lt (by omega)
  simp [low]

@[simp] theorem size_encodeField (size : Nat) (text : String) :
    (encodeField size text).size = size := by
  simp only [encodeField, Array.size_append, Array.size_replicate, Array.take_eq_extract,
    Array.size_extract]
  omega

theorem decodeField_encodeField {size : Nat} {text : String}
    (fits : FitsField size text) :
    decodeField (encodeField size text) = text := by
  obtain ⟨short, characters⟩ := fits
  have ascii : ∀ c ∈ text.toList, c.toNat < 128 := fun c member => (characters c member).2
  have solid : ∀ octet ∈ text.toList.map fun c => UInt8.ofNat c.toNat, octet ≠ 0 := by
    simp only [List.forall_mem_map, ne_eq, ← UInt8.toNat_inj, UInt8.toNat_ofNat']
    intro c member
    obtain ⟨positive, small⟩ := characters c member
    simp
    omega
  have whole : text.toUTF8.data.take size = text.toUTF8.data := by
    rw [Array.take_eq_extract]
    exact Array.extract_eq_self_of_le short
  unfold decodeField encodeField
  dsimp only
  rw [whole, Array.toList_append, octets_ascii ascii,
    List.takeWhile_append_of_pos (by simpa using solid)]
  simp [decodeLossy_ascii ascii]

theorem reads_scanWord (word : UInt32) : scanWord.Reads (encode 4 word.toNat) word := by
  have fits : word.toNat < capacity 4 := word.toNat_lt
  have reads := (Reads.number fits).last UInt32.ofNat
  rwa [UInt32.ofNat_toNat] at reads

@[simp] theorem toList_encodeWords (words : List UInt32) :
    (encodeWords words).toList = words.flatMap fun word => encode 4 word.toNat := rfl

@[simp] theorem size_encodeWords (words : List UInt32) :
    (encodeWords words).size = 4 * words.length := by
  simp [encodeWords, Nat.mul_comm]

theorem reads_encodeField (size : Nat) (text : String) :
    (Scan.take size).Reads (encodeField size text).toList (encodeField size text) := by
  have reads := Reads.take (encodeField size text)
  rwa [size_encodeField] at reads

/-! ## Records -/

/-- The octets of a record: its identifier, its size and its body. -/
def Record.octets (record : Record) : List UInt8 :=
  record.id :: encode 4 (record.body.size + recordHeadSize) ++ record.body.toList

@[simp] theorem Record.length_octets (record : Record) :
    record.octets.length = record.body.size + recordHeadSize := by
  simp [octets, recordHeadSize]
  omega

/-- The size of a record fits its field. -/
def Record.Fits (record : Record) : Prop :=
  record.body.size + recordHeadSize < capacity 4

/-- The octets of a record are all that is read as the record. -/
theorem scanRecord_ok_iff {ahead rest : List UInt8} {record : Record} :
    scanRecord ahead = .ok (record, rest) ↔
      record.Fits ∧ ahead = record.octets ++ rest := by
  constructor
  · intro answered
    obtain ⟨⟨id, size⟩, middle, head, tail⟩ := Scan.bind_answer answered
    obtain ⟨head, least⟩ := Scan.ensuring_answer head
    obtain ⟨_, _, first, later⟩ := Scan.bind_answer (Scan.within_answer head)
    obtain ⟨_, _, counted, last⟩ := Scan.bind_answer later
    cases last
    obtain ⟨body, _, taken, last⟩ := Scan.bind_answer tail
    cases last
    obtain ⟨fits, rfl⟩ := Scan.number_answer counted
    obtain ⟨length, rfl⟩ := Scan.take_answer (Scan.within_answer taken)
    have least : recordHeadSize ≤ size := of_decide_eq_true least
    have whole : body.size + recordHeadSize = size := by omega
    refine ⟨by rwa [Record.Fits, whole], ?_⟩
    rw [Scan.byte_answer first, Record.octets, whole]
    simp
  · rintro ⟨fits, rfl⟩
    have readsHead : (do return (← Scan.byte, ← Scan.number 4) : Scan (UInt8 × Nat)).Reads
        ([record.id] ++ encode 4 (record.body.size + recordHeadSize))
        (record.id, record.body.size + recordHeadSize) :=
      (Reads.byte _).bind ((Reads.number fits).last _)
    have readsBody := Reads.take record.body
    rw [← Nat.add_sub_cancel (n := record.body.size) (m := recordHeadSize)] at readsBody
    have reads : scanRecord.Reads record.octets record := by
      refine .of_eq (((readsHead.within _).ensuring _ ?_).bind ((readsBody.within _).last _)) ?_
      · simp
      · simp [Record.octets]
    exact reads rest

/-- What is written is the octets of a record, if they can be said. -/
theorem encodeRecord_ok {kind : RecordKind} {body octets : Octets} :
    encodeRecord kind body = .ok octets ↔
      Record.Fits ⟨kind.toByte, body⟩ ∧
      octets.toList = Record.octets ⟨kind.toByte, body⟩ := by
  have same : octets.toList = Record.octets ⟨kind.toByte, body⟩ ↔
      (kind.toByte :: encode 4 (body.size + recordHeadSize)).toArray ++ body = octets := by
    rw [← Array.toList_inj, eq_comm]
    simp [Record.octets]
  rw [same]
  unfold encodeRecord
  dsimp only
  split
  next fits => simp [Record.Fits, show body.size + recordHeadSize < capacity 4 from fits]
  next long => simp [Record.Fits, show ¬body.size + recordHeadSize < capacity 4 from long]

theorem scanBody_ok {α : Type} {kind : RecordKind} {scan : Scan α} {body : Octets}
    {value : α}
    (fills : scan.Fills body.toList value) : scanBody kind scan body = .ok value := by
  have answered : scan body.toList = .ok (value, []) := fills
  simp only [scanBody, answered]

theorem fills_scanCreator {creator : Creator} (fits : FitsField nameSize creator.name) :
    scanCreator.Fills (encodeCreator creator).toList creator := by
  have fills : scanCreator.Fills (encodeCreator creator).toList
      { creator with name := decodeField (encodeField nameSize creator.name) } := by
    apply Fills.of_eq (Fills.bind (reads_encodeField nameSize creator.name) <|
      Fills.bind (Reads.word creator.major) <| Fills.bind (Reads.word creator.minor) <|
      (Fills.rest creator.custom).last _)
    simp [encodeCreator]
  rwa [decodeField_encodeField fits] at fills

/-! ## Packed content -/

@[simp] theorem packedFlag_ne_zero : packedFlag ≠ 0 := by decide

@[simp] theorem externalFlag_ne_zero : externalFlag ≠ 0 := by decide

@[simp] theorem externalFlag_and_packedFlag : externalFlag &&& packedFlag = 0 := by decide

@[simp] theorem packedFlag_and_externalFlag : packedFlag &&& externalFlag = 0 := by decide

theorem pack?_cases (packer : Packer) (compress : Bool) (data : Octets) :
    pack? packer compress data = none ∨
      pack? packer compress data = some (packer.deflate data) ∧
        (packer.deflate data).size < data.size := by
  unfold pack?
  split
  · dsimp only
    split
    next smaller => exact .inr ⟨rfl, smaller⟩
    next => exact .inl rfl
  · exact .inl rfl

@[simp] theorem pack?_false (packer : Packer) (data : Octets) :
    pack? packer false data = none := rfl

theorem size_pack?_le (packer : Packer) (compress : Bool) (data : Octets) :
    ((pack? packer compress data).getD data).size ≤ data.size := by
  rcases pack?_cases packer compress data with plain | ⟨packed, smaller⟩
  · simp [plain]
  · simpa [packed] using Nat.le_of_lt smaller

/-! ## Snapshots -/

theorem fills_scanSnapshot {flags : UInt32} {extension : String} {size : Nat}
    {payload : Octets}
    (fits : FitsField extensionSize extension) (short : size < UInt32.size) :
    scanSnapshot.Fills
      (encodeWords [flags] ++ encodeField extensionSize extension ++ encode 4 size
        ++ payload).toList
      { flags, extension, size, payload } := by
  have fills : scanSnapshot.Fills
      (encodeWords [flags] ++ encodeField extensionSize extension ++ encode 4 size
        ++ payload).toList
      { flags, extension := decodeField (encodeField extensionSize extension), size, payload } := by
    have fitsSize : size < capacity 4 := short
    apply Fills.of_eq (Fills.bind (reads_scanWord flags) <|
      Fills.bind (reads_encodeField extensionSize extension) <|
      Fills.bind (Reads.number fitsSize) <| (Fills.rest payload).last _)
    simp
  rwa [decodeField_encodeField fits] at fills

/-- What is written of a snapshot is a record whose body is read as the snapshot. -/
theorem snapshot_encodeSnapshot {packer : Packer} (restores : packer.Restores)
    {compress : Bool}
    {snapshot : Snapshot} {octets : Octets}
    (fits : FitsField extensionSize snapshot.extension)
    (written : encodeSnapshot packer compress snapshot = .ok octets) :
    ∃ body found, Record.Fits ⟨RecordKind.snapshot.toByte, body⟩ ∧
      octets.toList = Record.octets ⟨RecordKind.snapshot.toByte, body⟩ ∧
      scanBody .snapshot scanSnapshot body = .ok found ∧
      found.snapshot packer = .ok snapshot := by
  unfold encodeSnapshot at written
  dsimp only at written
  split at written
  next short =>
    obtain ⟨whole, same⟩ := encodeRecord_ok.mp written
    refine ⟨_, _, whole, same, scanBody_ok (fills_scanSnapshot fits short), ?_⟩
    obtain ⟨extension, external, data⟩ := snapshot
    cases external with
    | true => simp [SnapshotBody.snapshot]
    | false =>
        rcases pack?_cases packer compress data with plain | ⟨packed, -⟩
        · simp [SnapshotBody.snapshot, plain]
        · simp [SnapshotBody.snapshot, packed, restores.sized]
  next => cases written

/-! ## Blocks of input -/

/-- What a file holds of a frame. -/
def stored (frame : Frame) : UInt16 × Option Octets :=
  (frame.instructions, if frame.repeats then none else some frame.input)

theorem scanFrame_undoes : scanFrame.Undoes encodeFrame stored := by
  intro frame octets written
  unfold encodeFrame at written
  dsimp only at written
  split at written
  next repeats =>
    obtain rfl := Except.ok.inj written
    have fits : Frame.repeatMark < capacity 2 := by decide
    have same : stored frame = (frame.instructions, none) := by simp [stored, repeats]
    rw [same]
    apply Reads.of_eq ((Reads.word frame.instructions).bind
      ((Reads.number fits).bind (Reads.pure (frame.instructions, none))))
    simp
  next own =>
    split at written
    next short =>
      obtain rfl := Except.ok.inj written
      have fits : frame.input.size < capacity 2 := Nat.lt_trans short (by decide)
      have readsInput :
          (if frame.input.size = Frame.repeatMark then pure (frame.instructions, none)
          else do
            return (frame.instructions,
              some (← Scan.within "frame input" (Scan.take frame.input.size)))).Reads
          frame.input.toList (stored frame) := by
        simp only [stored, own, Nat.ne_of_lt short, if_false]
        exact ((Reads.take frame.input).within _).last _
      apply Reads.of_eq ((Reads.word frame.instructions).bind ((Reads.number fits).bind readsInput))
      simp
    next => cases written

/-- What a file holds of a frame, behind the frames that it follows, is the frame. -/
theorem frameOf_stored {before : List Frame} {frame : Frame}
    (follows : frame.Follows before)
    (index : Nat) :
    frameOf index ((Frame.lastOwn? before).map Frame.count) (stored frame).1 (stored frame).2 =
      .ok frame := by
  obtain ⟨instructions, count, repeats, input⟩ := frame
  cases repeats with
  | true =>
      obtain ⟨rfl, last, found, rfl⟩ := follows
      simp [stored, found, frameOf, Frame.repetition]
  | false =>
      obtain ⟨counted, fits⟩ := follows
      have same : UInt16.ofNat input.size = count := by
        rw [← counted, UInt16.ofNat_toNat]
      simp [stored, frameOf, Frame.ofInput, fits, same]

/-- Whatever a file holds of a frame, what is read can stand behind the frames read
before. -/
theorem frameOf_follows {before : List Frame} {index : Nat} {instructions : UInt16}
    {input : Option Octets} {frame : Frame}
    (read : frameOf index ((Frame.lastOwn? before).map Frame.count) instructions input =
      .ok frame) :
    frame.Follows before := by
  cases input with
  | some input => exact Frame.ofInput_follows read before
  | none =>
      cases found : Frame.lastOwn? before with
      | none =>
          rw [found] at read
          cases read
      | some last =>
          rw [found] at read
          obtain rfl := Except.ok.inj read
          exact Frame.repetition_follows found instructions

/-- The frames of a block are read back behind those that were read already. -/
theorem framesFrom_flatten (data : Octets) {frames : List Frame}
    {pieces : List (List UInt8)}
    (each : List.Forall₂ scanFrame.Reads pieces (frames.map stored)) (before : List Frame)
    (wellFormed : ∀ front frame back,
      before ++ frames = front ++ frame :: back → frame.Follows front) :
    framesFrom data frames.length pieces.flatten ((Frame.lastOwn? before).map Frame.count)
      before.toArray = .ok ((before ++ frames).toArray, []) := by
  -- What a repetition counts is said by the frames in front of it, so these are
  -- general.
  induction frames generalizing pieces before with
  | nil =>
      obtain rfl := List.forall₂_nil_right_iff.mp each
      simp [framesFrom]
  | cons frame frames ih =>
      obtain ⟨piece, pieces, reads, others, rfl⟩ := List.forall₂_cons_right_iff.mp each
      have follows := wellFormed before frame frames rfl
      have tail := ih others (before ++ [frame]) (by simpa using wellFormed)
      rw [follows.count_lastOwn?] at tail
      rw [List.length_cons, framesFrom, List.flatten_cons, reads pieces.flatten]
      simpa [frameOf_stored follows] using tail

/-- Frames that are read make a well formed block. -/
theorem wellFormed_framesFrom {data : Octets} {tstates : UInt32} (count : Nat)
    {ahead rest : List UInt8} {before frames : Array Frame}
    (wellFormed : ({ tstates, frames := before } : InputBlock).WellFormed)
    (read : framesFrom data count ahead ((Frame.lastOwn? before.toList).map Frame.count) before =
      .ok (frames, rest)) :
    ({ tstates, frames } : InputBlock).WellFormed := by
  induction count generalizing ahead before with
  | zero =>
      obtain ⟨rfl, rfl⟩ := Prod.mk.inj (Except.ok.inj read)
      exact wellFormed
  | succ count ih =>
      rw [framesFrom] at read
      split at read
      next => cases read
      next instructions input left _ =>
        split at read
        next => cases read
        next frame made =>
          have follows := frameOf_follows made
          apply @ih left _ (wellFormed.push follows)
          rw [Array.toList_push, follows.count_lastOwn?]
          exact read

theorem fills_scanInput {count : Nat} {tstates flags : UInt32} {payload : Octets}
    (few : count < UInt32.size) :
    scanInput.Fills
      ((encode 4 count ++ [0]).toArray ++ encodeWords [tstates, flags] ++ payload).toList
      { count, tstates, flags, payload } := by
  have fits : count < capacity 4 := few
  apply Fills.of_eq (Fills.bind (Reads.number fits) <| Fills.bind (Reads.byte 0) <|
    Fills.bind (reads_scanWord tstates) <| Fills.bind (reads_scanWord flags) <|
    (Fills.rest payload).last _)
  simp

/-- What is written of a block of input is a record whose body is read as the block. -/
theorem block_encodeInput {packer : Packer} (restores : packer.Restores) {compress : Bool}
    {block : InputBlock} {octets : Octets} (wellFormed : block.WellFormed)
    (written : encodeInput packer compress block = .ok octets) :
    ∃ body found, Record.Fits ⟨RecordKind.input.toByte, body⟩ ∧
      octets.toList = Record.octets ⟨RecordKind.input.toByte, body⟩ ∧
      scanBody .input scanInput body = .ok found ∧
      (found.block packer).result = .ok block := by
  obtain ⟨frames, writtenFrames, writtenRecord⟩ := bind_ok.mp written
  rw [encodeFrames, ← Array.foldlM_toList] at writtenFrames
  obtain ⟨pieces, each, whole⟩ := appendAll_ok.mp writtenFrames
  have readFrames : framesFrom frames block.frames.size frames.toList none #[] =
      .ok (block.frames, []) := by
    have read := framesFrom_flatten frames (scanFrame_undoes.pieces each) [] wellFormed
    simpa [whole] using read
  split at writtenRecord
  next few =>
    obtain ⟨fits, same⟩ := encodeRecord_ok.mp writtenRecord
    refine ⟨_, _, fits, same, scanBody_ok (fills_scanInput few), ?_⟩
    rcases pack?_cases packer compress frames with plain | ⟨packed, -⟩
    · simp [InputBody.block, plain, readFrames]
    · simp [InputBody.block, packed, restores.unsized, readFrames]
  next => cases writtenRecord

/-! ## Sizes -/

theorem encodeRecord_le {kind : RecordKind} {body other octets : Octets}
    (smaller : other.size ≤ body.size) (written : encodeRecord kind body = .ok octets) :
    ∃ record, encodeRecord kind other = .ok record ∧ record.size ≤ octets.size := by
  obtain ⟨fits, same⟩ := encodeRecord_ok.mp written
  have least : Record.Fits ⟨kind.toByte, other⟩ := by
    unfold Record.Fits at fits ⊢
    dsimp only at fits ⊢
    omega
  refine ⟨(Record.octets ⟨kind.toByte, other⟩).toArray,
    encodeRecord_ok.mpr ⟨least, List.toList_toArray⟩, ?_⟩
  have size := congrArg List.length same
  rw [Array.length_toList, Record.length_octets] at size
  rw [List.size_toArray, Record.length_octets, size]
  exact Nat.add_le_add_right smaller recordHeadSize

/-- A part that can be written can be written packed, and is not larger then. -/
theorem encodePart_packed {packer : Packer} {part : Part} {plain : Octets}
    (written : encodePart packer false part = .ok plain) :
    ∃ packed, encodePart packer true part = .ok packed ∧ packed.size ≤ plain.size := by
  cases part with
  | signature info => exact ⟨plain, written, Nat.le_refl _⟩
  | snapshot snapshot =>
      simp only [encodePart, encodeSnapshot] at written ⊢
      split at written
      next short =>
        rw [if_pos short]
        refine encodeRecord_le ?_ written
        cases snapshot.external with
        | true => exact Nat.le_refl _
        | false => simpa [← Array.length_toList] using size_pack?_le packer true snapshot.data
      next => cases written
  | input block =>
      obtain ⟨frames, writtenFrames, writtenRecord⟩ := bind_ok.mp written
      split at writtenRecord
      next few =>
        simp only [encodePart, encodeInput, writtenFrames, few, if_true]
        refine encodeRecord_le ?_ writtenRecord
        simpa using size_pack?_le packer true frames
      next => cases writtenRecord

end ZxMedia.Recording
