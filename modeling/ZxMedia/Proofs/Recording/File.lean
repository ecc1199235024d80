import ZxMedia.Proofs.Packing.Zlib
import ZxMedia.Proofs.Recording.Pieces

/-!
# Recording files are read back

A recording that was written without a signature is read back with its program and all
its parts but the signatures it had, whatever was packed. Packing never makes the file
larger. The blocks of input of any file that can be read are well formed, so a recording
that was read can be written and read again.
-/

namespace ZxMedia.Recording

open Packing (Packer)
open Scan (Reads)

/-! ## Records of parts -/

theorem toList_encodeHeader (signed : Bool) :
    (encodeHeader signed).toList =
      Header.octets ⟨majorVersion, minorVersion, if signed then signedFlag else 0⟩ := by
  simp [encodeHeader, Header.octets]

/-- What a record does to a recording that is read, wherever in the file it stands. -/
def Does (packer : Packer) (record : Record) (change : Draft → Draft) : Prop :=
  ∀ (draft : Draft) (place : Nat), (draft.add packer place record).result = .ok (change draft)

/-- Records that put parts at the end of a recording put all of them there. -/
theorem addRecords_push {packer : Packer} {records : List Record} {parts : List Part}
    (each : List.Forall₂ (fun record part => Does packer record (·.push part)) records parts)
    (place : Nat) (draft : Draft) (idle : draft.recording.recording = none) :
    Draft.addRecords packer place records draft =
      .ok { draft with
        recording := { draft.recording with parts := draft.recording.parts ++ parts } } := by
  induction each generalizing place draft with
  | nil => simp [Draft.addRecords]
  | cons first others ih =>
      rw [Draft.addRecords, first draft place, ok_bind, ih _ (draft.push _) rfl]
      simp [Draft.push, pushPart, idle]

/-! ## Writing parts -/

/-- A part that a file can hold as it is. -/
def Part.WellFormed : Part → Prop
  | .input block => block.WellFormed
  | .snapshot content => FitsField extensionSize content.extension
  | .signature _ => True

/-- Whether a part is no signature. -/
def Part.isUnsigned (part : Part) : Bool :=
  part.signature?.isNone

/-- The records of parts stand behind each other in a file. -/
theorem writeParts_eq (packer : Packer) (compress : Bool) (parts : List Part)
    (written : Octets)
    (notices : Array Notice) :
    (writeParts packer compress parts written notices).result =
      parts.foldlM (fun written part => do return written ++ (← encodePart packer compress part))
        written := by
  induction parts generalizing written notices with
  | nil => rfl
  | cons part parts ih =>
      rw [writeParts, List.foldlM_cons]
      cases encodePart packer compress part with
      | error error => rfl
      | ok record => exact ih _ _

theorem write_ok {packer : Packer} {recording : Recording} {options : WriteOptions}
    {file : Octets}
    (unsigned : options.signer = none) :
    (recording.write options packer).result = .ok file ↔
      ∃ front,
        encodeRecord .creator (encodeCreator (options.creator.getD recording.creator)) =
          .ok front ∧
        recording.parts.toList.foldlM
          (fun written part => do return written ++ (← encodePart packer options.compress part))
          (encodeHeader false ++ front) = .ok file := by
  unfold write encodeFront
  rw [unsigned]
  dsimp only
  cases encodeRecord .creator (encodeCreator (options.creator.getD recording.creator)) with
  | error error =>
      constructor
      · intro failed
        cases failed
      · rintro ⟨_, ⟨⟩, -⟩
  | ok front =>
      constructor
      · intro written
        exact ⟨front, rfl, (writeParts_eq _ _ _ _ _).symm.trans written⟩
      · rintro ⟨_, ⟨⟩, written⟩
        exact (writeParts_eq _ _ _ _ _).trans written

theorem does_creator (packer : Packer) {creator : Creator}
    (fits : FitsField nameSize creator.name) :
    Does packer ⟨RecordKind.creator.toByte, encodeCreator creator⟩ fun draft =>
      { draft with recording := { draft.recording with creator } } := by
  intro draft place
  simp only [Draft.add, RecordKind.ofByte?_toByte, Draft.addKnown,
    scanBody_ok (fills_scanCreator fits)]
  rfl

/-- What is written of a part is a record that puts the part at the end of a
recording. -/
theorem does_encodePart {packer : Packer} (restores : packer.Restores) {compress : Bool}
    {part : Part} {octets : Octets} (wellFormed : part.WellFormed)
    (unsigned : part.isUnsigned = true)
    (written : encodePart packer compress part = .ok octets) :
    ∃ record : Record, record.Fits ∧ octets.toList = record.octets ∧
      Does packer record (·.push part) := by
  cases part with
  | signature info => cases unsigned
  | snapshot snapshot =>
      obtain ⟨body, found, fits, same, scanned, unpacked⟩ :=
        snapshot_encodeSnapshot restores wellFormed written
      refine ⟨_, fits, same, fun draft place => ?_⟩
      simp only [Draft.add, RecordKind.ofByte?_toByte, Draft.addKnown, scanned]
      change (found.snapshot packer).bind _ = _
      rw [unpacked]
      rfl
  | input block =>
      obtain ⟨body, found, fits, same, scanned, unpacked⟩ :=
        block_encodeInput restores wellFormed written
      refine ⟨_, fits, same, fun draft place => ?_⟩
      simp only [Draft.add, RecordKind.ofByte?_toByte, Draft.addKnown, scanned, unpacked]
      rfl

/-- The records of well formed parts put all parts but the signatures at the end of a
recording. -/
theorem records_encodePart {packer : Packer} (restores : packer.Restores)
    {compress : Bool}
    {parts : List Part} {pieces : List (List UInt8)}
    (wellFormed : ∀ part ∈ parts, part.WellFormed)
    (each : List.Forall₂ (fun part piece => encodePart packer compress part = .ok piece.toArray)
      parts pieces) :
    ∃ records : List Record, (∀ record ∈ records, record.Fits) ∧
      pieces.flatten = records.flatMap Record.octets ∧
      List.Forall₂ (fun record part => Does packer record (·.push part)) records
        (parts.filter Part.isUnsigned) := by
  induction each with
  | nil => exact ⟨[], List.forall_mem_nil _, rfl, .nil⟩
  | @cons part piece parts pieces written each ih =>
      rw [List.forall_mem_cons] at wellFormed
      obtain ⟨records, fit, whole, doAll⟩ := ih wellFormed.2
      by_cases unsigned : part.isUnsigned = true
      · obtain ⟨record, fits, same, does⟩ :=
          does_encodePart restores wellFormed.1 unsigned written
        refine ⟨record :: records, List.forall_mem_cons.mpr ⟨fits, fit⟩, ?_, ?_⟩
        · rw [List.flatten_cons, List.flatMap_cons, whole, ← same]
        · rw [List.filter_cons_of_pos unsigned]
          exact .cons does doAll
      · cases part with
        | signature info =>
            obtain rfl : piece = [] := by simpa using (Except.ok.inj written).symm
            exact ⟨records, fit, whole, doAll⟩
        | _ => exact absurd rfl unsigned

/-- A recording is read back with the program that was written and all parts but
signatures. -/
theorem read_of_write {packer : Packer} (restores : packer.Restores)
    {recording : Recording}
    {options : WriteOptions} {file : Octets} (unsigned : options.signer = none)
    (wellFormed : ∀ part ∈ recording.parts, part.WellFormed)
    (fits : FitsField nameSize (options.creator.getD recording.creator).name)
    (written : (recording.write options packer).result = .ok file) :
    (read file packer).result = .ok {
      creator := options.creator.getD recording.creator
      parts := recording.parts.filter Part.isUnsigned } := by
  obtain ⟨front, writtenFront, writtenParts⟩ := (write_ok unsigned).mp written
  generalize options.creator.getD recording.creator = creator at *
  obtain ⟨frontFits, frontOctets⟩ := encodeRecord_ok.mp writtenFront
  have does := does_creator packer fits
  generalize (⟨RecordKind.creator.toByte, encodeCreator creator⟩ : Record) = first at *
  obtain ⟨pieces, each, whole⟩ := appendAll_ok.mp writtenParts
  obtain ⟨records, fit, same, doAll⟩ :=
    records_encodePart restores (by simpa using wellFormed) each
  have whole : file.toList = Header.octets ⟨majorVersion, minorVersion, 0⟩ ++
      (first :: records).flatMap Record.octets := by
    rw [whole, Array.toList_append, toList_encodeHeader, List.flatMap_cons,
      ← frontOctets, same, List.append_assoc]
    rfl
  have added : Draft.addRecords packer 10 (first :: records) {} =
      .ok { recording := { creator, parts := recording.parts.filter Part.isUnsigned } } := by
    have solid : recording.parts.filter Part.isUnsigned =
        (recording.parts.toList.filter Part.isUnsigned).toArray := by
      rw [← Array.toList_filter, Array.toArray_toList]
    rw [Draft.addRecords, does, ok_bind, addRecords_push doAll _ _ rfl, solid]
    simp
  exact read_of_records _ (UInt8.le_refl majorVersion)
    (List.forall_mem_cons.mpr ⟨frontFits, fit⟩) whole added

theorem frames_lt_of_write {packer : Packer} {recording : Recording}
    {options : WriteOptions}
    {file : Octets} (unsigned : options.signer = none)
    (written : (recording.write options packer).result = .ok file) {block : InputBlock}
    (member : .input block ∈ recording.parts) : block.frames.size < UInt32.size := by
  obtain ⟨front, -, writtenParts⟩ := (write_ok unsigned).mp written
  obtain ⟨record, writtenBlock⟩ := encoded_of_appendAll writtenParts _ member.val
  obtain ⟨frames, -, writtenRecord⟩ := bind_ok.mp writtenBlock
  split at writtenRecord
  next few => exact few
  next => cases writtenRecord

theorem foldlM_packed {packer : Packer} {parts : List Part} {before other file : Octets}
    (smaller : other.size ≤ before.size)
    (written : parts.foldlM (fun written part => do
      return written ++ (← encodePart packer false part)) before = .ok file) :
    ∃ packed, parts.foldlM (fun written part => do
      return written ++ (← encodePart packer true part)) other = .ok packed ∧
        packed.size ≤ file.size := by
  induction parts generalizing before other with
  | nil =>
      obtain rfl := Except.ok.inj written
      exact ⟨other, rfl, smaller⟩
  | cons part parts ih =>
      simp only [List.foldlM_cons, bind_ok, pure_ok] at written ⊢
      obtain ⟨_, ⟨plain, writtenPart, rfl⟩, writtenParts⟩ := written
      obtain ⟨record, packedPart, least⟩ := encodePart_packed writtenPart
      have least : (other ++ record).size ≤ (before ++ plain).size := by
        simp only [Array.size_append]
        omega
      obtain ⟨packed, packedParts, bound⟩ := ih least writtenParts
      exact ⟨packed, ⟨_, ⟨record, packedPart, rfl⟩, packedParts⟩, bound⟩

/-- A recording that can be written can be written packed, and the file is not larger
then. -/
theorem write_packed {packer : Packer} {recording : Recording} {options : WriteOptions}
    {plain : Octets} (unsigned : options.signer = none)
    (written : (recording.write { options with compress := false } packer).result = .ok plain) :
    ∃ packed, (recording.write { options with compress := true } packer).result =
      .ok packed ∧
      packed.size ≤ plain.size := by
  have plainUnsigned : { options with compress := false }.signer = none := unsigned
  have packedUnsigned : { options with compress := true }.signer = none := unsigned
  obtain ⟨front, writtenFront, writtenParts⟩ := (write_ok plainUnsigned).mp written
  obtain ⟨packed, packedParts, bound⟩ := foldlM_packed (Nat.le_refl _) writtenParts
  exact ⟨packed, (write_ok packedUnsigned).mpr ⟨front, writtenFront, packedParts⟩, bound⟩

/-! ## Recordings that are read -/

/-- All blocks of input are well formed. -/
def InputsWellFormed (recording : Recording) : Prop :=
  ∀ block, .input block ∈ recording.parts → block.WellFormed

theorem InputsWellFormed.pushPart {recording : Recording}
    (inputs : recording.InputsWellFormed)
    {part : Part} (wellFormed : ∀ block, part = .input block → block.WellFormed) :
    (recording.pushPart part).InputsWellFormed := by
  intro block member
  rcases Array.mem_push.mp member with earlier | rfl
  · exact inputs block earlier
  · exact wellFormed block rfl

/-- A body is read as a well formed block, if it is read at all. -/
theorem wellFormed_block {packer : Packer} {body : InputBody} {block : InputBlock}
    (read : (body.block packer).result = .ok block) : block.WellFormed := by
  unfold InputBody.block at read
  dsimp only at read
  split at read
  next => cases read
  next data _ =>
    split at read
    next => cases read
    next frames rest found =>
      obtain rfl := Except.ok.inj read
      exact wellFormed_framesFrom body.count (InputBlock.wellFormed_empty body.tstates) found

theorem InputsWellFormed.adds {packer : Packer} {draft next : Draft} {place : Nat}
    {record : Record}
    (inputs : draft.recording.InputsWellFormed)
    (adds : draft.Adds packer place record next) :
    next.recording.InputsWellFormed := by
  cases adds with
  | creator | signatureStart | unknown => exact inputs
  | signatureEnd | snapshot => exact inputs.pushPart nofun
  | input kind read unpacked =>
      apply inputs.pushPart
      intro other same
      obtain rfl := Part.input.inj same
      exact wellFormed_block unpacked

theorem InputsWellFormed.addRecords {packer : Packer} {records : List Record}
    {place : Nat}
    {draft final : Draft} (inputs : draft.recording.InputsWellFormed)
    (added : Draft.addRecords packer place records draft = .ok final) :
    final.recording.InputsWellFormed := by
  induction records generalizing place draft with
  | nil =>
      obtain rfl := Except.ok.inj added
      exact inputs
  | cons record records ih =>
      obtain ⟨next, first, others⟩ := bind_ok.mp added
      exact ih (inputs.adds (Draft.add_ok first)) others

/-- All blocks of input of a recording that is read are well formed. -/
theorem inputsWellFormed_read {packer : Packer} {file : Octets} {recording : Recording}
    (answered : (read file packer).result = .ok recording) :
    recording.InputsWellFormed := by
  have none : ({} : Recording).InputsWellFormed := by
    intro block member
    cases member.val
  obtain ⟨_, records, -, -, added⟩ := read_ok_iff_comprises.mp answered
  exact none.addRecords added

/-- What is written without a signature is read back, packed or not; packing never makes
a file larger; and the blocks of input of any recording that is read are well formed. -/
theorem read_write_unsigned {packer : Packer} (restores : packer.Restores) :
    (∀ (recording : Recording) (options : WriteOptions) (file : Octets), options.signer = none →
      (∀ part ∈ recording.parts, part.WellFormed) →
      FitsField nameSize (options.creator.getD recording.creator).name →
      (recording.write options packer).result = .ok file →
      (read file packer).result = .ok {
        creator := options.creator.getD recording.creator
        parts := recording.parts.filter Part.isUnsigned }) ∧
    (∀ (recording : Recording) (options : WriteOptions) (plain : Octets), options.signer = none →
      (recording.write { options with compress := false } packer).result = .ok plain →
      ∃ packed, (recording.write { options with compress := true } packer).result = .ok packed ∧
        packed.size ≤ plain.size) ∧
    ∀ (file : Octets) (recording : Recording),
      (read file packer).result = .ok recording → recording.InputsWellFormed := by
  constructor
  · intro recording options file unsigned wellFormed fits written
    exact read_of_write restores unsigned wellFormed fits written
  constructor
  · intro recording options plain unsigned written
    exact write_packed unsigned written
  · intro file recording answered
    exact inputsWellFormed_read answered

/-- A recording with a repetition, a snapshot that can be packed, one in another file,
and a signature that it was read with. -/
def tour : Recording where
  parts := #[
    .snapshot { extension := "z80", external := false, data := Array.replicate 40 7 },
    .input { tstates := 69, frames := #[⟨1, 2, false, #[1, 2]⟩, ⟨3, 2, true, #[]⟩] },
    .snapshot { extension := "sna", external := true, data := #[1] },
    .signature { keyId := 1, week := 2, signature := #[], signedSize := 10 }]

theorem tour_wellFormed : ∀ part ∈ tour.parts, part.WellFormed := by
  have own : (⟨1, 2, false, #[1, 2]⟩ : Frame).Follows [] := ⟨rfl, by decide⟩
  have repeated : (⟨3, 2, true, #[]⟩ : Frame).Follows [⟨1, 2, false, #[1, 2]⟩] :=
    ⟨rfl, _, rfl, rfl⟩
  have frames := ((InputBlock.wellFormed_empty 69).push own).push repeated
  have z80 : FitsField extensionSize "z80" := by decide
  have sna : FitsField extensionSize "sna" := by decide
  have each : ∀ part ∈ tour.parts.toList, part.WellFormed := by
    simp only [tour, List.forall_mem_cons]
    exact ⟨z80, frames, sna, trivial, List.forall_mem_nil _⟩
  simpa using each

theorem read_write_unsigned_tour :
    ∃ plain packed, (tour.write { compress := false }).result = .ok plain ∧
      (tour.write { compress := true }).result = .ok packed ∧ packed.size ≤ plain.size ∧
      (read plain).result = .ok { parts := tour.parts.take 3 } ∧
      (read packed).result = .ok { parts := tour.parts.take 3 } ∧
      ({ parts := tour.parts.take 3 } : Recording).InputsWellFormed := by
  obtain ⟨readBack, smaller, inputs⟩ := read_write_unsigned Packing.Zlib.packer_restores
  have wellFormed := tour_wellFormed
  have fits : FitsField nameSize tour.creator.name := by decide
  have isWritten :
      (tour.write { compress := false }).result.toBool = true := by decide +kernel
  cases written : (tour.write { compress := false }).result with
  | error error =>
      rw [written] at isWritten
      cases isWritten
  | ok plain =>
      obtain ⟨packed, writtenPacked, least⟩ :=
        smaller tour { compress := false } plain rfl written
      have back := readBack tour { compress := false } plain rfl wellFormed fits written
      have unpacked :=
        readBack tour { compress := true } packed rfl wellFormed fits writtenPacked
      exact ⟨plain, packed, rfl, writtenPacked, least, back, unpacked,
        inputs plain _ back⟩

end ZxMedia.Recording
