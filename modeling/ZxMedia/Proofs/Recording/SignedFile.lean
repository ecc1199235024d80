import ZxMedia.Proofs.Recording.SignedPart
import ZxMedia.Proofs.Signing.Dsa

/-!
# Signed files are verified

A recording that is written and signed is verified when it is read: the octets that the
signature is verified of are the ones that it was made of, since both are all that
stands in front of the record that ends the signature. Signatures that the recording was
read with are left out, and the new one is the last part.
-/

namespace ZxMedia.Recording

open Packing (Packer)
open Scan (Fills)

theorem fills_scanSignatureStart (keyId week : UInt32) :
    scanSignatureStart.Fills (encodeWords [keyId, week]).toList (keyId, week) := by
  refine .of_eq (.bind (reads_scanWord keyId) ((reads_scanWord week).last _).fills) ?_
  simp

theorem does_signatureStart (packer : Packer) (keyId week : UInt32) :
    Does packer ⟨RecordKind.signatureStart.toByte, encodeWords [keyId, week]⟩ fun draft =>
      { draft with opened := some (keyId, week) } := by
  intro draft place
  simp only [Draft.add, RecordKind.ofByte?_toByte, Draft.addKnown,
    scanBody_ok (fills_scanSignatureStart keyId week)]
  rfl

theorem add_signatureEnd (packer : Packer) {draft : Draft} {keyId week : UInt32}
    (opened : draft.opened = some (keyId, week)) (place : Nat) (body : Octets) :
    (draft.add packer place ⟨RecordKind.signatureEnd.toByte, body⟩).result =
      .ok { draft.push (.signature ⟨keyId, week, body, place⟩) with opened := none } := by
  simp only [Draft.add, RecordKind.ofByte?_toByte, Draft.addKnown, opened]

/-- The record of a program that is written. -/
def creatorRecord (creator : Creator) : Record :=
  ⟨RecordKind.creator.toByte, encodeCreator creator⟩

/-- The record of the start of a signature. -/
def signatureStartRecord (signer : Signer) : Record :=
  ⟨RecordKind.signatureStart.toByte, encodeWords [signer.keyId, signer.week]⟩

/-- In front of the parts of a signed file there are its program and the start of the
signature. -/
theorem encodeFront_signed {creator : Creator} {signer : Signer} {front : Octets}
    (written : encodeFront creator (some signer) = .ok front) :
    (∀ record ∈ [creatorRecord creator, signatureStartRecord signer], record.Fits) ∧
      front.toList = Header.octets ⟨majorVersion, minorVersion, signedFlag⟩ ++
        [creatorRecord creator, signatureStartRecord signer].flatMap Record.octets := by
  simp only [encodeFront, bind_ok, pure_ok, encodeRecord_ok] at written
  obtain ⟨program, ⟨programFits, program_eq⟩, start, ⟨startFits, start_eq⟩, rfl⟩ :=
    written
  refine ⟨List.forall_mem_cons.mpr ⟨programFits, List.forall_mem_singleton.mpr startFits⟩, ?_⟩
  rw [Array.toList_append, Array.toList_append, toList_encodeHeader, program_eq, start_eq]
  simp [creatorRecord, signatureStartRecord]

/-- A recording is written and signed in three steps. -/
theorem write_signed_ok {packer : Packer} {scheme : Signing.Scheme}
    {recording : Recording}
    {options : WriteOptions} {signer : Signer} {file : Octets}
    (signs : options.signer = some signer) :
    (recording.write options packer scheme).result = .ok file ↔
      ∃ front signed,
        encodeFront (options.creator.getD recording.creator) (some signer) = .ok front ∧
        (writeParts packer options.compress recording.parts.toList front #[]).result =
          .ok signed ∧
        signFile signed signer scheme = .ok file := by
  unfold write
  rw [signs]
  dsimp only
  cases encodeFront (options.creator.getD recording.creator) (some signer) with
  | error error =>
      constructor
      · intro failed
        cases failed
      · rintro ⟨_, _, ⟨⟩, -⟩
  | ok front =>
      simp only [writeParts_eq]
      constructor
      · intro written
        obtain ⟨signed, parts, signs⟩ := bind_ok.mp written
        exact ⟨front, signed, rfl, parts, signs⟩
      · rintro ⟨_, signed, ⟨⟩, parts, signs⟩
        exact bind_ok.mpr ⟨signed, parts, signs⟩

theorem signFile_ok {scheme : Signing.Scheme} {signed file : Octets} {signer : Signer} :
    signFile signed signer scheme = .ok file ↔
      ∃ signature, Signing.sign signed signer.key scheme = .ok signature ∧
        Record.Fits ⟨RecordKind.signatureEnd.toByte, signature⟩ ∧
        file.toList = signed.toList ++
          Record.octets ⟨RecordKind.signatureEnd.toByte, signature⟩ := by
  unfold signFile
  simp only [bind_ok, pure_ok, encodeRecord_ok]
  constructor
  · rintro ⟨signature, made, record, ⟨fits, same⟩, rfl⟩
    exact ⟨signature, made, fits, by rw [Array.toList_append, same]⟩
  · rintro ⟨signature, made, fits, same⟩
    refine ⟨signature, made,
      (Record.octets ⟨RecordKind.signatureEnd.toByte, signature⟩).toArray,
      ⟨fits, List.toList_toArray⟩, ?_⟩
    rw [← Array.toList_inj, same]
    simp

/-- The records in front of the end of a signature make a recording and leave the
signature open. -/
theorem addRecords_signed {packer : Packer} {creator : Creator} (signer : Signer)
    (fits : FitsField nameSize creator.name) {records : List Record} {parts : List Part}
    (each : List.Forall₂ (fun record part => Does packer record (·.push part)) records parts) :
    Draft.addRecords packer 10 ([creatorRecord creator, signatureStartRecord signer] ++ records)
      {} = .ok {
        recording := { creator, parts := parts.toArray }
        opened := some (signer.keyId, signer.week) } := by
  have program := does_creator packer fits {} 10
  have start := does_signatureStart packer signer.keyId signer.week
  rw [List.cons_append, List.cons_append, List.nil_append, Draft.addRecords,
    creatorRecord, program,
    ok_bind, Draft.addRecords, signatureStartRecord, start, ok_bind, addRecords_push each _ _ rfl]
  simp

/-- What was written and then signed is read as the parts that are no signatures, with
the new signature behind them. -/
theorem read_signed {packer : Packer} (restores : packer.Restores) {compress : Bool}
    {creator : Creator} {parts : Array Part} {signer : Signer}
    {front signed signature file : Octets}
    (wellFormed : ∀ part ∈ parts, part.WellFormed)
    (fits : FitsField nameSize creator.name)
    (writtenFront : encodeFront creator (some signer) = .ok front)
    (writtenParts : (writeParts packer compress parts.toList front #[]).result = .ok signed)
    (endFits : Record.Fits ⟨RecordKind.signatureEnd.toByte, signature⟩)
    (whole : file.toList = signed.toList ++
      Record.octets ⟨RecordKind.signatureEnd.toByte, signature⟩) :
    (read file packer).result = .ok {
      creator
      parts := (parts.filter Part.isUnsigned).push
        (.signature ⟨signer.keyId, signer.week, signature, signed.size⟩) } := by
  rw [writeParts_eq] at writtenParts
  obtain ⟨frontFit, frontOctets⟩ := encodeFront_signed writtenFront
  obtain ⟨pieces, each, octets⟩ := appendAll_ok.mp writtenParts
  obtain ⟨records, fit, flat, doAll⟩ :=
    records_encodePart restores (by simpa using wellFormed) each
  have content := addRecords_signed signer fits doAll
  have solid :
      (parts.toList.filter Part.isUnsigned).toArray = parts.filter Part.isUnsigned := by
    rw [← Array.toList_filter, Array.toArray_toList]
  rw [solid] at content
  generalize [creatorRecord creator, signatureStartRecord signer] = first at *
  rw [flat, frontOctets, List.append_assoc, ← List.flatMap_append] at octets
  have size : signed.size = 10 + ((first ++ records).flatMap Record.octets).length := by
    rw [← Array.length_toList, octets, List.length_append, Header.length_octets]
  have added : Draft.addRecords packer 10
      (first ++ records ++ [⟨RecordKind.signatureEnd.toByte, signature⟩]) {} = .ok {
        recording := {
          creator
          parts := (parts.filter Part.isUnsigned).push
            (.signature ⟨signer.keyId, signer.week, signature, signed.size⟩) } } := by
    rw [Draft.addRecords_append, content, ok_bind, Draft.addRecords, ← size,
      add_signatureEnd packer rfl]
    rfl
  have records_fit : ∀ record ∈ first ++ records ++
      [⟨RecordKind.signatureEnd.toByte, signature⟩], record.Fits := by
    simp only [List.forall_mem_append, List.forall_mem_singleton]
    exact ⟨⟨frontFit, fit⟩, endFits⟩
  refine read_of_records ⟨majorVersion, minorVersion, signedFlag⟩ (UInt8.le_refl majorVersion)
    records_fit ?_ added
  rw [whole, octets, @List.flatMap_append _ _ (first ++ records), List.append_assoc]
  simp

/-- A recording that is written and signed is read and verified: as the program that was
written, all parts but the signatures there were, and the new signature. It was made of
the octets in front of its record, and it is verified of the same octets. -/
theorem readVerified_write {packer : Packer} (restores : packer.Restores)
    {scheme : Signing.Scheme} {recording : Recording} {options : WriteOptions}
    {signer : Signer}
    {file : Octets} (signs : options.signer = some signer)
    (proper : ∀ message signature, Signing.sign message signer.key scheme = .ok signature →
      Signing.verify signature message signer.key.publicKey scheme = .ok ())
    (wellFormed : ∀ part ∈ recording.parts, part.WellFormed)
    (fits : FitsField nameSize (options.creator.getD recording.creator).name)
    (written : (recording.write options packer scheme).result = .ok file) :
    ∃ front signed signature info again,
      encodeFront (options.creator.getD recording.creator) (some signer) = .ok front ∧
      (writeParts packer options.compress recording.parts.toList front #[]).result =
        .ok signed ∧
      Signing.sign signed signer.key scheme = .ok signature ∧
      info = { keyId := signer.keyId, week := signer.week, signature, signedSize := signed.size } ∧
      file.extract 0 info.signedSize = signed ∧
      (readVerified file signer.key.publicKey packer scheme).result = .ok again ∧
      again.signInfo? = some info ∧ again.signedBy? = some signer.keyId ∧
      again.creator = options.creator.getD recording.creator ∧
      again.parts = (recording.parts.filter Part.isUnsigned).push (.signature info) := by
  obtain ⟨front, signed, writtenFront, writtenParts, ended⟩ :=
    (write_signed_ok signs).mp written
  obtain ⟨signature, made, endFits, whole⟩ := signFile_ok.mp ended
  generalize options.creator.getD recording.creator = creator at *
  have covered : file.extract 0 signed.size = signed := by
    rw [← Array.toList_inj]
    exact toList_extract_front whole Array.length_toList.symm
  have answered :=
    read_signed restores wellFormed fits writtenFront writtenParts endFits whole
  have unsigned : ({ creator, parts := recording.parts.filter Part.isUnsigned } :
      Recording).signInfo? = none := by
    simp [signInfo?, List.findSome?_eq_none_iff, Part.isUnsigned]
  have found : Recording.signInfo? {
      creator
      parts := (recording.parts.filter Part.isUnsigned).push
        (.signature ⟨signer.keyId, signer.week, signature, signed.size⟩) } =
      some ⟨signer.keyId, signer.week, signature, signed.size⟩ := signInfo?_push unsigned _
  refine ⟨front, signed, signature, _, _, writtenFront, writtenParts, made, rfl, covered,
    readVerified_ok_iff.mpr ⟨answered, ?_⟩, found, ?_, rfl, rfl⟩
  · unfold verify
    rw [found]
    dsimp only
    rw [covered]
    exact proper signed signature made
  · rw [signedBy?, found]
    rfl

/-- The private key of a small key. -/
def smallPrivateKey : Signing.PrivateKey where
  publicKey := smallKey
  x := 135
  x_pos := by decide
  x_le_q := by decide

theorem smallPrivateKey_proper : smallPrivateKey.Proper where
  prime := by
    change Nat.Prime 239
    norm_num
  order := by decide +kernel
  value := by decide +kernel

def smallSigner : Signer :=
  { keyId := 7, key := smallPrivateKey, week := 2800 }

theorem readVerified_write_tour :
    ∃ file info again,
      (tour.write { compress := false, signer := some smallSigner }).result = .ok file ∧
      (readVerified file smallKey).result = .ok again ∧ again.signInfo? = some info ∧
      again.signedBy? = some 7 ∧
      again.parts = (tour.parts.take 3).push (.signature info) := by
  have isWritten :
      (tour.write { compress := false, signer := some smallSigner }).result.toBool =
      true := by
    decide +kernel
  have fits : FitsField nameSize tour.creator.name := by decide
  have solid : tour.parts.filter Part.isUnsigned = tour.parts.take 3 := by decide
  generalize options_eq :
    ({ compress := false, signer := some smallSigner } : WriteOptions) = options at *
  have signs : options.signer = some smallSigner := by rw [← options_eq]
  have creator : options.creator = none := by rw [← options_eq]
  cases written : (tour.write options).result with
  | error error =>
      rw [written] at isWritten
      cases isWritten
  | ok file =>
      obtain ⟨-, -, -, info, again, -, -, -, -, -, answered, signed, signedBy, -, parts⟩ :=
        readVerified_write Packing.Zlib.packer_restores signs
          (fun _ _ made => smallPrivateKey_proper.verify_sign made) tour_wellFormed
          (by rw [creator]; exact fits) written
      rw [solid] at parts
      exact ⟨file, info, again, rfl, answered, signed, signedBy, parts⟩

end ZxMedia.Recording
