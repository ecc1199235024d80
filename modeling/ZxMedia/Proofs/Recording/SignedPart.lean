import ZxMedia.Proofs.Recording.File

/-!
# What a signature covers

The signature that is verified is the first one of a file, and it is one of all octets
in front of the record that ends it. These octets alone tell which parts stand in front
of the signature in any file that begins like this and is verified, and they tell the
program unless it is named again.

Behind the signature a verified file can go on, and what its records put at the end of
the recording is not covered by any signature. `readVerified_takes_more` is such a file.
-/

namespace ZxMedia.Recording

open Packing (Packer)

theorem toList_extract_front {file : Octets} {front back : List UInt8} {size : Nat}
    (whole : file.toList = front ++ back) (length : size = front.length) :
    (file.extract 0 size).toList = front := by
  rw [Array.toList_extract, whole, length]
  simp

theorem toList_extract_back (file : Octets) (size : Nat) :
    (file.extract size).toList = file.toList.drop size := by
  rw [Array.toList_extract, List.extract_eq_take_drop]
  exact List.take_of_length_le (by simp)

theorem toList_extract_append (file : Octets) (size : Nat) :
    (file.extract 0 size).toList ++ (file.extract size).toList = file.toList := by
  rw [toList_extract_back, Array.toList_extract, List.extract_eq_take_drop]
  exact List.take_append_drop size file.toList

theorem readVerified_ok_iff {packer : Packer} {scheme : Signing.Scheme} {file : Octets}
    {key : Signing.PublicKey} {recording : Recording} :
    (readVerified file key packer scheme).result = .ok recording ↔
      (read file packer).result = .ok recording ∧
      recording.verify file key scheme = .ok () := by
  unfold readVerified
  constructor
  · intro verified
    obtain ⟨found, answered, rest⟩ := bind_ok.mp verified
    obtain ⟨_, holds, same⟩ := bind_ok.mp rest
    obtain rfl := pure_ok.mp same
    exact ⟨answered, holds⟩
  · rintro ⟨answered, holds⟩
    exact bind_ok.mpr ⟨recording, answered, bind_ok.mpr ⟨(), holds, rfl⟩⟩

/-! ## The first signature -/

/-- Parts at the end of a recording do not change its first signature. -/
theorem signInfo?_of_isPrefix {recording longer : Recording} {info : SignInfo}
    (longest : recording.parts.toList <+: longer.parts.toList)
    (signed : recording.signInfo? = some info) : longer.signInfo? = some info := by
  obtain ⟨added, same⟩ := longest
  unfold signInfo? at signed ⊢
  rw [← same, List.findSome?_append, signed]
  rfl

theorem signInfo?_push {recording : Recording} (unsigned : recording.signInfo? = none)
    (part : Part) : (recording.pushPart part).signInfo? = part.signature? := by
  unfold signInfo? at unsigned ⊢
  simp [pushPart, unsigned]

theorem filter_isUnsigned {recording : Recording}
    (unsigned : recording.signInfo? = none) :
    recording.parts.filter Part.isUnsigned = recording.parts := by
  unfold signInfo? at unsigned
  rw [List.findSome?_eq_none_iff] at unsigned
  rw [Array.filter_eq_self]
  intro part member
  simp [Part.isUnsigned, unsigned part member.val]

namespace Draft

variable {packer : Packer} {draft next final : Draft} {place : Nat} {record : Record}
variable {records : List Record} {info : SignInfo}

/-- The first signature is made by a record that ends it, at its place. -/
theorem Adds.signInfo? (adds : draft.Adds packer place record next)
    (unsigned : draft.recording.signInfo? = none)
    (signed : next.recording.signInfo? = some info) :
    next = { draft.push (.signature info) with opened := none } ∧
      record.body = info.signature ∧ info.signedSize = place := by
  cases adds with
  | creator | signatureStart | unknown => cases unsigned.symm.trans signed
  | snapshot | input =>
      rw [push, signInfo?_push unsigned] at signed
      cases signed
  | signatureEnd kind opened =>
      rw [push, signInfo?_push unsigned] at signed
      cases signed
      exact ⟨rfl, rfl, rfl⟩

/-- Records that make a signed recording have one among them that ends the first
signature. -/
theorem exists_signature (added : addRecords packer place records draft = .ok final)
    (unsigned : draft.recording.signInfo? = none)
    (signed : final.recording.signInfo? = some info) :
    ∃ front ending back content, records = front ++ ending :: back ∧
      addRecords packer place front draft = .ok content ∧
      content.recording.signInfo? = none ∧
      info.signedSize = place + (front.flatMap Record.octets).length ∧
      ending.body = info.signature ∧
      (content.add packer info.signedSize ending).result =
        .ok { content.push (.signature info) with opened := none } := by
  induction records generalizing place draft with
  | nil =>
      obtain rfl := Except.ok.inj added
      rw [unsigned] at signed
      cases signed
  | cons record records ih =>
      obtain ⟨next, first, others⟩ := bind_ok.mp added
      cases found : next.recording.signInfo? with
      | none =>
          obtain ⟨front, ending, back, content, rfl, made, bare, size, body, ends⟩ :=
            ih others found
          refine ⟨record :: front, ending, back, content, rfl, ?_, bare, ?_, body, ends⟩
          · exact bind_ok.mpr ⟨next, first, made⟩
          · rw [size, List.flatMap_cons, List.length_append, Nat.add_assoc]
      | some other =>
          -- The signature that is found now stays the first one.
          have kept := signInfo?_of_isPrefix (isPrefix_addRecords others) found
          obtain rfl := Option.some.inj (signed.symm.trans kept)
          obtain ⟨rfl, body, size⟩ := (add_ok first).signInfo? unsigned found
          exact ⟨[], record, records, draft, rfl, rfl, unsigned, size, body, size ▸ first⟩

end Draft

/-! ## Records behind a signature -/

/-- Whether a record can change anything of a recording but its signatures. -/
def Record.isContent (record : Record) : Bool :=
  match RecordKind.ofByte? record.id with
  | some .creator | some .snapshot | some .input => true
  | _ => false

namespace Draft

variable {packer : Packer} {draft next final : Draft} {place : Nat} {record : Record}
variable {records : List Record}

theorem Adds.content (adds : draft.Adds packer place record next)
    (bare : record.isContent = false) :
    next.recording.creator = draft.recording.creator ∧
      next.recording.parts.filter Part.isUnsigned =
        draft.recording.parts.filter Part.isUnsigned := by
  cases adds with
  | creator kind | snapshot kind | input kind =>
      simp [Record.isContent, kind] at bare
  | signatureStart | unknown => exact ⟨rfl, rfl⟩
  | signatureEnd => exact ⟨rfl, by simp [push, pushPart, Part.isUnsigned, Part.signature?]⟩

/-- Signatures and unknown records change nothing but the signatures. -/
theorem content_addRecords (bare : ∀ record ∈ records, record.isContent = false)
    (added : addRecords packer place records draft = .ok final) :
    final.recording.creator = draft.recording.creator ∧
      final.recording.parts.filter Part.isUnsigned =
        draft.recording.parts.filter Part.isUnsigned := by
  induction records generalizing place draft with
  | nil =>
      obtain rfl := Except.ok.inj added
      exact ⟨rfl, rfl⟩
  | cons record records ih =>
      rw [List.forall_mem_cons] at bare
      obtain ⟨next, first, others⟩ := bind_ok.mp added
      obtain ⟨creator, parts⟩ := ih bare.2 others
      obtain ⟨sameCreator, sameParts⟩ := (add_ok first).content bare.1
      exact ⟨creator.trans sameCreator, parts.trans sameParts⟩

end Draft

/-! ## Verified files -/

/-- A file with a signature begins with a header, the records that are signed, and the
record that ends the signature. -/
theorem signed_octets {packer : Packer} {file : Octets} {draft : Draft} {info : SignInfo}
    (made : draft? packer file = some draft)
    (signed : draft.recording.signInfo? = some info) :
    ∃ header : Header, ∃ front ending content, header.major ≤ majorVersion ∧
      (∀ record ∈ front ++ [ending], record.Fits) ∧
      (file.extract 0 info.signedSize).toList =
        header.octets ++ front.flatMap Record.octets ∧
      (file.extract 0 (info.signedSize + recordHeadSize + info.signature.size)).toList =
        header.octets ++ (front ++ [ending]).flatMap Record.octets ∧
      Draft.addRecords packer 10 front {} = .ok content ∧
      content.recording.signInfo? = none ∧
      Draft.addRecords packer 10 (front ++ [ending]) {} =
        .ok { content.push (.signature info) with opened := none } := by
  obtain ⟨header, records, version, fit, whole, added⟩ := draft?_eq_some_iff.mp made
  obtain ⟨front, ending, back, content, rfl, madeContent, unsigned, size, body, ends⟩ :=
    Draft.exists_signature added rfl signed
  rw [List.append_cons] at fit
  have sizeFront :
      info.signedSize = (header.octets ++ front.flatMap Record.octets).length := by
    rw [size, List.length_append, Header.length_octets]
  have sizeBoth : info.signedSize + recordHeadSize + info.signature.size =
      (header.octets ++ (front ++ [ending]).flatMap Record.octets).length := by
    rw [sizeFront, List.flatMap_append, List.flatMap_singleton, List.length_append,
      List.length_append, List.length_append, Record.length_octets, body]
    omega
  refine ⟨header, front, ending, content, version, ?_, ?_, ?_, madeContent, unsigned, ?_⟩
  · intro record member
    exact fit record (List.mem_append_left back member)
  · rw [List.append_cons, List.flatMap_append, List.flatMap_append,
      List.append_assoc] at whole
    rw [← List.append_assoc] at whole
    exact toList_extract_front whole sizeFront
  · rw [List.append_cons, List.flatMap_append, ← List.append_assoc] at whole
    exact toList_extract_front whole sizeBoth
  · rw [Draft.addRecords_append, madeContent, ok_bind, ← size, Draft.addRecords, ends]
    rfl

/-- A signed file that is verified has been signed from its beginning up to the
signature, and what these octets make is the beginning of the recording. The same holds
of every other file that goes on differently behind the signature and is verified as
well: the parts in front of the signature are those that were signed, and if there is
neither a program nor a part among the records behind the signature, then the program
and all parts are. -/
theorem readVerified_signed {packer : Packer} {scheme : Signing.Scheme} {file : Octets}
    {key : Signing.PublicKey} {recording : Recording} {info : SignInfo}
    (verified : (readVerified file key packer scheme).result = .ok recording)
    (signed : recording.signInfo? = some info) :
    Signing.verify info.signature (file.extract 0 info.signedSize) key scheme = .ok () ∧
    ∃ content, draft? packer (file.extract 0 info.signedSize) = some content ∧
      content.recording.signInfo? = none ∧
      ∀ other again,
        other.extract 0 (info.signedSize + recordHeadSize + info.signature.size) =
          file.extract 0 (info.signedSize + recordHeadSize + info.signature.size) →
        (readVerified other key packer scheme).result = .ok again →
        again.signInfo? = some info ∧
        (∃ added, again.parts = content.recording.parts.push (.signature info) ++ added) ∧
        ∃ later : List Record, (∀ record ∈ later, record.Fits) ∧
          (other.extract (info.signedSize + recordHeadSize + info.signature.size)).toList =
            later.flatMap Record.octets ∧
          ((∀ record ∈ later, record.isContent = false) →
            again.creator = content.recording.creator ∧
            again.parts.filter Part.isUnsigned = content.recording.parts) := by
  obtain ⟨answered, holds⟩ := readVerified_ok_iff.mp verified
  obtain ⟨draft, made, -, rfl⟩ := read_ok_iff.mp answered
  obtain ⟨header, front, ending, content, version, fit, part, ended, madeContent, unsigned, ends⟩ :=
    signed_octets made signed
  refine ⟨?_, content, ?_, unsigned, ?_⟩
  · unfold Recording.verify at holds
    rwa [signed] at holds
  · rw [draft?_eq_some_iff]
    exact ⟨header, front, version,
      fun record member => fit record (List.mem_append_left _ member),
      part, madeContent⟩
  · generalize info.signedSize + recordHeadSize + info.signature.size = stop at *
    intro other again same verifiedAgain
    obtain ⟨answeredAgain, -⟩ := readVerified_ok_iff.mp verifiedAgain
    obtain ⟨draft, madeAgain, -, rfl⟩ := read_ok_iff.mp answeredAgain
    obtain ⟨otherHeader, records, -, fitAgain, whole, added⟩ :=
      draft?_eq_some_iff.mp madeAgain
    have seam : header.octets ++ ((front ++ [ending]).flatMap Record.octets ++
        (other.extract stop).toList) = otherHeader.octets ++ records.flatMap Record.octets := by
      rw [← whole, ← List.append_assoc, ← ended, ← same, toList_extract_append]
    -- Both headers are ten octets, so the records begin at the same place.
    obtain ⟨-, seam⟩ := List.append_inj seam (by simp)
    obtain ⟨later, rfl, rest⟩ := records_of_prefix fit fitAgain seam
    rw [Draft.addRecords_append, ends, ok_bind] at added
    have longer := Draft.isPrefix_addRecords added
    refine ⟨?_, ?_, later, ?_, rest, ?_⟩
    · apply signInfo?_of_isPrefix longer
      exact signInfo?_push unsigned _
    · obtain ⟨parts, same⟩ := longer
      refine ⟨parts.toArray, ?_⟩
      rw [← Array.toList_inj, ← same]
      simp [Draft.push, pushPart]
    · intro record member
      exact fitAgain record (List.mem_append_right _ member)
    · intro bare
      obtain ⟨creator, parts⟩ := Draft.content_addRecords bare added
      refine ⟨creator, parts.trans ?_⟩
      rw [← filter_isUnsigned unsigned]
      simp [Draft.push, pushPart, Part.isUnsigned, Part.signature?]

/-! ## A file that goes on behind its signature -/

/-- A key whose numbers are small enough to be looked at. -/
def smallKey : Signing.PublicKey where
  p := 836501
  q := 239
  g := 63669
  y := 809760
  two_le_p := by decide
  two_le_q := by decide
  g_pos := by decide
  g_le_p := by decide
  two_le_y := by decide
  y_order := by decide +kernel

/-- The header, the start of a signature, a block of input with one frame, and the end
of the signature. -/
def attested : Octets :=
  #[0x52, 0x5A, 0x58, 0x21, 0, 13, 1, 0, 0, 0,
    0x20, 13, 0, 0, 0, 7, 0, 0, 0, 0xF0, 10, 0, 0,
    0x80, 23, 0, 0, 0, 1, 0, 0, 0, 0, 9, 0, 0, 0, 0, 0, 0, 0, 5, 0, 1, 0, 0xBF,
    0x21, 11, 0, 0, 0, 0, 8, 0xC3, 0, 8, 0xAC]

def attestation : SignInfo :=
  { keyId := 7, week := 2800, signature := #[0, 8, 0xC3, 0, 8, 0xAC], signedSize := 46 }

def attestedParts : Array Part :=
  #[.input ⟨9, #[⟨5, 1, false, #[0xBF]⟩]⟩]

/-- Another block of input. -/
def afterthought : Octets :=
  #[0x80, 22, 0, 0, 0, 1, 0, 0, 0, 0, 100, 0, 0, 0, 0, 0, 0, 0, 6, 0, 0, 0]

theorem readVerified_attested :
    (readVerified attested smallKey).result =
      .ok { parts := attestedParts.push (.signature attestation) } := by
  decide +kernel

theorem readVerified_attested_afterthought :
    (readVerified (attested ++ afterthought) smallKey).result =
      .ok { parts := attestedParts.push (.signature attestation) ++
        #[.input ⟨100, #[⟨6, 0, false, #[]⟩]⟩] } := by
  decide +kernel

theorem readVerified_signed_attested :
    (readVerified attested smallKey).result =
      .ok { parts := attestedParts.push (.signature attestation) } ∧
    Signing.verify attestation.signature (attested.extract 0 46) smallKey = .ok () ∧
    ∃ content, draft? Packing.Zlib.packer (attested.extract 0 46) = some content ∧
      content.recording.signInfo? = none ∧
      ∃ again added, (readVerified (attested ++ afterthought) smallKey).result =
        .ok again ∧
        again.signInfo? = some attestation ∧
        again.parts = content.recording.parts.push (.signature attestation) ++ added := by
  have verified := readVerified_attested
  obtain ⟨covered, content, made, unsigned, others⟩ :=
    @readVerified_signed _ _ _ _ _ attestation verified (by decide)
  have longer := readVerified_attested_afterthought
  obtain ⟨signed, ⟨added, same⟩, -⟩ := others _ _ (by decide) longer
  exact ⟨verified, covered, content, made, unsigned, _, added, longer, signed, same⟩

/-- A block of input behind the signature is accepted with the ones that were signed:
the two files are the same up to the end of the signature, and the recording of the
second one has other blocks than the octets that were signed. -/
theorem readVerified_takes_more :
    (readVerified attested smallKey).result =
      .ok { parts := attestedParts.push (.signature attestation) } ∧
    draft? Packing.Zlib.packer (attested.extract 0 attestation.signedSize) =
      some { recording := { parts := attestedParts }, opened := some (7, 2800) } ∧
    (attested ++ afterthought).extract 0 attested.size = attested ∧
    ∃ again, (readVerified (attested ++ afterthought) smallKey).result = .ok again ∧
      again.signedBy? = some 7 ∧ again.parts.filter Part.isUnsigned ≠ attestedParts := by
  refine ⟨readVerified_attested, by decide +kernel, by decide, ?_⟩
  exact ⟨_, readVerified_attested_afterthought, by decide, by decide⟩

end ZxMedia.Recording
