import ZxMedia.Proofs.Recording.Cut

/-!
# Recording files put together

A record is read on its own. What it makes depends on nothing that stands in front of it
but the signature that was begun and not ended, and on its place only in so far as a
signature says how much it covers (`Draft.addRecords_elsewhere`). So the records of a
file can stand behind those of another one, and records without a meaning can be put
between any two records (`read_spliced`).
-/

namespace ZxMedia.Recording

open Packing (Packer)

/-! ## Records at another place -/

/-- The part that is read when so many more octets stand in front of it: a signature
covers them. -/
def Part.displaced (distance : Nat) : Part → Part
  | .signature info => .signature { info with signedSize := info.signedSize + distance }
  | part => part

@[simp] theorem Part.displaced_zero : Part.displaced 0 = id := by
  funext part
  cases part <;> rfl

/-- Displaces the parts from an index on. -/
def displacedFrom (recording : Recording) (index distance : Nat) : Recording :=
  { recording with
    parts := recording.parts.extract 0 index ++
      (recording.parts.extract index).map (Part.displaced distance) }

namespace Draft

variable {packer : Packer} {draft next final : Draft} {place : Nat} {record : Record}
variable {records : List Record}

/-- A draft with the program that was named then, if one was, with more parts, and with
another signature that is open. -/
def extend (draft : Draft) (creator : Option Creator) (parts : Array Part)
    (opened : Option (UInt32 × UInt32)) : Draft where
  recording :=
    { draft.recording with
      creator := creator.getD draft.recording.creator
      parts := draft.recording.parts ++ parts }
  opened := opened

@[simp] theorem extend_none (draft : Draft) :
    draft.extend none #[] draft.opened = draft := by
  simp [extend]

theorem extend_extend (draft : Draft) (first second : Option Creator)
    (parts more : Array Part)
    (opened reopened : Option (UInt32 × UInt32)) :
    (draft.extend first parts opened).extend second more reopened =
      draft.extend (second.or first) (parts ++ more) reopened := by
  cases second <;> simp [extend]

/-- A record makes the same of all drafts with the same open signature, wherever it
stands. -/
theorem add_elsewhere (added : (draft.add packer place record).result = .ok next) :
    ∃ made : Array Part, ∀ (distance : Nat) (other : Draft), other.opened = draft.opened →
      other.recording.recording = none →
      (other.add packer (place + distance) record).result =
        .ok (other.extend record.creator? (made.map (Part.displaced distance)) next.opened) := by
  cases add_ok added with
  | creator kind read =>
      refine ⟨#[], fun distance other same idle => ?_⟩
      simp only [add, kind, addKnown, read, Record.creator?, extend, Array.map_empty,
        Array.append_empty, ← same]
      rfl
  | signatureStart kind read =>
      refine ⟨#[], fun distance other same idle => ?_⟩
      simp [add, kind, addKnown, read, Record.creator?, extend]
  | @signatureEnd keyId week kind opened =>
      -- Of all parts only this one says where it stands.
      refine ⟨#[.signature ⟨keyId, week, record.body, place⟩],
        fun distance other same idle => ?_⟩
      simp [add, kind, addKnown, Record.creator?, extend, push, pushPart,
        Part.displaced, same, opened, idle]
  | @snapshot found snapshot kind read unpacked =>
      refine ⟨#[.snapshot snapshot], fun distance other same idle => ?_⟩
      simp only [add, kind, addKnown, read, unpacked, ok_bind, pure_ok]
      simp [Record.creator?, kind, extend, push, pushPart, Part.displaced, same, idle]
  | @input found block kind read unpacked =>
      refine ⟨#[.input block], fun distance other same idle => ?_⟩
      simp only [add, kind, addKnown, read, unpacked, Except.map]
      simp [Record.creator?, kind, extend, push, pushPart, Part.displaced, same, idle]
  | unknown kind =>
      refine ⟨#[], fun distance other same idle => ?_⟩
      simp [add, kind, Record.creator?, extend, ← same]

/-- What records make of a draft, wherever they stand, depends on the open signature
alone. -/
theorem addRecords_elsewhere (added : addRecords packer place records draft = .ok final) :
    ∃ made : Array Part, ∀ (distance : Nat) (other : Draft), other.opened = draft.opened →
      other.recording.recording = none →
      addRecords packer (place + distance) records other =
        .ok (other.extend (records.filterMap Record.creator?).getLast?
          (made.map (Part.displaced distance)) final.opened) := by
  -- From one record to the next the signature that is open stays the same in both
  -- drafts.
  induction records generalizing place draft with
  | nil =>
      obtain rfl := Except.ok.inj added
      refine ⟨#[], fun distance other same idle => ?_⟩
      simp [addRecords, ← same]
  | cons record records ih =>
      obtain ⟨next, first, others⟩ := bind_ok.mp added
      obtain ⟨made, once⟩ := add_elsewhere first
      obtain ⟨more, onward⟩ := ih others
      refine ⟨made ++ more, fun distance other same idle => ?_⟩
      rw [addRecords, once distance other same idle, ok_bind, Nat.add_right_comm,
        onward distance (other.extend _ _ next.opened) rfl idle, extend_extend, Array.map_append]
      cases named : record.creator? with
      | none => simp [List.filterMap_cons_none named]
      | some creator =>
        rw [List.filterMap_cons_some named, List.getLast?_cons]
        cases (records.filterMap Record.creator?).getLast? <;> rfl

/-- What records make of a draft that is not recording is added to it. -/
theorem extend_addRecords (added : addRecords packer place records draft = .ok final)
    (idle : draft.recording.recording = none) :
    ∃ made : Array Part,
      final = draft.extend (records.filterMap Record.creator?).getLast? made final.opened ∧
      ∀ (distance : Nat) (other : Draft), other.opened = draft.opened →
        other.recording.recording = none →
        addRecords packer (place + distance) records other =
          .ok (other.extend (records.filterMap Record.creator?).getLast?
            (made.map (Part.displaced distance)) final.opened) := by
  obtain ⟨made, elsewhere⟩ := addRecords_elsewhere added
  refine ⟨made, ?_, elsewhere⟩
  have here := elsewhere 0 draft rfl idle
  rw [Nat.add_zero, added, Part.displaced_zero, Array.map_id] at here
  exact Except.ok.inj here

/-- Records behind others that leave no signature open make what they make alone. -/
theorem addRecords_behind {behind : List Record} {recording back : Recording}
    (first : addRecords packer 10 records {} = .ok { recording })
    (second : addRecords packer 10 behind {} = .ok { recording := back }) :
    addRecords packer 10 (records ++ behind) {} =
      .ok
        { recording :=
            { creator := lastCreator (records ++ behind)
              parts := recording.parts ++
                back.parts.map (Part.displaced (records.flatMap Record.octets).length) } } := by
  obtain ⟨front, whole, -⟩ := extend_addRecords first rfl
  obtain ⟨made, alone, elsewhere⟩ := extend_addRecords second rfl
  have idle : recording.recording = none := by cases whole; rfl
  rw [addRecords_append, first, ok_bind, elsewhere _ { recording } rfl idle]
  cases whole
  cases alone
  simp [extend, lastCreator, List.getLast?_append]

theorem addRecords_unknown
    (unknown : ∀ record ∈ records, RecordKind.ofByte? record.id = none) :
    addRecords packer place records draft = .ok draft := by
  induction records generalizing place with
  | nil => rfl
  | cons record records ih =>
      rw [List.forall_mem_cons] at unknown
      simp only [addRecords, add, unknown.1, ok_bind]
      exact ih unknown.2

/-- Records without a meaning between others displace what the ones behind them make. -/
theorem addRecords_between {before between after : List Record} {recording : Recording}
    (made : addRecords packer place (before ++ after) {} = .ok { recording })
    (unknown : ∀ record ∈ between, RecordKind.ofByte? record.id = none) :
    addRecords packer place (before ++ between ++ after) {} =
      .ok
        { recording :=
            recording.displacedFrom (before.countP Record.isPart)
              (between.flatMap Record.octets).length } := by
  rw [addRecords_append] at made
  obtain ⟨middle, first, others⟩ := bind_ok.mp made
  obtain ⟨front, start, -⟩ := extend_addRecords first rfl
  have idle : middle.recording.recording = none := by rw [start]; rfl
  obtain ⟨more, whole, elsewhere⟩ := extend_addRecords others idle
  have size : middle.recording.parts.size = before.countP Record.isPart := by
    simpa using size_addRecords first
  rw [List.append_assoc, addRecords_append, first, ok_bind, addRecords_append,
    addRecords_unknown unknown, ok_bind, elsewhere _ _ rfl idle]
  cases whole
  rw [← size]
  simp [extend, displacedFrom]

end Draft

/-! ## Joined and extended files -/

/-- The records of another file can be put behind the last one. -/
theorem Comprises.append {file second : Octets} {header other : Header}
    {records added : List Record}
    (comprises : Comprises file header records) (behind : Comprises second other added) :
    Comprises (file ++ second.extract 10) header (records ++ added) := by
  refine ⟨List.forall_mem_append.mpr ⟨comprises.1, behind.1⟩, ?_⟩
  have rest : (second.extract 10).toList = added.flatMap Record.octets := by
    rw [toList_extract_back, behind.2, ← other.length_octets, List.drop_left]
  rw [Array.toList_append, comprises.2, rest, List.flatMap_append, List.append_assoc]

theorem ofByte?_eq_none_iff {id : UInt8} :
    RecordKind.ofByte? id = none ↔ id ∉ [0x10, 0x20, 0x21, 0x30, 0x80] := by
  simp only [RecordKind.ofByte?, List.mem_cons, List.not_mem_nil, or_false, not_or]
  grind

/-- The records of a file that can be read can stand behind those of another one. The
parts are then those of both files, and the program is the one that is named last in
either. And records without a meaning can be put in front of the others, behind them,
and between any two of them: the recording stays the same but for the signatures behind
them, which cover them. -/
theorem read_spliced {packer : Packer} {file : Octets} {recording : Recording}
    (succeeded : (read file packer).result = .ok recording) :
    ∃ header records, Comprises file header records ∧
      (∀ second back, (read second packer).result = .ok back →
        ∃ other behind, Comprises second other behind ∧
          (read (file ++ second.extract 10) packer).result = .ok
            { creator := lastCreator (records ++ behind)
              parts := recording.parts ++ back.parts.map (Part.displaced (file.size - 10)) }) ∧
      ∀ before between after, records = before ++ after →
        (∀ record ∈ between, record.Fits ∧ record.id ∉ [0x10, 0x20, 0x21, 0x30, 0x80]) →
        (read (header.octets ++ (before ++ between ++ after).flatMap Record.octets).toArray
            packer).result =
          .ok (recording.displacedFrom (before.countP Record.isPart)
            (between.flatMap Record.octets).length) := by
  obtain ⟨header, records, comprises, version, made⟩ := read_ok_iff_comprises.mp succeeded
  refine ⟨header, records, comprises, ?_, ?_⟩
  · intro second back answered
    obtain ⟨other, behind, comprisesSecond, -, madeSecond⟩ :=
      read_ok_iff_comprises.mp answered
    refine ⟨other, behind, comprisesSecond, read_ok_iff_comprises.mpr
      ⟨header, records ++ behind, comprises.append comprisesSecond, version, ?_⟩⟩
    rw [comprises.size, Nat.add_sub_cancel_left]
    exact Draft.addRecords_behind made madeSecond
  · rintro before between after rfl strange
    have unknown : ∀ record ∈ between, RecordKind.ofByte? record.id = none :=
      fun record member => ofByte?_eq_none_iff.mpr (strange record member).2
    refine read_ok_iff_comprises.mpr ⟨header, before ++ between ++ after,
      ⟨?_, rfl⟩, version, Draft.addRecords_between made unknown⟩
    intro record member
    simp only [List.append_assoc, List.mem_append] at member
    rcases member with front | inside | back
    · exact comprises.1 record (List.mem_append_left _ front)
    · exact (strange record inside).1
    · exact comprises.1 record (List.mem_append_right _ back)

/-- The records of `attested`. -/
def attestedRecords : List Record :=
  [⟨0x20, #[7, 0, 0, 0, 0xF0, 10, 0, 0]⟩,
    ⟨0x80, #[1, 0, 0, 0, 0, 9, 0, 0, 0, 0, 0, 0, 0, 5, 0, 1, 0, 0xBF]⟩,
    ⟨0x21, #[0, 8, 0xC3, 0, 8, 0xAC]⟩]

/-- A record without a meaning. -/
def remark : Record :=
  ⟨0x55, #[1, 2]⟩

theorem comprises_attested : Comprises attested ⟨0, 13, 1⟩ attestedRecords :=
  ⟨by simp [attestedRecords, Record.Fits, recordHeadSize, LittleEndian.capacity], by decide⟩

/-- A signed file behind itself has two signatures, and the second one covers more. A
record without a meaning in front of the end of the signature is covered by it. -/
theorem read_spliced_attested :
    (read attested).result =
      .ok { parts := attestedParts.push (.signature attestation) } ∧
    (read (attested ++ attested.extract 10)).result = .ok
      { parts := attestedParts.push (.signature attestation) ++
          attestedParts.push (.signature { attestation with signedSize := 93 }) } ∧
    (read (attested.extract 0 46 ++ remark.octets ++ attested.extract 46)).result =
      .ok { parts := attestedParts.push (.signature { attestation with signedSize := 53 }) } := by
  have succeeded : (read attested).result =
      .ok { parts := attestedParts.push (.signature attestation) } :=
    (readVerified_ok_iff.mp readVerified_attested).1
  obtain ⟨header, records, comprises, joined, extended⟩ := read_spliced succeeded
  obtain ⟨rfl, rfl⟩ := comprises_attested.unique comprises
  refine ⟨succeeded, ?_, ?_⟩
  · obtain ⟨other, behind, again, both⟩ := joined _ _ succeeded
    obtain ⟨rfl, rfl⟩ := comprises_attested.unique again
    exact both.trans (congrArg Except.ok (by decide +kernel))
  · have longer := extended (attestedRecords.take 2) [remark] (attestedRecords.drop 2) rfl
      (by simp [remark, Record.Fits, recordHeadSize, LittleEndian.capacity])
    have same : (Header.octets ⟨0, 13, 1⟩ ++ (attestedRecords.take 2 ++ [remark] ++
          attestedRecords.drop 2).flatMap Record.octets).toArray =
        attested.extract 0 46 ++ remark.octets ++ attested.extract 46 := by decide
    rw [same] at longer
    exact longer.trans (congrArg Except.ok (by decide +kernel))

end ZxMedia.Recording
