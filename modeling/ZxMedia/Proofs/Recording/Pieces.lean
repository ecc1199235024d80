import ZxMedia.Proofs.Recording.RecordCodec
import ZxMedia.Recording.File

/-!
# Pieces of recording files

A file that can be read is a header and records behind it, and it is so in one way only:
a record says its own size. A recording is what the records make one after another
(`Draft.addRecords`), and what one of them can do is told by `Draft.Adds`: parts are put
at the end and none is ever taken away.

A signature that was begun and not ended is no fault of the octets in front of its end,
so what the beginning of a file makes is a draft (`draft?`). A recording is read from a
file when its draft leaves no signature open (`read_ok_iff`).
-/

namespace ZxMedia.Recording

open LittleEndian (capacity encode)
open Packing (Packer)
open Scan (Reads)

/-! ## Headers -/

/-- The octets of a header. -/
def Header.octets (header : Header) : List UInt8 :=
  signature ++ [header.major, header.minor] ++ encode 4 header.flags.toNat

@[simp] theorem Header.length_octets (header : Header) : header.octets.length = 10 := by
  simp [octets, signature]

theorem reads_header (header : Header) : scanHeader.Reads header.octets header := by
  refine .of_eq (.bind ((Reads.tag signature).within _) (.within _ <|
    (Reads.byte header.major).bind <| (Reads.byte header.minor).bind <|
    (reads_scanWord header.flags).last _)) ?_
  simp [Header.octets]

theorem Header.eq_of_octets {header other : Header}
    (same : header.octets = other.octets) :
    header = other := by
  have answer := reads_header header []
  rw [same, reads_header other []] at answer
  exact (Prod.mk.inj (Except.ok.inj answer)).1.symm

theorem scanWord_answer {ahead rest : List UInt8} {word : UInt32}
    (answered : scanWord ahead = .ok (word, rest)) :
    ahead = encode 4 word.toNat ++ rest := by
  obtain ⟨number, _, counted, last⟩ := Scan.bind_answer answered
  cases last
  obtain ⟨fits, same⟩ := Scan.number_answer counted
  rwa [UInt32.toNat_ofNat_of_lt' fits]

theorem scanHeader_ok_iff {ahead rest : List UInt8} {header : Header} :
    scanHeader ahead = .ok (header, rest) ↔ ahead = header.octets ++ rest := by
  constructor
  · intro answered
    obtain ⟨_, _, tagged, versioned⟩ := Scan.bind_answer answered
    obtain ⟨_, _, first, later⟩ := Scan.bind_answer (Scan.within_answer versioned)
    obtain ⟨_, _, second, later⟩ := Scan.bind_answer later
    obtain ⟨_, _, third, last⟩ := Scan.bind_answer later
    cases last
    rw [Scan.tag_answer (Scan.within_answer tagged), Scan.byte_answer first,
      Scan.byte_answer second, scanWord_answer third]
    simp [Header.octets]
  · rintro rfl
    exact reads_header header rest

/-! ## Records -/

/-- Records with their places in a file, the first of them at the given one. -/
def placed : Nat → List Record → List (Nat × Record)
  | _, [] => []
  | place, record :: records => (place, record) :: placed (place + record.octets.length) records

/-- A record that is read is one more, and it has octets of its own. -/
theorem recordsFrom_of_read {ahead rest : List UInt8} {record : Record}
    (read : scanRecord ahead = .ok (record, rest)) (size steps : Nat)
    (before : Array (Nat × Record)) :
    recordsFrom size (steps + 1) ahead before =
        recordsFrom size steps rest (before.push (size - ahead.length, record)) ∧
      ahead.length = record.octets.length + rest.length ∧ rest.length < ahead.length := by
  have lengths := congrArg List.length (scanRecord_ok_iff.mp read).2
  rw [List.length_append] at lengths
  have positive : 0 < record.octets.length := by
    rw [Record.length_octets]
    exact Nat.add_pos_right _ (Nat.zero_lt_succ 4)
  refine ⟨?_, lengths, by omega⟩
  cases ahead with
  | nil =>
      rw [List.length_nil] at lengths
      omega
  | cons octet ahead => simp only [recordsFrom, read, List.length_cons]

theorem recordsFrom_octets {size : Nat} {records : List Record}
    (fit : ∀ record ∈ records, record.Fits) {steps : Nat}
    (enough : (records.flatMap Record.octets).length ≤ steps)
    (inside : (records.flatMap Record.octets).length ≤ size)
    (before : Array (Nat × Record)) :
    recordsFrom size steps (records.flatMap Record.octets) before =
      ⟨before ++ placed (size - (records.flatMap Record.octets).length) records, none⟩ := by
  induction records generalizing steps before with
  | nil => cases steps <;> simp [recordsFrom, placed]
  | cons record records ih =>
      rw [List.forall_mem_cons] at fit
      have read := scanRecord_ok_iff.mpr
        ⟨fit.1, @List.flatMap_cons _ _ record records Record.octets⟩
      cases steps with
      | zero =>
          have shorter := (recordsFrom_of_read read size 0 before).2.2
          omega
      | succ steps =>
          obtain ⟨first, lengths, shorter⟩ := recordsFrom_of_read read size steps before
          have place : size - (records.flatMap Record.octets).length =
              size - ((record :: records).flatMap Record.octets).length +
                record.octets.length := by omega
          rw [first, ih fit.2 (by omega) (by omega), place]
          simp [placed]

/-- The rest of a file that can be read to its end is made of records. -/
theorem recordsFrom_ok {size steps : Nat} {ahead : List UInt8}
    {before : Array (Nat × Record)}
    (enough : ahead.length ≤ steps)
    (whole : (recordsFrom size steps ahead before).failure = none) :
    ∃ records : List Record, (∀ record ∈ records, record.Fits) ∧
      ahead = records.flatMap Record.octets := by
  induction steps generalizing ahead before with
  | zero =>
      obtain rfl : ahead = [] := List.length_eq_zero_iff.mp (Nat.le_zero.mp enough)
      exact ⟨[], List.forall_mem_nil _, rfl⟩
  | succ steps ih =>
      cases ahead with
      | nil => exact ⟨[], List.forall_mem_nil _, rfl⟩
      | cons octet ahead =>
          cases scanned : scanRecord (octet :: ahead) with
          | error trace =>
              simp only [recordsFrom, scanned] at whole
              cases whole
          | ok answer =>
              obtain ⟨record, rest⟩ := answer
              obtain ⟨first, -, shorter⟩ := recordsFrom_of_read scanned size steps before
              rw [first] at whole
              obtain ⟨records, fit, rfl⟩ := ih (by omega) whole
              obtain ⟨fits, same⟩ := scanRecord_ok_iff.mp scanned
              exact ⟨record :: records, List.forall_mem_cons.mpr ⟨fits, fit⟩, same⟩

/-- Octets are made of records in one way: records at their front are the first ones. -/
theorem records_of_prefix {front records : List Record}
    (fitFront : ∀ record ∈ front, record.Fits)
    (fit : ∀ record ∈ records, record.Fits) {rest : List UInt8}
    (same : front.flatMap Record.octets ++ rest = records.flatMap Record.octets) :
    ∃ later, records = front ++ later ∧ rest = later.flatMap Record.octets := by
  induction front generalizing records with
  | nil => exact ⟨records, rfl, same⟩
  | cons record front ih =>
      rw [List.forall_mem_cons] at fitFront
      rw [List.flatMap_cons, List.append_assoc] at same
      have first := scanRecord_ok_iff.mpr ⟨fitFront.1, same.symm⟩
      cases records with
      | nil => cases (recordsFrom_of_read first 0 0 #[]).2.2
      | cons other records =>
          rw [List.forall_mem_cons] at fit
          rw [List.flatMap_cons, scanRecord_ok_iff.mpr ⟨fit.1, rfl⟩] at first
          obtain ⟨rfl, left⟩ := Prod.mk.inj (Except.ok.inj first)
          obtain ⟨later, rfl, rest⟩ := ih fitFront.2 fit.2 left.symm
          exact ⟨later, rfl, rest⟩

/-! ## What records do -/

namespace Draft

variable {packer : Packer} {draft next final : Draft} {place : Nat} {record : Record}
variable {records : List Record} {notices : Array Notice}

/-- What a record can make of a draft. -/
inductive Adds (packer : Packer) (draft : Draft) (place : Nat) (record : Record) :
    Draft → Prop where
  | creator {creator : Creator} (kind : RecordKind.ofByte? record.id = some .creator)
      (read : scanBody .creator scanCreator record.body = .ok creator) :
      Adds packer draft place record { draft with recording := { draft.recording with creator } }
  | signatureStart {start : UInt32 × UInt32}
      (kind : RecordKind.ofByte? record.id = some .signatureStart)
      (read : scanBody .signatureStart scanSignatureStart record.body = .ok start) :
      Adds packer draft place record { draft with opened := some start }
  | signatureEnd {keyId week : UInt32} (kind : RecordKind.ofByte? record.id = some .signatureEnd)
      (opened : draft.opened = some (keyId, week)) :
      Adds packer draft place record
        { draft.push (.signature ⟨keyId, week, record.body, place⟩) with opened := none }
  | snapshot {found : SnapshotBody} {snapshot : Snapshot}
      (kind : RecordKind.ofByte? record.id = some .snapshot)
      (read : scanBody .snapshot scanSnapshot record.body = .ok found)
      (unpacked : found.snapshot packer = .ok snapshot) :
      Adds packer draft place record (draft.push (.snapshot snapshot))
  | input {found : InputBody} {block : InputBlock}
      (kind : RecordKind.ofByte? record.id = some .input)
      (read : scanBody .input scanInput record.body = .ok found)
      (unpacked : (found.block packer).result = .ok block) :
      Adds packer draft place record (draft.push (.input block))
  | unknown (kind : RecordKind.ofByte? record.id = none) : Adds packer draft place record draft

theorem add_ok (added : (draft.add packer place record).result = .ok next) :
    draft.Adds packer place record next := by
  unfold add at added
  split at added
  next kind known =>
    cases kind with
    | creator =>
        obtain ⟨creator, read, changed⟩ := bind_ok.mp added
        obtain rfl := Except.ok.inj changed
        exact .creator known read
    | signatureStart =>
        obtain ⟨start, read, changed⟩ := bind_ok.mp added
        obtain rfl := Except.ok.inj changed
        exact .signatureStart known read
    | signatureEnd =>
        unfold addKnown at added
        dsimp only at added
        split at added
        next => cases added
        next opened =>
          obtain rfl := Except.ok.inj added
          exact .signatureEnd known opened
    | snapshot =>
        obtain ⟨found, read, changed⟩ := bind_ok.mp added
        obtain ⟨snapshot, unpacked, changed⟩ := bind_ok.mp changed
        obtain rfl := Except.ok.inj changed
        exact .snapshot known read unpacked
    | input =>
        unfold addKnown at added
        dsimp only at added
        split at added
        next => cases added
        next found read =>
          cases unpacked : (found.block packer).result with
          | error error =>
              rw [unpacked] at added
              cases added
          | ok block =>
              rw [unpacked] at added
              obtain rfl := Except.ok.inj added
              exact .input known read unpacked
  next unknown =>
    obtain rfl := Except.ok.inj added
    exact .unknown unknown

/-- What records make of a draft one after another, the first of them at a place. -/
def addRecords (packer : Packer) : Nat → List Record → Draft → Except Error Draft
  | _, [], draft => .ok draft
  | place, record :: records, draft => do
    let draft ← (draft.add packer place record).result
    addRecords packer (place + record.octets.length) records draft

theorem addAll_placed :
    (addAll packer (placed place records) draft notices).result =
      addRecords packer place records draft := by
  induction records generalizing place draft notices with
  | nil => rfl
  | cons record records ih =>
      simp only [placed, addAll, addRecords]
      cases (draft.add packer place record).result with
      | error error => rfl
      | ok next => exact ih

theorem addRecords_append {front back : List Record} :
    addRecords packer place (front ++ back) draft =
      addRecords packer place front draft >>=
        addRecords packer (place + (front.flatMap Record.octets).length) back := by
  induction front generalizing place draft with
  | nil => rfl
  | cons record front ih =>
      simp only [List.cons_append, addRecords, List.flatMap_cons, List.length_append]
      cases (draft.add packer place record).result with
      | error error => rfl
      | ok next =>
          simp only [ok_bind, ih, Nat.add_assoc]

theorem Adds.isPrefix (adds : draft.Adds packer place record next) :
    draft.recording.parts.toList <+: next.recording.parts.toList := by
  cases adds with
  | creator | signatureStart | unknown => exact List.prefix_refl _
  | signatureEnd | snapshot | input =>
      simp only [push, pushPart, Array.toList_push]
      exact List.prefix_append _ _

theorem isPrefix_addRecords (added : addRecords packer place records draft = .ok final) :
    draft.recording.parts.toList <+: final.recording.parts.toList := by
  induction records generalizing place draft with
  | nil =>
      obtain rfl := Except.ok.inj added
      exact List.prefix_refl _
  | cons record records ih =>
      obtain ⟨next, first, others⟩ := bind_ok.mp added
      exact (add_ok first).isPrefix.trans (ih others)

end Draft

/-! ## Files -/

/-- What the octets of a file make, be it that a signature was begun and not ended. -/
def draft? (packer : Packer) (file : Octets) : Option Draft :=
  match scanHeader file.toList with
  | .error _ => none
  | .ok (header, ahead) =>
    let found := recordsOf file.toList ahead
    if header.major ≤ majorVersion ∧ found.failure = none then
      (Draft.addAll packer found.records.toList {} #[]).result.toOption
    else none

/-- The octets that make a draft are a header and records. -/
theorem draft?_eq_some_iff {packer : Packer} {file : Octets} {draft : Draft} :
    draft? packer file = some draft ↔
      ∃ header : Header, ∃ records : List Record, header.major ≤ majorVersion ∧
        (∀ record ∈ records, record.Fits) ∧
        file.toList = header.octets ++ records.flatMap Record.octets ∧
        Draft.addRecords packer 10 records {} = .ok draft := by
  have size {header : Header} {records : List Record}
      (whole : file.toList = header.octets ++ records.flatMap Record.octets) :
      file.toList.length - (records.flatMap Record.octets).length = 10 ∧
        (records.flatMap Record.octets).length ≤ file.toList.length := by
    have lengths := congrArg List.length whole
    rw [List.length_append, Header.length_octets] at lengths
    omega
  have found {header : Header} {records : List Record} (fit : ∀ record ∈ records, record.Fits)
      (whole : file.toList = header.octets ++ records.flatMap Record.octets) :
      recordsOf file.toList (records.flatMap Record.octets) =
        ⟨(placed 10 records).toArray, none⟩ := by
    rw [recordsOf, recordsFrom_octets fit (Nat.le_refl _) (size whole).2, (size whole).1]
    simp
  constructor
  · intro made
    unfold draft? at made
    split at made
    next => cases made
    next header ahead scanned =>
      dsimp only at made
      split at made
      next readable =>
        obtain ⟨records, fit, rfl⟩ := recordsFrom_ok (Nat.le_refl _) readable.2
        have whole := scanHeader_ok_iff.mp scanned
        rw [found fit whole, Draft.addAll_placed] at made
        refine ⟨header, records, readable.1, fit, whole, ?_⟩
        cases added : Draft.addRecords packer 10 records {} with
        | error error =>
            rw [added] at made
            cases made
        | ok final =>
            rw [added] at made
            cases made
            rfl
      next => cases made
  · rintro ⟨header, records, version, fit, whole, added⟩
    unfold draft?
    rw [scanHeader_ok_iff.mpr whole]
    dsimp only
    rw [found fit whole, Draft.addAll_placed, added]
    simp only [version, and_self, if_true]
    rfl

/-- A recording is read from the files that make it and leave no signature open. -/
theorem read_ok_iff {packer : Packer} {file : Octets} {recording : Recording} :
    (read file packer).result = .ok recording ↔
      ∃ draft, draft? packer file = some draft ∧ draft.opened = none ∧
        draft.recording = recording := by
  unfold read draft?
  dsimp only
  cases scanHeader file.toList with
  | error trace => simp
  | ok answer =>
      obtain ⟨header, ahead⟩ := answer
      dsimp only
      by_cases version : header.major ≤ majorVersion
      · rw [if_neg (UInt8.not_lt.mpr version)]
        unfold readRecords
        dsimp only
        generalize (Draft.addAll packer _ _ _).result = added
        cases (recordsOf file.toList ahead).failure with
        | some trace => cases added <;> simp
        | none =>
            cases added with
            | error error => simp [Except.toOption, version]
            | ok draft =>
                cases opened : draft.opened <;> simp [Except.toOption, version, opened]
      · rw [if_pos (UInt8.not_le.mp version)]
        simp [version]

theorem read_of_records {packer : Packer} {file : Octets} (header : Header)
    {records : List Record}
    {recording : Recording} (version : header.major ≤ majorVersion)
    (fit : ∀ record ∈ records, record.Fits)
    (whole : file.toList = header.octets ++ records.flatMap Record.octets)
    (added : Draft.addRecords packer 10 records {} = .ok { recording }) :
    (read file packer).result = .ok recording :=
  read_ok_iff.mpr
    ⟨_, draft?_eq_some_iff.mpr ⟨header, records, version, fit, whole, added⟩, rfl, rfl⟩

/-! ## Files and their records -/

/-- A file is a header and records behind it. -/
def Comprises (file : Octets) (header : Header) (records : List Record) : Prop :=
  (∀ record ∈ records, record.Fits) ∧ file.toList = header.octets ++ records.flatMap Record.octets

section Comprises

variable {file : Octets} {header other : Header} {records added : List Record}

theorem Comprises.size (comprises : Comprises file header records) :
    file.size = 10 + (records.flatMap Record.octets).length := by
  rw [← Array.length_toList, comprises.2, List.length_append, Header.length_octets]

/-- A file is made of records in one way. -/
theorem Comprises.unique (comprises : Comprises file header records)
    (again : Comprises file other added) : header = other ∧ records = added := by
  have same := comprises.2.symm.trans again.2
  obtain ⟨front, rest⟩ := List.append_inj same (by simp)
  rw [← List.append_nil (List.flatMap _ records)] at rest
  obtain ⟨later, rfl, none⟩ := records_of_prefix comprises.1 again.1 rest
  refine ⟨Header.eq_of_octets front, ?_⟩
  cases later with
  | nil => rw [List.append_nil]
  | cons record later =>
      have lengths := congrArg List.length none
      simp [Record.octets] at lengths

end Comprises

/-- A recording is read from what some records of a supported version make. -/
theorem read_ok_iff_comprises {packer : Packer} {file : Octets} {recording : Recording} :
    (read file packer).result = .ok recording ↔
      ∃ header records, Comprises file header records ∧ header.major ≤ majorVersion ∧
        Draft.addRecords packer 10 records {} = .ok { recording } := by
  constructor
  · intro answered
    obtain ⟨⟨made, opened⟩, drafted, closed, rfl⟩ := read_ok_iff.mp answered
    obtain ⟨header, records, version, fit, whole, added⟩ := draft?_eq_some_iff.mp drafted
    obtain rfl : opened = none := closed
    exact ⟨header, records, ⟨fit, whole⟩, version, added⟩
  · rintro ⟨header, records, ⟨fit, whole⟩, version, added⟩
    exact read_of_records header version fit whole added

end ZxMedia.Recording
