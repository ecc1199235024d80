import ZxMedia.Proofs.Recording.SignedPart

/-!
# Recording files that break off

What is left of a file that breaks off is read only if it ends with the header or with a
record, and if every signature that begins in it also ends in it. The parts of the
recording are then those of the records that are left, and so is the program. Everything
else that can be left is corrupt: a record is not interpreted before all of its body is
there.
-/

namespace ZxMedia.Recording

open Packing (Packer)

/-! ## Records with a part -/

/-- Whether a record begins a signature. -/
def Record.IsStart (record : Record) : Prop :=
  RecordKind.ofByte? record.id = some .signatureStart

/-- Whether a record ends a signature. -/
def Record.IsEnd (record : Record) : Prop :=
  RecordKind.ofByte? record.id = some .signatureEnd

/-- Whether a record becomes a part of the recording. -/
def Record.isPart (record : Record) : Bool :=
  match RecordKind.ofByte? record.id with
  | some .input | some .snapshot | some .signatureEnd => true
  | _ => false

/-- The program that a record names. -/
def Record.creator? (record : Record) : Option Creator :=
  match RecordKind.ofByte? record.id with
  | some .creator => (scanBody .creator scanCreator record.body).toOption
  | _ => none

/-- The program that the last one of some records names that names one. -/
def lastCreator (records : List Record) : Creator :=
  (records.filterMap Record.creator?).getLast?.getD {}

/-- A record that begins a signature is followed by one that ends it. -/
def SignaturesEnd : List Record → Prop
  | [] => True
  | record :: records =>
    (record.IsStart → ∃ ending ∈ records, ending.IsEnd) ∧ SignaturesEnd records

namespace Draft

variable {packer : Packer} {draft next final : Draft} {place : Nat} {record : Record}
variable {records : List Record}

/-- A record becomes one part or none. -/
theorem Adds.size (adds : draft.Adds packer place record next) :
    next.recording.parts.size = draft.recording.parts.size + record.isPart.toNat := by
  cases adds with
  | creator kind | signatureStart kind | unknown kind => simp [Record.isPart, kind]
  | signatureEnd kind | snapshot kind | input kind =>
      simp [Record.isPart, kind, push, pushPart]

theorem size_addRecords (added : addRecords packer place records draft = .ok final) :
    final.recording.parts.size =
      draft.recording.parts.size + records.countP Record.isPart := by
  induction records generalizing place draft with
  | nil =>
      obtain rfl := Except.ok.inj added
      simp
  | cons record records ih =>
      obtain ⟨next, first, others⟩ := bind_ok.mp added
      rw [ih others, (add_ok first).size, List.countP_cons]
      cases record.isPart <;> simp [Nat.add_comm, Nat.add_left_comm]

theorem Adds.creator_eq (adds : draft.Adds packer place record next) :
    next.recording.creator = record.creator?.getD draft.recording.creator := by
  cases adds with
  | creator kind read =>
      simp only [Record.creator?, kind, read]
      rfl
  | signatureStart kind | unknown kind => simp [Record.creator?, kind]
  | signatureEnd kind | snapshot kind | input kind =>
      simp [Record.creator?, kind, push, pushPart]

theorem creator_addRecords (added : addRecords packer place records draft = .ok final) :
    final.recording.creator =
      (records.filterMap Record.creator?).getLast?.getD draft.recording.creator := by
  induction records generalizing place draft with
  | nil =>
      obtain rfl := Except.ok.inj added
      rfl
  | cons record records ih =>
      obtain ⟨next, first, others⟩ := bind_ok.mp added
      rw [ih others, (add_ok first).creator_eq]
      cases named : record.creator? with
      | none => simp [List.filterMap_cons_none named]
      | some creator => simp [List.filterMap_cons_some named, List.getLast?_cons]

/-- No signature is left open when each one that begins, and one that had begun before,
ends. -/
theorem opened_addRecords (added : addRecords packer place records draft = .ok final) :
    final.opened = none ↔
      SignaturesEnd records ∧
      (draft.opened = none ∨ ∃ ending ∈ records, ending.IsEnd) := by
  induction records generalizing place draft with
  | nil =>
      obtain rfl := Except.ok.inj added
      simp [SignaturesEnd]
  | cons record records ih =>
      obtain ⟨next, first, others⟩ := bind_ok.mp added
      rw [ih others]
      simp only [SignaturesEnd, List.exists_mem_cons_iff]
      cases add_ok first with
      | creator kind | snapshot kind | input kind | unknown kind =>
          simp [Record.IsStart, Record.IsEnd, kind, push]
      | signatureStart kind =>
          have start : record.IsStart := kind
          have noEnd : ¬record.IsEnd := by simp [Record.IsEnd, kind]
          simp only [start, noEnd, forall_const, reduceCtorEq, false_or]
          constructor
          · rintro ⟨later, ended⟩
            exact ⟨⟨ended, later⟩, .inr ended⟩
          · rintro ⟨⟨ended, later⟩, -⟩
            exact ⟨later, ended⟩
      | signatureEnd kind =>
          simp [Record.IsStart, Record.IsEnd, kind]

end Draft

/-! ## The beginning of a file -/

/-- However a file goes on, the records at its front are read up to the place where it
breaks off. -/
theorem recordsFrom_front {size steps : Nat} {ahead : List UInt8}
    {before : Array (Nat × Record)}
    (enough : ahead.length ≤ steps) (inside : ahead.length ≤ size) :
    ∃ records rest, (∀ record ∈ records, record.Fits) ∧
      ahead = records.flatMap Record.octets ++ rest ∧
      (recordsFrom size steps ahead before).records =
        before ++ placed (size - ahead.length) records ∧
      ((recordsFrom size steps ahead before).failure = none → rest = []) := by
  induction steps generalizing ahead before with
  | zero =>
      obtain rfl : ahead = [] := List.length_eq_zero_iff.mp (Nat.le_zero.mp enough)
      exact ⟨[], [], List.forall_mem_nil _, rfl,
        by simp [recordsFrom, placed], fun _ => rfl⟩
  | succ steps ih =>
      cases ahead with
      | nil =>
          exact ⟨[], [], List.forall_mem_nil _, rfl,
            by simp [recordsFrom, placed], fun _ => rfl⟩
      | cons octet ahead =>
          cases scanned : scanRecord (octet :: ahead) with
          | error trace =>
              refine ⟨[], octet :: ahead, List.forall_mem_nil _, rfl, ?_, ?_⟩
              · simp [recordsFrom, scanned, placed]
              · intro whole
                simp [recordsFrom, scanned] at whole
          | ok answer =>
              obtain ⟨record, rest⟩ := answer
              obtain ⟨first, lengths, shorter⟩ :=
                recordsFrom_of_read scanned size steps before
              obtain ⟨records, left, fit, same, found, whole⟩ :=
                @ih rest (before.push (size - (octet :: ahead).length, record)) (by omega)
                  (by omega)
              obtain ⟨fits, split⟩ := scanRecord_ok_iff.mp scanned
              have place : size - rest.length =
                  size - (octet :: ahead).length + record.octets.length := by omega
              refine ⟨record :: records, left,
                List.forall_mem_cons.mpr ⟨fits, fit⟩, ?_, ?_, ?_⟩
              · rw [split, same, List.flatMap_cons, List.append_assoc]
              · rw [first, found, placed, place]
                simp
              · rw [first]
                exact whole

variable {packer : Packer} {front : Octets} {header : Header} {records : List Record}
variable {rest : List UInt8} {draft : Draft}

/-- What some of the records make is there when the rest is read. -/
theorem addRecords_front {place : Nat} {before after : List Record} {start : Draft}
    (added : Draft.addRecords packer place (before ++ after) start = .ok draft) :
    ∃ middle, Draft.addRecords packer place before start = .ok middle ∧
      middle.recording.parts.toList <+: draft.recording.parts.toList := by
  rw [Draft.addRecords_append] at added
  obtain ⟨middle, front, back⟩ := bind_ok.mp added
  exact ⟨middle, front, Draft.isPrefix_addRecords back⟩

/-- What is left of a file that makes a draft can only fail to be read because it breaks
off. -/
theorem read_error_of_front (version : header.major ≤ majorVersion)
    (fit : ∀ record ∈ records, record.Fits)
    (whole : front.toList ++ rest = header.octets ++ records.flatMap Record.octets)
    (added : Draft.addRecords packer 10 records {} = .ok draft) {error : Error}
    (failed : (read front packer).result = .error error) :
    ∃ cause, error = .corrupt cause := by
  simp only [read] at failed
  split at failed
  next =>
    cases failed
    exact ⟨_, rfl⟩
  next other ahead scanned =>
    have begins := scanHeader_ok_iff.mp scanned
    rw [begins, List.append_assoc] at whole
    obtain ⟨octets, seam⟩ := List.append_inj whole (by simp)
    rw [Header.eq_of_octets octets, if_neg (UInt8.not_lt.mpr version)] at failed
    obtain ⟨left, broken, fitLeft, split, found, -⟩ :=
      @recordsFrom_front front.toList.length ahead.length ahead #[] (Nat.le_refl _)
        (by rw [begins, List.length_append]; exact Nat.le_add_left _ _)
    have place : front.toList.length - ahead.length = 10 := by
      rw [begins, List.length_append, Header.length_octets, Nat.add_sub_cancel]
    rw [split, List.append_assoc] at seam
    obtain ⟨later, rfl, -⟩ := records_of_prefix fitLeft fit seam
    obtain ⟨middle, made, -⟩ := addRecords_front added
    have drafted :
        (Draft.addAll packer (recordsOf front.toList ahead).records.toList {} #[]).result =
          .ok middle := by
      rw [recordsOf, found, place, ← made, ← @Draft.addAll_placed _ _ _ _ #[]]
      simp
    unfold readRecords at failed
    simp only [drafted] at failed
    split at failed
    next impossible => cases impossible
    next =>
      cases failed
      exact ⟨_, rfl⟩
    next =>
      split at failed
      next =>
        cases failed
        exact ⟨_, rfl⟩
      next => cases failed

/-- What is left of a file that makes a draft is read exactly if it ends with the header
or with a record and leaves no signature open. -/
theorem read_front_ok_iff (version : header.major ≤ majorVersion)
    (fit : ∀ record ∈ records, record.Fits)
    (whole : front.toList ++ rest = header.octets ++ records.flatMap Record.octets)
    (added : Draft.addRecords packer 10 records {} = .ok draft) {part : Recording} :
    (read front packer).result = .ok part ↔
      ∃ count ≤ records.length,
        front.toList = header.octets ++ (records.take count).flatMap Record.octets ∧
        SignaturesEnd (records.take count) ∧
        Draft.addRecords packer 10 (records.take count) {} =
          .ok { recording := part } := by
  constructor
  · intro answered
    obtain ⟨other, left, ⟨fitLeft, ends⟩, -, addedLeft⟩ :=
      read_ok_iff_comprises.mp answered
    rw [ends, List.append_assoc] at whole
    obtain ⟨octets, seam⟩ := List.append_inj whole (by simp)
    obtain ⟨later, rfl, -⟩ := records_of_prefix fitLeft fit seam
    have signatures := ((Draft.opened_addRecords addedLeft).mp rfl).1
    refine ⟨left.length, by simp, ?_, ?_, ?_⟩
    · rw [ends, octets, List.take_left]
    · rwa [List.take_left]
    · rwa [List.take_left]
  · rintro ⟨count, -, ends, -, made⟩
    exact read_of_records header version
      (fun record member => fit record (List.mem_of_mem_take member)) ends made

/-- What is left of a file that can be read and breaks off is read exactly if it ends
with the header or with a record and every signature that begins in it ends in it. The
parts are then those of the records that are left, each with the place that it has in
the file, and the program is the last one that they name. Otherwise it is corrupt. -/
theorem read_brokenOff {file : Octets} {recording : Recording}
    (succeeded : (read file packer).result = .ok recording) :
    ∃ header : Header, ∃ records : List Record, (∀ record ∈ records, record.Fits) ∧
      file.toList = header.octets ++ records.flatMap Record.octets ∧
      recording.parts.size = records.countP Record.isPart ∧
      ∀ front back : Octets, file = front ++ back →
        (∀ part, (read front packer).result = .ok part → ∃ count ≤ records.length,
          front.toList = header.octets ++ (records.take count).flatMap Record.octets ∧
          SignaturesEnd (records.take count) ∧
          part.parts.toList =
            recording.parts.toList.take ((records.take count).countP Record.isPart) ∧
          part.creator = lastCreator (records.take count)) ∧
        (∀ count ≤ records.length,
          front.toList = header.octets ++ (records.take count).flatMap Record.octets →
          SignaturesEnd (records.take count) → ∃ part, (read front packer).result = .ok part) ∧
        (∀ error, (read front packer).result = .error error → ∃ cause, error = .corrupt cause) := by
  obtain ⟨draft, made, closed, rfl⟩ := read_ok_iff.mp succeeded
  obtain ⟨header, records, version, fit, whole, added⟩ := draft?_eq_some_iff.mp made
  refine ⟨header, records, fit, whole, ?_, ?_⟩
  · simpa using Draft.size_addRecords added
  rintro front back rfl
  rw [Array.toList_append] at whole
  have addedFront (count : Nat) : ∃ middle,
      Draft.addRecords packer 10 (records.take count) {} = .ok middle ∧
        middle.recording.parts.toList <+: draft.recording.parts.toList := by
    rw [← List.take_append_drop count records] at added
    exact addRecords_front added
  refine ⟨?_, ?_, ?_⟩
  · intro part answered
    obtain ⟨count, few, ends, signatures, left⟩ :=
      (read_front_ok_iff version fit whole added).mp answered
    obtain ⟨middle, again, longer⟩ := addedFront count
    obtain rfl := Except.ok.inj (left.symm.trans again)
    refine ⟨count, few, ends, signatures, ?_, Draft.creator_addRecords left⟩
    have size := Draft.size_addRecords left
    rw [List.prefix_iff_eq_take.mp longer, Array.length_toList, size]
    simp
  · intro count few ends signatures
    obtain ⟨⟨part, opened⟩, left, -⟩ := addedFront count
    obtain rfl : opened = none :=
      (Draft.opened_addRecords left).mpr ⟨signatures, .inl rfl⟩
    exact ⟨part, (read_front_ok_iff version fit whole added).mpr
      ⟨count, few, ends, signatures, left⟩⟩
  · intro error failed
    exact read_error_of_front version fit whole added failed

/-- A signed file that breaks off behind the input block that is signed is corrupt, for
the signature that begins in it does not end. -/
theorem read_brokenOff_attested :
    (read attested).result =
      .ok { parts := attestedParts.push (.signature attestation) } ∧
    (read (attested.extract 0 10)).result.toBool = true ∧
    ∃ cause, (read (attested.extract 0 46)).result = .error (.corrupt cause) := by
  have succeeded : (read attested).result =
      .ok { parts := attestedParts.push (.signature attestation) } :=
    (readVerified_ok_iff.mp readVerified_attested).1
  obtain ⟨header, records, -, -, -, cuts⟩ := read_brokenOff succeeded
  obtain ⟨-, -, corrupt⟩ := cuts (attested.extract 0 46) (attested.extract 46) (by decide)
  have bare : (read (attested.extract 0 10)).result.toBool = true := by decide +kernel
  have broken : (read (attested.extract 0 46)).result.toBool = false := by decide +kernel
  refine ⟨succeeded, bare, ?_⟩
  cases answered : (read (attested.extract 0 46)).result with
  | ok part =>
      rw [answered] at broken
      cases broken
  | error error =>
      obtain ⟨cause, rfl⟩ := corrupt error answered
      exact ⟨cause, rfl⟩

end ZxMedia.Recording
