import ZxMedia.Proofs.FileType.Identify
import ZxMedia.Proofs.FileType.Name

/-!
# The order of the table does not matter

An entry has points for the extension of the name and for a signature in the content.
`Entry.points` says so of the name and the content themselves, and
`Entry.points_eq_score` that the scores are these points. A type prevails if the highest
number of points is positive and only its entries reach it. That is a matter of which
entries there are and not of how they stand, and so is the type of a file.
-/

namespace ZxMedia.FileType

variable {content : Octets} {name : Option String} {type : FileType}

/-! ## Points -/

/-- The octets of a signature stand at their place in the content. -/
def Signature.StandsIn (signature : Signature) (content : Octets) : Prop :=
  ∃ front back, content.toList = front ++ signature.octets ++ back ∧
    front.length = signature.offset

theorem Signature.standsIn_iff {signature : Signature} :
    signature.StandsIn content ↔
      signature.offset + signature.octets.length ≤ content.size ∧
        signature.matches content = true := by
  have found : signature.matches content = true ↔
      (content.toList.drop signature.offset).take signature.octets.length =
        signature.octets := by
    simp [Signature.matches]
  rw [found, ← Array.length_toList]
  constructor
  · rintro ⟨front, back, whole, place⟩
    rw [whole, ← place]
    simp
  · rintro ⟨inside, taken⟩
    have behind := List.take_append_drop signature.octets.length
      (content.toList.drop signature.offset)
    rw [taken] at behind
    refine ⟨content.toList.take signature.offset,
      (content.toList.drop signature.offset).drop signature.octets.length, ?_, ?_⟩
    · rw [List.append_assoc, behind, List.take_append_drop]
    · rw [List.length_take]
      omega

instance (signature : Signature) (content : Octets) :
    Decidable (signature.StandsIn content) :=
  decidable_of_iff _ Signature.standsIn_iff.symm

instance (name extension : String) : Decidable (FileName.HasExtension name extension) :=
  decidable_of_iff _ FileName.extension?_eq_some_iff

/-- The points of an entry for a file. -/
def Entry.points (entry : Entry) (content : Octets) (name : Option String) : Nat :=
  (if ∃ own ∈ name, FileName.HasExtension own entry.extension then entry.extensionScore else 0) +
    match entry.signature with
    | some signature => if signature.StandsIn content then signature.score else 0
    | none => 0

theorem Entry.points_eq_score {entry : Entry}
    (long : ∀ signature ∈ entry.signature, signature.octets ≠ []) :
    entry.points content name = entry.score content (name.bind FileName.extension?) := by
  have named : (∃ own ∈ name, FileName.HasExtension own entry.extension) ↔
      name.bind FileName.extension? = some entry.extension := by
    simp only [← FileName.extension?_eq_some_iff, Option.bind_eq_some_iff, Option.mem_def]
  unfold Entry.points Entry.score
  dsimp only
  simp only [named]
  cases signed : entry.signature with
  | none => rfl
  | some signature =>
      have stands : signature.StandsIn content ↔ signature.matches content = true := by
        rw [Signature.standsIn_iff, and_iff_right_iff_imp]
        intro found
        have same := congrArg List.length (beq_iff_eq.mp found)
        have some := List.length_pos_iff.mpr (long signature signed)
        simp only [Array.length_toList, Array.size_extract] at same
        omega
      simp only [stands]

/-! ## Prevailing -/

/-- The highest number of points is positive, and all entries that reach it are of a
type. -/
def Prevails (table : List Entry) (content : Octets) (name : Option String)
    (type : FileType) : Prop :=
  ∃ most, (table.map fun entry => entry.points content name).max? = some most ∧ 0 < most ∧
    ∀ entry ∈ table, entry.points content name = most → entry.type = type

theorem prevails_iff_wins :
    Prevails entries content name type ↔
      Wins entries content (name.bind FileName.extension?) type := by
  have long : ∀ entry ∈ entries, ∀ signature ∈ entry.signature, signature.octets ≠ [] := by decide
  have scores : ∀ entry ∈ entries,
      entry.points content name = entry.score content (name.bind FileName.extension?) :=
    fun entry mem => Entry.points_eq_score (long entry mem)
  simp only [Prevails, List.max?_eq_some_iff, List.mem_map, forall_exists_index,
    and_imp, forall_apply_eq_imp_iff₂]
  constructor
  · rintro ⟨most, ⟨⟨winner, mem, reaches⟩, bound⟩, positive, agrees⟩
    rw [scores winner mem] at reaches
    refine ⟨winner, mem, by omega, fun entry other => ?_⟩
    have least := bound entry other
    have same := agrees entry other
    rw [scores entry other] at least same
    exact ⟨by omega, fun level => same (by omega)⟩
  · rintro ⟨winner, mem, positive, wins⟩
    refine ⟨_, ⟨⟨winner, mem, scores winner mem⟩, fun entry other => ?_⟩, positive,
      fun entry other level => ?_⟩
    · rw [scores entry other]
      exact (wins entry other).1
    · rw [scores entry other] at level
      exact (wins entry other).2 level

theorem identify_iff_prevails :
    type ≠ unknown ∧ identify content name = type ↔
      Prevails entries content name type := by
  rw [prevails_iff_wins]
  constructor
  · rintro ⟨known, identified⟩
    exact (identify_eq_iff known).mp identified
  · intro wins
    obtain ⟨winner, mem, -, all⟩ := id wins
    have known : type ≠ unknown := (all winner mem).2 rfl ▸ type_ne_unknown winner mem
    exact ⟨known, (identify_eq_iff known).mpr wins⟩

/-! ## Order -/

theorem Wins.perm {table reordered : List Entry} {extension : Option String}
    (same : table.Perm reordered) (wins : Wins table content extension type) :
    Wins reordered content extension type := by
  obtain ⟨winner, mem, positive, wins⟩ := wins
  exact ⟨winner, same.mem_iff.mp mem, positive, fun entry other =>
    wins entry (same.mem_iff.mpr other)⟩

/-- Tables of the same entries tell the same type. -/
theorem identifyAmong_perm {table reordered : List Entry} (same : table.Perm reordered) :
    identifyAmong table content name = identifyAmong reordered content name := by
  by_cases known : identifyAmong table content name = unknown
  · by_contra differs
    have other : identifyAmong reordered content name ≠ unknown := by
      rw [← known]
      exact Ne.symm differs
    exact differs ((identifyAmong_eq_iff other).mpr (((identifyAmong_eq_iff other).mp rfl).perm
      same.symm))
  · exact ((identifyAmong_eq_iff known).mpr (((identifyAmong_eq_iff known).mp rfl).perm same)).symm

/-- The type of a file is the one that prevails, it is unknown if none does, and the
order of the table does not matter. -/
theorem identify_prevails (content : Octets) (name : Option String) :
    (∀ type, type ≠ unknown ∧ identify content name = type ↔
      Prevails entries content name type) ∧
    (identify content name = unknown ↔ ∀ type, ¬ Prevails entries content name type) ∧
    ∀ table, table.Perm entries →
      identifyAmong table content name = identify content name := by
  refine ⟨fun type => identify_iff_prevails,
    ⟨fun none type prevails => ?_, fun none => ?_⟩,
    fun table same => identifyAmong_perm same⟩
  · obtain ⟨known, identified⟩ := identify_iff_prevails.mpr prevails
    exact known (identified.symm.trans none)
  · by_contra known
    exact none _ (identify_iff_prevails.mp ⟨known, rfl⟩)

/-- What may be a tape of two types by its content is told by its name, also from the
last entry of the table to the first. -/
theorem identify_prevails_backwards :
    entries.reverse.Perm entries ∧
      identifyAmong entries.reverse #[0x13, 0, 0] (some "dir.tap/X.LTP") = ltp ∧
      Prevails entries #[0x13, 0, 0] (some "dir.tap/X.LTP") ltp := by
  obtain ⟨prevails, -, reordered⟩ :=
    identify_prevails #[0x13, 0, 0] (some "dir.tap/X.LTP")
  have identified :
      identify #[0x13, 0, 0] (some "dir.tap/X.LTP") = ltp := by decide +kernel
  have backwards := entries.reverse_perm
  exact ⟨backwards, (reordered _ backwards).trans identified,
    (prevails ltp).mp ⟨by decide, identified⟩⟩

end ZxMedia.FileType
