import Mathlib
import ZxMedia.FileType.Identify

/-!
# The type that scores best

The entries are looked at one after another, and a `Standing` is kept of those seen so
far. It is the best of them (`Standing.Best`) at any time, so the type of a file is the
one that all entries with the highest score agree on (`identify_eq_iff`), in whatever
order they stand.

A signature can score more than an extension. What is in a file can therefore be taken
for something else than its name says, and for tapes the signatures that do so are
listed in `tapRivals`.
-/

namespace ZxMedia.FileType

variable {content : Octets} {extension : Option String} {entry : Entry}

/-! ## Scores -/

theorem Signature.matches_of_front {signature : Signature} (front : signature.offset = 0)
    {rest : List UInt8} (begins : content.toList = signature.octets ++ rest) :
    signature.matches content = true := by
  unfold Signature.matches
  dsimp only
  rw [front, Array.toList_extract, begins]
  simp

/-- What an entry scores for an extension alone. -/
def Entry.named (entry : Entry) (extension : Option String) : Nat :=
  if extension = some entry.extension then entry.extensionScore else 0

theorem Entry.score_of_matches (extension : Option String) {signature : Signature}
    (signed : entry.signature = some signature)
    (found : signature.matches content = true) :
    entry.score content extension = entry.named extension + signature.score := by
  simp [Entry.score, Entry.named, signed, found]

theorem Entry.score_of_not_matches
    (absent : ∀ signature ∈ entry.signature, signature.matches content = false) :
    entry.score content extension = entry.named extension := by
  unfold Entry.score Entry.named
  cases signed : entry.signature with
  | none => simp
  | some signature => simp [absent signature signed]

/-- An entry scores for its extension alone, or for its signature too. -/
theorem Entry.score_cases (entry : Entry) (content : Octets) (extension : Option String) :
    entry.score content extension = entry.named extension ∨
      ∃ signature, entry.signature = some signature ∧ signature.matches content = true ∧
        entry.score content extension = entry.named extension + signature.score := by
  by_cases found : ∃ signature ∈ entry.signature, signature.matches content = true
  · obtain ⟨signature, signed, found⟩ := found
    exact .inr ⟨signature, signed, found, score_of_matches extension signed found⟩
  · push Not at found
    exact .inl (score_of_not_matches fun signature signed => by simpa using found signature signed)

theorem Entry.named_le_score (entry : Entry) (content : Octets)
    (extension : Option String) :
    entry.named extension ≤ entry.score content extension :=
  Nat.le_add_right _ _

/-! ## The best entry -/

/-- A standing is the best of the entries that were seen. -/
structure Standing.Best (content : Octets) (extension : Option String) (seen : List Entry)
    (standing : Standing) : Prop where
  bound : ∀ entry ∈ seen, entry.score content extension ≤ standing.score
  reached : standing.score = 0 ∧ standing.type = unknown ∨
    0 < standing.score ∧ ∃ entry ∈ seen,
      entry.score content extension = standing.score ∧ entry.type = standing.type
  tied : standing.tie = true ↔ 0 < standing.score ∧ ∃ entry ∈ seen,
    entry.score content extension = standing.score ∧ entry.type ≠ standing.type

namespace Standing.Best

variable {seen : List Entry} {standing : Standing}

theorem blank (content : Octets) (extension : Option String) :
    Best content extension [] {} where
  bound := List.forall_mem_nil _
  reached := .inl ⟨rfl, rfl⟩
  tied := by simp

/-- An entry that scores more than all others takes the lead. -/
theorem lead (best : Best content extension seen standing)
    (more : standing.score < entry.score content extension) :
    Best content extension (seen ++ [entry])
      { type := entry.type, score := entry.score content extension } := by
  have below :
      ∀ other ∈ seen, other.score content extension < entry.score content extension :=
    fun other mem => (best.bound other mem).trans_lt more
  constructor
  case bound =>
    simp only [List.forall_mem_append, List.forall_mem_singleton]
    exact ⟨fun other mem => (below other mem).le, le_rfl⟩
  case reached => exact .inr ⟨Nat.zero_lt_of_lt more, entry, by simp, rfl, rfl⟩
  case tied =>
    simp only [Bool.false_eq_true, false_iff, not_and, not_exists, List.mem_append,
      List.mem_singleton]
    rintro - other (mem | rfl) same
    · exact absurd same (below other mem).ne
    · simp

/-- An entry of another type that scores as much makes a tie. -/
theorem tie (best : Best content extension seen standing)
    (same : entry.score content extension = standing.score)
    (positive : 0 < standing.score)
    (differs : entry.type ≠ standing.type) :
    Best content extension (seen ++ [entry]) { standing with tie := true } := by
  constructor
  case bound =>
    simp only [List.forall_mem_append, List.forall_mem_singleton]
    exact ⟨best.bound, same.le⟩
  case reached =>
    obtain ⟨zero, -⟩ | ⟨-, winner, mem, wins⟩ := best.reached
    · exact absurd zero positive.ne'
    · exact .inr ⟨positive, winner, by simp [mem], wins⟩
  case tied =>
    simp only [true_iff]
    exact ⟨positive, entry, by simp, same, differs⟩

/-- Any other entry changes nothing. -/
theorem keep (best : Best content extension seen standing)
    (less : entry.score content extension ≤ standing.score)
    (agrees : 0 < standing.score → entry.score content extension = standing.score →
      entry.type = standing.type) :
    Best content extension (seen ++ [entry]) standing := by
  constructor
  case bound =>
    simp only [List.forall_mem_append, List.forall_mem_singleton]
    exact ⟨best.bound, less⟩
  case reached =>
    obtain blank | ⟨positive, winner, mem, wins⟩ := best.reached
    · exact .inl blank
    · exact .inr ⟨positive, winner, by simp [mem], wins⟩
  case tied =>
    rw [best.tied]
    apply and_congr_right
    intro positive
    constructor
    · rintro ⟨other, mem, differs⟩
      exact ⟨other, by simp [mem], differs⟩
    · rintro ⟨other, mem, same, differs⟩
      rw [List.mem_append, List.mem_singleton] at mem
      obtain mem | rfl := mem
      · exact ⟨other, mem, same, differs⟩
      · exact absurd (agrees positive same) differs

theorem consider (best : Best content extension seen standing) (entry : Entry) :
    Best content extension (seen ++ [entry]) (standing.consider content extension entry) := by
  unfold Standing.consider
  dsimp only
  split
  next more => exact best.lead more
  next notMore =>
    have less := not_lt.mp notMore
    split
    next ties =>
      obtain ⟨same, positive, differs⟩ := ties
      exact best.tie same (by omega) differs
    next noTie =>
      apply best.keep less
      intro positive same
      by_contra differs
      exact noTie ⟨same, by omega, differs⟩

theorem foldl (best : Best content extension seen standing) (later : List Entry) :
    Best content extension (seen ++ later)
      (later.foldl (Standing.consider content extension) standing) := by
  induction later generalizing seen standing with
  | nil => simpa using best
  | cons entry later ih => simpa using ih (best.consider entry)

end Standing.Best

/-- All entries that score best are of a type, and there are some. -/
def Wins (entries : List Entry) (content : Octets) (extension : Option String)
    (type : FileType) : Prop :=
  ∃ winner ∈ entries, 0 < winner.score content extension ∧ ∀ entry ∈ entries,
    entry.score content extension ≤ winner.score content extension ∧
      (entry.score content extension = winner.score content extension → entry.type = type)

/-- The type of a file by a table is the one that wins in it. -/
theorem identifyAmong_eq_iff {table : List Entry} {name : Option String} {type : FileType}
    (known : type ≠ unknown) :
    identifyAmong table content name = type ↔
      Wins table content (name.bind FileName.extension?) type := by
  have best := (Standing.Best.blank content (name.bind FileName.extension?)).foldl table
  rw [List.nil_append] at best
  unfold identifyAmong
  dsimp only
  generalize table.foldl _ _ = standing at best ⊢
  obtain ⟨bound, reached, tied⟩ := best
  constructor
  · intro identified
    split at identified
    next => exact absurd identified.symm known
    next noTie =>
      obtain rfl := identified
      obtain ⟨-, none⟩ | ⟨above, winner, mem, same, -⟩ := reached
      · exact absurd none known
      · refine ⟨winner, mem, by omega, fun entry other => ⟨?_, fun level => ?_⟩⟩
        · rw [same]
          exact bound entry other
        by_contra differs
        exact noTie (tied.mpr ⟨above, entry, other, level.trans same, differs⟩)
  · rintro ⟨winner, mem, positive, wins⟩
    have least := bound winner mem
    obtain ⟨zero, -⟩ | ⟨-, leader, there, same, leads⟩ := reached
    · omega
    · have level :
          standing.score = winner.score content (name.bind FileName.extension?) :=
        le_antisymm (same ▸ (wins leader there).1) least
      have type : standing.type = type := by
        rw [← leads]
        exact (wins leader there).2 (same.trans level)
      have noTie : ¬ standing.tie = true := by
        rw [tied]
        rintro ⟨-, entry, other, reaches, differs⟩
        exact differs (((wins entry other).2 (reaches.trans level)).trans type.symm)
      rw [if_neg noTie, type]

/-- The type of a file is the one that wins. -/
theorem identify_eq_iff {name : Option String} {type : FileType}
    (known : type ≠ unknown) :
    identify content name = type ↔
      Wins entries content (name.bind FileName.extension?) type :=
  identifyAmong_eq_iff known

theorem type_ne_unknown : ∀ entry ∈ entries, entry.type ≠ unknown := by
  decide

/-- A file is of the type of an entry that scores more than all other ones. -/
theorem identify_of_above {name : Option String} {winner : Entry} (mem : winner ∈ entries)
    (positive : 0 < winner.score content (name.bind FileName.extension?))
    (above : ∀ entry ∈ entries, entry = winner ∨
      entry.score content (name.bind FileName.extension?) <
        winner.score content (name.bind FileName.extension?)) :
    identify content name = winner.type := by
  apply (identify_eq_iff (type_ne_unknown winner mem)).mpr
  refine ⟨winner, mem, positive, fun entry other => ?_⟩
  obtain rfl | below := above entry other
  · exact ⟨le_rfl, fun _ => rfl⟩
  · exact ⟨below.le, fun level => absurd level below.ne⟩

/-! ## Tapes -/

/-- The entry of TAP files. -/
def tapEntry : Entry :=
  .signed tap "tap" 3 [0x13, 0, 0] 0 1

/-- The signatures that outscore the extension of TAP files. -/
def tapRivals : List Signature :=
  [⟨ascii "RZX!", 0, 4⟩, ⟨ascii "ZXST", 0, 4⟩, ⟨ascii "SNAP", 8, 4⟩, ⟨ascii "ZXTape!\x1a", 0, 4⟩,
    ⟨[0xFF, 0xFF, 0xFF, 0xFF], 8, 2⟩, ⟨ascii "MV - CPC", 0, 4⟩, ⟨ascii "EXTENDED", 0, 4⟩,
    ⟨ascii "SINCLAIR", 0, 4⟩, ⟨ascii "BZh", 0, 4⟩, ⟨[0x1F, 0x8B], 0, 4⟩,
    ⟨ascii "Compressed Square Wave\x1a", 0, 4⟩]

/-- A file with the extension of TAP files is taken for one unless it has one of the
signatures that outscore it. -/
theorem identify_tap {name : Option String}
    (named : name.bind FileName.extension? = some "tap") :
    identify content name = tap ↔ ∀ rival ∈ tapRivals, rival.matches content = false := by
  constructor
  · intro identified rival listed
    -- A TAP file scores 4 at most, and a rival scores as much without any extension.
    have taps : ∀ entry ∈ entries, entry.type = tap → entry.named (some "tap") ≤ 3 ∧
        ∀ signature ∈ entry.signature, signature.score ≤ 1 := by decide
    have rivals : ∀ rival ∈ tapRivals, ∃ entry ∈ entries, entry.signature = some rival ∧
        entry.type ≠ tap ∧ 4 ≤ entry.named (some "tap") + rival.score := by decide
    obtain ⟨winner, mem, -, wins⟩ := (identify_eq_iff (by decide)).mp identified
    rw [named] at wins
    obtain ⟨plain, signed⟩ := taps winner mem ((wins winner mem).2 rfl)
    have most : winner.score content (some "tap") ≤ 4 := by
      obtain score | ⟨signature, has, -, score⟩ := winner.score_cases content (some "tap")
      · omega
      · have one := signed signature has
        omega
    obtain ⟨entry, other, has, differs, reaches⟩ := rivals rival listed
    by_contra found
    have score := Entry.score_of_matches (some "tap") has (by simpa using found)
    obtain ⟨least, agrees⟩ := wins entry other
    exact differs (agrees (by omega))
  · intro absent
    have rest : ∀ entry ∈ entries, entry = tapEntry ∨ entry.named (some "tap") < 3 ∧
        ∀ signature ∈ entry.signature,
          signature ∈ tapRivals ∨ entry.named (some "tap") + signature.score < 3 := by decide
    have least : 3 ≤ tapEntry.score content (some "tap") :=
      tapEntry.named_le_score content (some "tap")
    apply @identify_of_above content name tapEntry (by decide)
    · rw [named]
      omega
    · rw [named]
      intro entry mem
      obtain same | ⟨plain, signed⟩ := rest entry mem
      · exact .inl same
      · right
        obtain score | ⟨signature, has, found, score⟩ :=
          entry.score_cases content (some "tap")
        · omega
        · obtain listed | low := signed signature has
          · rw [absent signature listed] at found
            cases found
          · omega

/-! ## Signatures and extensions that agree -/

/-- A file with the extension and the signature of an entry is of its type, if no other
entry has the extension or a signature that scores as much as both. -/
theorem identify_of_agreeing {name : Option String} {winner : Entry}
    {signature : Signature}
    (mem : winner ∈ entries) (has : winner.signature = some signature)
    (alone : ∀ entry ∈ entries, entry = winner ∨ entry.named (some winner.extension) = 0 ∧
      ∀ other ∈ entry.signature, other.score < winner.extensionScore + signature.score)
    (named : name.bind FileName.extension? = some winner.extension)
    (signed : signature.matches content = true) (positive : 0 < winner.extensionScore) :
    identify content name = winner.type := by
  have most : winner.score content (some winner.extension) =
      winner.extensionScore + signature.score := by
    rw [Entry.score_of_matches _ has signed, Entry.named, if_pos rfl]
  apply @identify_of_above content name winner mem
  · rw [named]
    omega
  · rw [named]
    intro entry other
    obtain same | ⟨plain, low⟩ := alone entry other
    · exact .inl same
    · right
      obtain score | ⟨signature, has, -, score⟩ :=
        entry.score_cases content (some winner.extension)
      · omega
      · have less := low signature has
        omega

/-- The signature of TZX files. -/
def tzxSignature : Signature :=
  ⟨ascii "ZXTape!\x1a", 0, 4⟩

/-- The entry of TZX files. -/
def tzxEntry : Entry :=
  { type := tzx, extension := "tzx", extensionScore := 3, signature := some tzxSignature }

theorem identify_tzx {name : Option String}
    (named : name.bind FileName.extension? = some "tzx")
    (signed : tzxSignature.matches content = true) : identify content name = tzx :=
  @identify_of_agreeing content name tzxEntry tzxSignature (by decide) rfl (by decide) named signed
    (by decide)

/-- The signature of gzip files. -/
def gzSignature : Signature :=
  ⟨[0x1F, 0x8B], 0, 4⟩

/-- The entry of gzip files. -/
def gzEntry : Entry :=
  { type := gz, extension := "gz", extensionScore := 3, signature := some gzSignature }

theorem identify_gz {name : Option String}
    (named : name.bind FileName.extension? = some "gz")
    (signed : gzSignature.matches content = true) : identify content name = gz :=
  @identify_of_agreeing content name gzEntry gzSignature (by decide) rfl (by decide) named signed
    (by decide)

end ZxMedia.FileType
