import ZxMedia.Error
import ZxMedia.Proofs.Scan

/-!
# What is written is read back

An encoder may refuse a value, and a scanner may read something else than what was
written. A scanner undoes an encoder if it reads whatever the encoder gives as the image
of the value that was written; for most values the image is the value itself.

What an encoder refuses is told by a condition (`SucceedsIff`), and the condition of
several encoders one after another is that of all of them.
-/

namespace ZxMedia

variable {α β ε : Type}

/-- A step and what follows it succeed exactly if each of them does. -/
theorem bind_ok {first : Except ε α} {next : α → Except ε β} {answer : β} :
    (first >>= next) = .ok answer ↔
      ∃ value, first = .ok value ∧ next value = .ok answer := by
  cases first with
  | error error =>
      constructor
      · intro failed
        cases failed
      · rintro ⟨value, failed, -⟩
        cases failed
  | ok value =>
      constructor
      · intro succeeded
        exact ⟨value, rfl, succeeded⟩
      · rintro ⟨_, ⟨⟩, succeeded⟩
        exact succeeded

theorem ok_bind (value : α) (next : α → Except ε β) :
    (.ok value >>= next) = next value := rfl

@[simp] theorem pure_ok {value answer : α} :
    (pure value : Except ε α) = .ok answer ↔ value = answer := by
  change Except.ok value = Except.ok answer ↔ _
  rw [Except.ok.injEq]

/-- What encoders write one after another are the pieces that each of them writes. -/
theorem appendAll_ok {encode : α → Except Error Octets} {values : List α}
    {before octets : Octets} :
    values.foldlM (fun written value => do return written ++ (← encode value)) before =
      .ok octets ↔
      ∃ pieces : List (List UInt8),
        List.Forall₂ (fun value piece => encode value = .ok piece.toArray) values pieces ∧
          octets.toList = before.toList ++ pieces.flatten := by
  induction values generalizing before with
  | nil =>
      simp only [List.foldlM_nil, pure_ok, List.forall₂_nil_left_iff, exists_eq_left,
        List.flatten_nil, List.append_nil, Array.toList_inj]
      exact eq_comm
  | cons value values ih =>
      simp only [List.foldlM_cons, bind_ok, pure_ok]
      constructor
      · rintro ⟨_, ⟨octets, first, rfl⟩, others⟩
        obtain ⟨pieces, each, whole⟩ := ih.mp others
        refine ⟨octets.toList :: pieces, .cons (by simpa using first) each, ?_⟩
        rw [whole, Array.toList_append, List.flatten_cons, List.append_assoc]
      · rintro ⟨_, every, whole⟩
        cases every with
        | @cons _ piece _ pieces first each =>
            refine ⟨_, ⟨_, first, rfl⟩, ih.mpr ⟨pieces, each, ?_⟩⟩
            rw [whole, Array.toList_append, List.flatten_cons, List.append_assoc]

/-- Values are only written one after another if each of them can be written. -/
theorem encoded_of_appendAll {encode : α → Except Error Octets} {values : List α}
    {before octets : Octets}
    (written : values.foldlM (fun written value => do return written ++ (← encode value)) before =
      .ok octets) :
    ∀ value ∈ values, ∃ piece, encode value = .ok piece := by
  obtain ⟨pieces, each, -⟩ := appendAll_ok.mp written
  clear written
  induction each with
  | nil => exact List.forall_mem_nil _
  | cons first each ih => exact List.forall_mem_cons.mpr ⟨⟨_, first⟩, ih⟩

/-- Values that are written one after another take as many octets as all of them
together. -/
theorem size_appendAll {encode : α → Except Error Octets} {extent : α → Nat}
    (each : ∀ value piece, encode value = .ok piece → piece.size = extent value)
    {values : List α} {before octets : Octets}
    (written : values.foldlM (fun written value => do return written ++ (← encode value)) before =
      .ok octets) :
    octets.size = before.size + (values.map extent).sum := by
  induction values generalizing before with
  | nil =>
      obtain rfl := Except.ok.inj written
      rfl
  | cons value values ih =>
      simp only [List.foldlM_cons, bind_ok, pure_ok] at written
      obtain ⟨_, ⟨piece, first, rfl⟩, later⟩ := written
      rw [ih later, Array.size_append, each value piece first,
        List.map_cons, List.sum_cons, Nat.add_assoc]

/-- Values are written one after another if each of them can be written. -/
theorem appendAll_of_encoded {encode : α → Except Error Octets} {values : List α}
    (each : ∀ value ∈ values, ∃ piece, encode value = .ok piece) (before : Octets) :
    ∃ octets, values.foldlM (fun written value => do return written ++ (← encode value)) before =
      .ok octets := by
  induction values generalizing before with
  | nil => exact ⟨before, rfl⟩
  | cons value values ih =>
      rw [List.forall_mem_cons] at each
      obtain ⟨⟨piece, first⟩, others⟩ := each
      obtain ⟨octets, later⟩ := ih others (before ++ piece)
      refine ⟨octets, ?_⟩
      rw [List.foldlM_cons, first]
      exact later

/-! ## What can be written -/

/-- There is an answer exactly under a condition, and otherwise the data is at fault. -/
def SucceedsIff (result : Except Error α) (condition : Prop) : Prop :=
  match result with
  | .ok _ => condition
  | .error error => ¬condition ∧ ∃ cause, error = .corrupt cause

namespace SucceedsIff

variable {result : Except Error α} {condition : Prop}

theorem exists_ok_iff (succeeds : SucceedsIff result condition) :
    (∃ value, result = .ok value) ↔ condition := by
  cases result with
  | ok value => exact ⟨fun _ => succeeds, fun _ => ⟨value, rfl⟩⟩
  | error error =>
      constructor
      · rintro ⟨_, ⟨⟩⟩
      · exact fun holds => absurd holds succeeds.1

theorem corrupt {error : Error} (succeeds : SucceedsIff result condition)
    (failed : result = .error error) : ∃ cause, error = .corrupt cause := by
  rw [failed] at succeeds
  exact succeeds.2

theorem last (succeeds : SucceedsIff result condition) (next : α → β) :
    SucceedsIff (do return next (← result)) condition := by
  cases result with
  | ok value => exact succeeds
  | error error => exact succeeds

/-- A step and what follows it succeed exactly if each of them does. What follows is
only asked for what the step gives. -/
theorem bind {next : α → Except Error β} {later : Prop}
    (succeeds : SucceedsIff result condition)
    (follows : ∀ value, result = .ok value → SucceedsIff (next value) later) :
    SucceedsIff (result >>= next) (condition ∧ later) := by
  cases result with
  | error error => exact ⟨fun both => succeeds.1 both.1, succeeds.2⟩
  | ok value =>
      have rest := follows value rfl
      rw [ok_bind]
      cases answered : next value with
      | error error =>
          rw [answered] at rest
          exact ⟨fun both => rest.1 both.2, rest.2⟩
      | ok answer =>
          rw [answered] at rest
          exact ⟨succeeds, rest⟩

/-- Values are written one after another exactly if each of them can be written. -/
theorem appendAll {encode : α → Except Error Octets} {Fits : α → Prop}
    (each : ∀ value, SucceedsIff (encode value) (Fits value)) (values : List α)
    (before : Octets) :
    SucceedsIff
      (values.foldlM (fun written value => do return written ++ (← encode value)) before)
      (∀ value ∈ values, Fits value) := by
  induction values generalizing before with
  | nil => exact List.forall_mem_nil _
  | cons value values ih =>
      rw [List.foldlM_cons, List.forall_mem_cons]
      exact ((each value).last _).bind fun written _ => ih written

end SucceedsIff

namespace Scan

/-- What an encoder writes of a value is read as the image of the value. -/
def Undoes (scan : Scan β) (encode : α → Except Error Octets) (image : α → β) : Prop :=
  ∀ value octets, encode value = .ok octets → scan.Reads octets.toList (image value)

/-- The pieces that an encoder writes of some values are read as the images of the
values. -/
theorem Undoes.pieces {scan : Scan β} {encode : α → Except Error Octets} {image : α → β}
    (undoes : scan.Undoes encode image) {values : List α} {pieces : List (List UInt8)}
    (each : List.Forall₂ (fun value piece => encode value = .ok piece.toArray) values pieces) :
    List.Forall₂ scan.Reads pieces (values.map image) := by
  rw [List.forall₂_map_right_iff]
  exact (each.imp fun value piece written => undoes value piece.toArray written).flip

end Scan

end ZxMedia
