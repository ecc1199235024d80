import ZxMedia.Proofs.Tzx.Pieces

/-!
# TZX files that break off

A file is made of pieces in one way only, because every piece tells where it ends. What
is left of a file that breaks off is therefore read only if it ends where a piece does,
and then as the blocks in front of that place. Everywhere else, in the header or in the
middle of a piece, it is unreadable.
-/

namespace ZxMedia.Tzx

open Scan (Reads)

/-- Octets are made of pieces in one way: pieces at their front are the first ones. -/
theorem pieces_of_front {front pieces : List (List UInt8)} {taken items : List Item}
    (eachFront : List.Forall₂ scanItem.Reads front taken)
    (each : List.Forall₂ scanItem.Reads pieces items) {rest : List UInt8}
    (same : front.flatten ++ rest = pieces.flatten) :
    ∃ later others, pieces = front ++ later ∧ items = taken ++ others := by
  induction eachFront generalizing pieces items with
  | nil => exact ⟨pieces, items, rfl, rfl⟩
  | @cons piece item front taken reads _ ih =>
      rw [List.flatten_cons, List.append_assoc] at same
      cases each with
      | nil =>
          have empty : piece = [] := (List.append_eq_nil_iff.mp same).1
          exact absurd empty (ne_nil_of_reads reads)
      | @cons other first pieces items readsOther each =>
          rw [List.flatten_cons] at same
          have answer := reads (front.flatten ++ rest)
          rw [same, readsOther] at answer
          obtain ⟨rfl, left⟩ := Prod.mk.inj (Except.ok.inj answer)
          rw [← left] at same
          obtain rfl := List.append_cancel_right same
          obtain ⟨later, others, rfl, rfl⟩ := ih each left.symm
          exact ⟨later, others, rfl, rfl⟩

/-- What is left of a file that begins with the header of a version that is read can
only fail to be read because its octets are no header and pieces. -/
theorem read_error {front : Octets} {minor : UInt8} {rest body : List UInt8}
    {error : Error}
    (begins : front.toList ++ rest = headerOf minor ++ body)
    (failed : (read front).result = .error error) :
    ∃ part trace, error = .corrupt (.unreadable part front.size trace) := by
  simp only [read] at failed
  split at failed
  next trace _ =>
    cases failed
    exact ⟨_, trace, rfl⟩
  next major found ahead scanned =>
    have version : major = majorVersion := by
      rw [scanHeader_ok scanned, headerOf, List.append_assoc] at begins
      have seam : signature ++ ([major, found] ++ (ahead ++ rest)) =
          signature ++ ([majorVersion, minor] ++ body) := by
        simpa [List.append_assoc] using begins
      exact (List.cons.inj (List.append_cancel_left seam)).1
    rw [if_pos version] at failed
    dsimp only at failed
    split at failed
    next trace _ =>
      cases failed
      exact ⟨_, trace, rfl⟩
    next => cases failed

/-- What is left of a file that can be read and breaks off is read when it ends with the
header or with a piece, and then as the blocks up to there. When it ends anywhere else,
it is unreadable. -/
theorem read_cutShort {file : Octets} {tape : Tape}
    (succeeded : (read file).result = .ok tape) :
    ∃ minor pieces items, file.toList = headerOf minor ++ pieces.flatten ∧
      List.Forall₂ scanItem.Reads pieces items ∧
      tape.blocks = items.filterMap Item.block? ∧
      ∀ front back : Octets, file = front ++ back →
        (∀ count ≤ pieces.length, front.toList = headerOf minor ++ (pieces.take count).flatten →
          ∃ part, (read front).result = .ok part ∧
            part.blocks = (items.take count).filterMap Item.block?) ∧
        ((∀ count ≤ pieces.length, front.toList ≠ headerOf minor ++ (pieces.take count).flatten) →
          ∃ part trace,
            (read front).result = .error (.corrupt (.unreadable part front.size trace))) := by
  obtain ⟨minor, pieces, items, whole, each, rfl⟩ := read_ok_iff.mp succeeded
  refine ⟨minor, pieces, items, whole, each, Tape.blocks_ofBlocks _, ?_⟩
  rintro front back rfl
  rw [Array.toList_append] at whole
  constructor
  · intro count _ ends
    exact ⟨_, read_pieces minor ends (List.forall₂_take count each),
      Tape.blocks_ofBlocks _⟩
  · intro inside
    cases answered : (read front).result with
    | error error =>
        obtain ⟨part, trace, rfl⟩ := read_error whole answered
        exact ⟨part, trace, rfl⟩
    | ok part =>
        obtain ⟨other, taken, found, ends, eachTaken, -⟩ := read_ok_iff.mp answered
        have seam : headerOf other ++ (taken.flatten ++ back.toList) =
            headerOf minor ++ pieces.flatten := by
          rw [← whole, ends, List.append_assoc]
        -- Both headers have the same size, so the pieces begin at the same place.
        obtain ⟨header, seam⟩ := List.append_inj seam rfl
        obtain ⟨later, others, rfl, rfl⟩ := pieces_of_front eachTaken each seam
        refine absurd ?_ (inside taken.length (by simp))
        rw [ends, header, List.take_left]

/-- A file that breaks off in the description of a choice. -/
theorem read_cutShort_sideA :
    (read sideA).result.toBool = true ∧ ∃ part trace,
      (read (sideA.extract 0 17)).result =
        .error (.corrupt (.unreadable part 17 trace)) := by
  have succeeded : (read sideA).result =
      .ok (.ofBlocks [.select #[⟨-1, ⟨#[65]⟩⟩], .unsupported 0x77 #[2, 0, 0, 0, 0x5A, 7]]) := rfl
  obtain ⟨minor, pieces, items, -, -, -, cuts⟩ := read_cutShort succeeded
  obtain ⟨ends, inside⟩ := cuts (sideA.extract 0 17) (sideA.extract 17) rfl
  have broken : (read (sideA.extract 0 17)).result.toBool = false := rfl
  refine ⟨rfl, inside fun count few same => ?_⟩
  obtain ⟨part, answered, -⟩ := ends count few same
  rw [answered] at broken
  cases broken

end ZxMedia.Tzx
