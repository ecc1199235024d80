import ZxMedia.Proofs.Tape.Operation
import ZxMedia.Proofs.Tzx.File

/-!
# Pieces of TZX files

A file that can be read is a header and one piece after another, each of which is read
as an item whatever follows it: no layout looks past its own end, however many lists and
sizes are inside it. Files can therefore be joined. The header of the second file has
the shape of a block that is passed over, so it may be left in the middle or cut off.
-/

namespace ZxMedia.Tzx

open Scan (Ensures Exact Reads)

/-! ## Layouts end where they end -/

theorem exact_scanText : scanText.Exact :=
  (Exact.sized 1).last _

theorem exact_scanHardwareItem : scanHardwareItem.Exact :=
  Exact.byte.bind fun _ => Exact.byte.bind fun _ => Exact.byte.last _

theorem exact_scanVector (count : Nat) : (scanVector count).Exact := by
  apply (Exact.take count).bind
  intro octets
  split
  · exact Exact.pure _
  · exact Exact.fail _

theorem exact_scanKept (id : UInt8) (width : Nat) : (scanKept id width).Exact :=
  (Exact.spelling width).last _

/-- No body takes less or more when other octets follow it. -/
theorem exact_scanBody {known : BlockId} {id : UInt8} {part : String} {scan : Scan Block}
    (body : scanBody known id = some (part, scan)) : scan.Exact := by
  cases known with
  | standardSpeed =>
      cases body
      exact Exact.word.bind fun _ => (Exact.sized 2).last _
  | turboSpeed =>
      cases body
      exact Exact.word.bind fun _ => Exact.word.bind fun _ => Exact.word.bind fun _ =>
        Exact.word.bind fun _ => Exact.word.bind fun _ => Exact.word.bind fun _ =>
        Exact.byte.bind fun _ => Exact.word.bind fun _ => (Exact.sized 3).last _
  | pureTone =>
      cases body
      exact Exact.word.bind fun _ => Exact.word.last _
  | seqOfPulses =>
      cases body
      exact (Exact.number 1).bind fun _ => (Exact.items _ .word).last _
  | pureData =>
      cases body
      exact Exact.word.bind fun _ => Exact.word.bind fun _ => Exact.byte.bind fun _ =>
        Exact.word.bind fun _ => (Exact.sized 3).last _
  | directRec =>
      cases body
      exact Exact.word.bind fun _ => Exact.word.bind fun _ => Exact.byte.bind fun _ =>
        (Exact.sized 3).last _
  | c64Rom | c64Turbo | cswRecording | generalized =>
      cases body
      exact exact_scanKept id 4
  | emulationInfo =>
      cases body
      exact (Exact.take 8).last _
  | snapshot =>
      cases body
      exact Exact.byte.bind fun _ => (Exact.spelling 3).last _
  | pause | loopStart =>
      cases body
      exact Exact.word.last _
  | groupStart | text =>
      cases body
      exact exact_scanText.last _
  | groupEnd | loopEnd | callReturn =>
      cases body
      exact Exact.pure _
  | jump =>
      cases body
      exact Exact.offset.last _
  | callSeq =>
      cases body
      exact (Exact.number 2).bind fun _ => (Exact.items _ .offset).last _
  | select | archive =>
      cases body
      exact (Exact.inside 2 _).last _
  | stopIn48k =>
      cases body
      exact (Exact.sized 4).last _
  | setLevel =>
      cases body
      exact (Exact.inside 4 _).last _
  | message =>
      cases body
      exact Exact.byte.bind fun _ => exact_scanText.last _
  | hardware =>
      cases body
      exact (Exact.number 1).bind fun _ => (Exact.items _ exact_scanHardwareItem).last _
  | custom =>
      cases body
      exact (exact_scanVector 16).bind fun _ => (Exact.sized 4).last _
  | glue => cases body

/-- No item takes less or more when other octets follow it. -/
theorem exact_scanItem : scanItem.Exact := by
  apply (Exact.byte.within _).bind
  intro id
  split
  next => exact ((exact_scanKept id 4).within _).last _
  next known _ =>
    split
    next part scan body => exact ((exact_scanBody body).within part).last _
    next => exact ((Exact.take glueSize).within _).last _

/-! ## Files are made of pieces -/

/-- A file that can be read up to its end is made of the pieces of its items. -/
theorem itemsFrom_ok {file ahead : List UInt8} {steps : Nat} {before : Array Item}
    {notices : Array Notice} (enough : ahead.length ≤ steps)
    (whole : (itemsFrom file steps ahead before notices).failure = none) :
    ∃ pieces items, List.Forall₂ scanItem.Reads pieces items ∧ ahead = pieces.flatten ∧
      (itemsFrom file steps ahead before notices).items = before ++ items := by
  induction steps generalizing ahead before notices with
  | zero =>
      obtain rfl : ahead = [] := List.length_eq_zero_iff.mp (Nat.le_zero.mp enough)
      exact ⟨[], [], .nil, rfl, by simp [itemsFrom]⟩
  | succ steps ih =>
      cases ahead with
      | nil => exact ⟨[], [], .nil, rfl, by simp [itemsFrom]⟩
      | cons id ahead =>
          simp only [itemsFrom] at whole ⊢
          split at whole
          next => cases whole
          next item rest scanned =>
            obtain ⟨piece, same, reads⟩ := exact_scanItem _ _ _ scanned
            have shorter : rest.length ≤ steps := by
              have positive := List.length_pos_iff.mpr (ne_nil_of_reads reads)
              have lengths := congrArg List.length same
              simp only [List.length_cons, List.length_append] at lengths enough
              omega
            obtain ⟨pieces, items, each, rfl, found⟩ := ih shorter whole
            refine ⟨piece :: pieces, item :: items, .cons reads each, same, ?_⟩
            rw [found]
            simp

theorem scanHeader_ok {ahead rest : List UInt8} {major minor : UInt8}
    (scanned : scanHeader ahead = .ok ((major, minor), rest)) :
    ahead = signature ++ [major, minor] ++ rest := by
  obtain ⟨_, _, tagged, versioned⟩ := Scan.bind_answer scanned
  obtain ⟨_, _, first, later⟩ := Scan.bind_answer (Scan.within_answer versioned)
  obtain ⟨_, _, second, last⟩ := Scan.bind_answer later
  cases last
  rw [Scan.tag_answer (Scan.within_answer tagged), Scan.byte_answer first,
    Scan.byte_answer second]
  simp

/-- The files that can be read are those made of a header and the pieces of items. -/
theorem read_ok_iff {file : Octets} {tape : Tape} :
    (read file).result = .ok tape ↔
      ∃ minor pieces items, file.toList = headerOf minor ++ pieces.flatten ∧
        List.Forall₂ scanItem.Reads pieces items ∧
        tape = .ofBlocks (items.filterMap Item.block?) := by
  constructor
  · intro succeeded
    simp only [read] at succeeded
    split at succeeded
    next => cases succeeded
    next major minor ahead scanned =>
      split at succeeded
      next same =>
        dsimp only at succeeded
        split at succeeded
        next => cases succeeded
        next whole =>
          cases succeeded
          obtain ⟨pieces, items, each, rfl, found⟩ := itemsFrom_ok (Nat.le_refl _) whole
          refine ⟨minor, pieces, items, ?_, each, ?_⟩
          · rw [scanHeader_ok scanned, same, headerOf]
          · rw [found]
            simp
      next => cases succeeded
  · rintro ⟨minor, pieces, items, whole, each, rfl⟩
    exact read_pieces minor whole each

/-! ## What holds of the blocks of a file -/

/-- What holds of every body that is read holds of the block of an item. -/
theorem ensures_scanItem {Holds : Block → Prop}
    (kept : ∀ id, BlockId.ofByte? id = none → (scanKept id 4).Ensures Holds)
    (laid : ∀ id known part scan, BlockId.ofByte? id = some known →
      scanBody known id = some (part, scan) → scan.Ensures Holds) :
    scanItem.Ensures fun item => ∀ block, item.block? = some block → Holds block := by
  have made : ∀ block : Block, Holds block → Scan.Ensures (pure (Item.block block))
      fun item => ∀ block, item.block? = some block → Holds block := by
    intro block holds
    apply Ensures.pure
    rintro _ ⟨⟩
    exact holds
  apply Ensures.behind
  intro id
  split
  next unknown => exact ((kept id unknown).within _).bind made
  next known identified =>
    split
    next part scan body => exact ((laid id known part scan identified body).within part).bind made
    next => exact .behind fun _ => .pure nofun

theorem forall_blocks_of_reads {Holds : Block → Prop} {pieces : List (List UInt8)}
    {items : List Item}
    (ensures : scanItem.Ensures fun item => ∀ block, item.block? = some block → Holds block)
    (each : List.Forall₂ scanItem.Reads pieces items) :
    ∀ block ∈ items.filterMap Item.block?, Holds block := by
  induction each with
  | nil => exact List.forall_mem_nil _
  | cons reads _ ih =>
      intro block member
      obtain ⟨item, found, is⟩ := List.mem_filterMap.mp member
      rcases List.mem_cons.mp found with rfl | later
      · exact ensures _ _ _ reads.fills block is
      · exact ih block (List.mem_filterMap.mpr ⟨item, later, is⟩)

theorem samplesFit_scanBody {known : BlockId} {id : UInt8} {part : String}
    {scan : Scan Block}
    (body : scanBody known id = some (part, scan)) : scan.Ensures Block.SamplesFit := by
  cases known with
  | directRec =>
      cases body
      refine .behind fun _ => .behind fun _ => .behind fun _ => (Ensures.sized 3).bind ?_
      intro data short
      exact .pure (short.trans (by decide))
  | glue => cases body
  | _ =>
      cases body
      repeat refine .behind fun _ => ?_
      exact .pure trivial

theorem samplesFit_items {pieces : List (List UInt8)} {items : List Item}
    (each : List.Forall₂ scanItem.Reads pieces items) :
    ∀ block ∈ items.filterMap Item.block?, block.SamplesFit := by
  refine forall_blocks_of_reads (ensures_scanItem ?_ ?_) each
  · exact fun id unknown => .behind fun _ => .pure trivial
  · exact fun id known part scan identified body => samplesFit_scanBody body

/-- A file gives the size of samples in three octets, so that they can be counted on its
tape. -/
theorem reachable_read {file : Octets} {tape : Tape}
    (succeeded : (read file).result = .ok tape) : tape.Reachable := by
  obtain ⟨minor, pieces, items, -, each, rfl⟩ := read_ok_iff.mp succeeded
  exact Tape.reachable_ofBlocks (samplesFit_items each)

/-! ## Files can be joined -/

/-- A header in the middle of a file is passed over. -/
theorem reads_glue (minor : UInt8) : scanItem.Reads (headerOf minor) .glue := by
  -- The first octet of the signature is the identifier, and the other ones are the
  -- body.
  have body := Reads.take (signature.tail ++ [majorVersion, minor]).toArray
  exact .of_eq (.bind ((Reads.byte 0x5A).within _) ((body.within _).last _)) rfl

/-- Two files that can be read can be read joined, as the blocks of the one and those of
the other, whether the header of the second file is left in the middle or cut off. -/
theorem read_append {first second : Octets} {front back : Tape}
    (readsFirst : (read first).result = .ok front)
    (readsSecond : (read second).result = .ok back) :
    (∃ joined, (read (first ++ second)).result = .ok joined ∧
      joined.blocks = front.blocks ++ back.blocks) ∧
    ∃ joined, (read (first ++ second.extract 10)).result = .ok joined ∧
      joined.blocks = front.blocks ++ back.blocks := by
  obtain ⟨minor, pieces, items, whole, each, rfl⟩ := read_ok_iff.mp readsFirst
  obtain ⟨minor', pieces', items', whole', each', rfl⟩ := read_ok_iff.mp readsSecond
  simp only [Tape.blocks_ofBlocks, ← List.filterMap_append]
  constructor
  · have glued := List.rel_append each (.cons (reads_glue minor') each')
    refine ⟨_, read_pieces minor ?_ glued, ?_⟩
    · rw [Array.toList_append, whole, whole']
      simp
    · rw [Tape.blocks_ofBlocks, List.filterMap_append, List.filterMap_append]
      rfl
  · refine ⟨_, read_pieces minor ?_ (List.rel_append each each'), ?_⟩
    · have cut : (second.extract 10).toList = pieces'.flatten := by
        have header : (headerOf minor').length = 10 := rfl
        have size : second.size = 10 + pieces'.flatten.length := by
          rw [← Array.length_toList, whole', List.length_append, header]
        rw [Array.toList_extract, whole', size, ← header]
        simp
      rw [Array.toList_append, whole, cut]
      simp
    · rw [Tape.blocks_ofBlocks]

/-- A file with a choice that has octets behind its items and a block that is not
known. -/
def sideA : Octets :=
  (headerOf 20).toArray ++ #[0x28, 7, 0, 1, 0xFF, 0xFF, 1, 65, 9, 9, 0x77, 2, 0, 0, 0, 0x5A, 7]

/-- A file of an older version with a pause. -/
def sideB : Octets :=
  (headerOf 13).toArray ++ #[0x20, 10, 0]

theorem read_append_sides :
    (read sideA).result.toBool = true ∧ (read sideB).result.toBool = true ∧
    (∃ joined, (read (sideA ++ sideB)).result = .ok joined ∧
      joined.blocks = [.select #[⟨-1, ⟨#[65]⟩⟩], .unsupported 0x77 #[2, 0, 0, 0, 0x5A, 7],
        .pause 10]) ∧
    ∃ joined, (read (sideA ++ sideB.extract 10)).result = .ok joined ∧
      joined.blocks = [.select #[⟨-1, ⟨#[65]⟩⟩], .unsupported 0x77 #[2, 0, 0, 0, 0x5A, 7],
        .pause 10] := by
  have first : (read sideA).result =
      .ok (.ofBlocks [.select #[⟨-1, ⟨#[65]⟩⟩], .unsupported 0x77 #[2, 0, 0, 0, 0x5A, 7]]) := rfl
  have second : (read sideB).result = .ok (.ofBlocks [.pause 10]) := rfl
  obtain ⟨glued, cut⟩ := read_append first second
  exact ⟨rfl, rfl, glued, cut⟩

end ZxMedia.Tzx
