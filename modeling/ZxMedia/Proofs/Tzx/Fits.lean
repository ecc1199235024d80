import ZxMedia.Proofs.Tzx.Pieces

/-!
# Blocks that fit their fields

The parts of a block are written in fields of one to four octets for their sizes and
numbers, and a list in a field for the size of all of it. The blocks that fit their
fields are the ones that can be written (`succeedsIff_encodeBlock`).

Whatever is read fits (`fits_scanBody`). The lists need an argument for that: what is
behind the last item of a list is passed over, so the items take no more octets than
there are in the list, and as many as they take when they are written.
-/

namespace ZxMedia

open LittleEndian (capacity encode)

/-- The size of a text fits its field. -/
def TapeText.FitsField (text : TapeText) : Prop :=
  text.octets.size < 2 ^ 8

/-- The number of octets of a text in a file. -/
def TapeText.extent (text : TapeText) : Nat :=
  1 + text.octets.size

/-- The number of octets of a choice in a file. -/
def SelectItem.extent (item : SelectItem) : Nat :=
  2 + item.description.extent

/-- The number of octets of a remark in a file. -/
def ArchiveItem.extent (item : ArchiveItem) : Nat :=
  1 + item.text.extent

/-- The sizes and the numbers of the parts of a block fit their fields. -/
def Block.FitsFields : Block → Prop
  | rom block => block.data.size < 2 ^ 16
  | turbo block => block.data.size < 2 ^ 24
  | pulses lengths => lengths.size < 2 ^ 8
  | pureData block => block.data.size < 2 ^ 24
  | rawData block => block.data.size < 2 ^ 24
  | groupStart name => name.FitsField
  | callSequence offsets => offsets.size < 2 ^ 16
  | select items => items.size < 2 ^ 8 ∧ (∀ item ∈ items, item.description.FitsField) ∧
      1 + (items.toList.map SelectItem.extent).sum < 2 ^ 16
  | comment text => text.FitsField
  | message _ text => text.FitsField
  | archiveInfo items => items.size < 2 ^ 8 ∧ (∀ item ∈ items, item.text.FitsField) ∧
      1 + (items.toList.map ArchiveItem.extent).sum < 2 ^ 16
  | hardware items => items.size < 2 ^ 8
  | custom _ data => data.size < 2 ^ 32
  | _ => True

namespace Tzx

open Scan (Ensures Takes)

/-! ## What is read fits -/

theorem takes_scanText : scanText.Takes TapeText.extent TapeText.FitsField :=
  (Takes.sized 1).map TapeText.mk (fun _ => rfl) fun _ fits => fits

theorem takes_scanSelectItem :
    scanSelectItem.Takes SelectItem.extent fun item => item.description.FitsField :=
  Takes.offset.behind fun offset =>
    takes_scanText.map (SelectItem.mk offset) (fun _ => rfl) fun _ fits => fits

theorem takes_scanArchiveItem :
    scanArchiveItem.Takes ArchiveItem.extent fun item => item.text.FitsField :=
  Takes.byte.behind fun id =>
    takes_scanText.map (ArchiveItem.mk id) (fun _ => rfl) fun _ fits => fits

theorem takes_scanHardwareItem :
    scanHardwareItem.Takes (fun _ => 1 + (1 + 1)) fun _ => True :=
  Takes.byte.behind fun type => Takes.byte.behind fun id =>
    Takes.byte.map (HardwareItem.mk type id) (fun _ => rfl) fun _ _ => trivial

theorem toByte_of_ofByte? {id : UInt8} {known : BlockId}
    (identified : BlockId.ofByte? id = some known) : known.toByte = id := by
  have own : ∀ id : UInt8, ∀ known ∈ BlockId.ofByte? id, known.toByte = id := by
    decide +kernel
  exact own id known identified

theorem fits_scanKept {id : UInt8} (kept : id = 0x16 ∨ id = 0x17 ∨ id = 0x18 ∨ id = 0x19 ∨
    BlockId.ofByte? id = none) :
    (scanKept id 4).Ensures fun block => block.FitsFields ∧ block.WellKept :=
  (Ensures.spelling 4).bind fun _ spelled => .pure ⟨trivial, .inl ⟨kept, spelled⟩⟩

/-- Whatever is read as a block fits its fields, and a block that is kept has the form
in which it was found. -/
theorem fits_scanBody {known : BlockId} {id : UInt8} {part : String} {scan : Scan Block}
    (identified : BlockId.ofByte? id = some known)
    (body : scanBody known id = some (part, scan)) :
    scan.Ensures fun block => block.FitsFields ∧ block.WellKept := by
  obtain rfl := toByte_of_ofByte? identified
  cases known with
  | standardSpeed =>
      cases body
      exact .behind fun _ => (Ensures.sized 2).bind fun _ fits => .pure ⟨fits, trivial⟩
  | turboSpeed =>
      cases body
      exact .behind fun _ => .behind fun _ => .behind fun _ => .behind fun _ => .behind fun _ =>
        .behind fun _ => .behind fun _ => .behind fun _ =>
        (Ensures.sized 3).bind fun _ fits => .pure ⟨fits, trivial⟩
  | seqOfPulses =>
      cases body
      refine (Ensures.number 1).bind ?_
      intro count few
      refine (Takes.word.items count).ensures.bind ?_
      rintro lengths ⟨rfl, -⟩
      exact .pure ⟨few, trivial⟩
  | pureData =>
      cases body
      exact .behind fun _ => .behind fun _ => .behind fun _ => .behind fun _ =>
        (Ensures.sized 3).bind fun _ fits => .pure ⟨fits, trivial⟩
  | directRec =>
      cases body
      exact .behind fun _ => .behind fun _ => .behind fun _ =>
        (Ensures.sized 3).bind fun _ fits => .pure ⟨fits, trivial⟩
  | c64Rom | c64Turbo | cswRecording | generalized =>
      cases body
      exact fits_scanKept (by decide)
  | emulationInfo =>
      cases body
      exact (Ensures.take 8).bind fun _ size => .pure ⟨trivial, .inr (.inl ⟨rfl, size⟩)⟩
  | snapshot =>
      cases body
      refine .behind fun flag => (Ensures.spelling 3).bind ?_
      intro rest spelled
      exact .pure ⟨trivial, .inr (.inr ⟨rfl, flag, rest.toList, by simp, spelled⟩)⟩
  | groupStart | text =>
      cases body
      exact takes_scanText.ensures.bind fun _ fits => .pure ⟨fits, trivial⟩
  | callSeq =>
      cases body
      refine (Ensures.number 2).bind ?_
      intro count few
      refine (Takes.offset.items count).ensures.bind ?_
      rintro offsets ⟨rfl, -⟩
      exact .pure ⟨few, trivial⟩
  | select =>
      cases body
      exact (takes_scanSelectItem.list 2 1).bind fun _ fits => .pure ⟨fits, trivial⟩
  | message =>
      cases body
      exact .behind fun _ => takes_scanText.ensures.bind fun _ fits => .pure ⟨fits,
        trivial⟩
  | archive =>
      cases body
      exact (takes_scanArchiveItem.list 2 1).bind fun _ fits => .pure ⟨fits, trivial⟩
  | hardware =>
      cases body
      refine (Ensures.number 1).bind ?_
      intro count few
      refine (takes_scanHardwareItem.items count).ensures.bind ?_
      rintro items ⟨rfl, -⟩
      exact .pure ⟨few, trivial⟩
  | custom =>
      cases body
      exact .behind fun _ => (Ensures.sized 4).bind fun _ fits => .pure ⟨fits, trivial⟩
  | glue => cases body
  | _ =>
      cases body
      repeat refine .behind fun _ => ?_
      exact .pure ⟨trivial, trivial⟩

/-! ## What fits is written, and nothing else -/

theorem succeedsIff_sizeField (width : Nat) (part : String) (size : Nat) :
    SucceedsIff (sizeField width part size) (size < capacity width) := by
  unfold sizeField
  split
  next fits => exact fits
  next long => exact ⟨long, _, rfl⟩

theorem succeedsIff_encodeSized (width : Nat) (part : String) (data : Octets) :
    SucceedsIff (encodeSized width part data) (data.size < capacity width) :=
  (succeedsIff_sizeField width part data.size).last _

theorem succeedsIff_encodeText (part : String) (text : TapeText) :
    SucceedsIff (encodeText part text) text.FitsField :=
  (succeedsIff_sizeField 1 part text.octets.size).last _

theorem succeedsIff_encodeSelectItem (item : SelectItem) :
    SucceedsIff (encodeSelectItem item) item.description.FitsField :=
  (succeedsIff_encodeText _ item.description).last _

theorem succeedsIff_encodeArchiveItem (item : ArchiveItem) :
    SucceedsIff (encodeArchiveItem item) item.text.FitsField :=
  (succeedsIff_encodeText _ item.text).last _

theorem size_encodeText {part : String} {text : TapeText} {octets : Octets}
    (written : encodeText part text = .ok octets) : octets.size = text.extent := by
  simp only [encodeText, bind_ok, sizeField_ok, pure_ok] at written
  obtain ⟨_, ⟨-, rfl⟩, rfl⟩ := written
  simp [TapeText.extent]

theorem size_encodeSelectItem {item : SelectItem} {octets : Octets}
    (written : encodeSelectItem item = .ok octets) : octets.size = item.extent := by
  simp only [encodeSelectItem, bind_ok, pure_ok] at written
  obtain ⟨text, writtenText, rfl⟩ := written
  rw [Array.size_append, size_encodeText writtenText]
  rfl

theorem size_encodeArchiveItem {item : ArchiveItem} {octets : Octets}
    (written : encodeArchiveItem item = .ok octets) : octets.size = item.extent := by
  simp only [encodeArchiveItem, bind_ok, pure_ok] at written
  obtain ⟨text, writtenText, rfl⟩ := written
  rw [Array.size_append, size_encodeText writtenText]
  rfl

/-- A list is written exactly if its items can be counted and written, and all of it
fits the field for its size. -/
theorem succeedsIff_encodeList {α : Type} (part : String) {item : α → Except Error Octets}
    {Fits : α → Prop} {extent : α → Nat}
    (each : ∀ value, SucceedsIff (item value) (Fits value))
    (size : ∀ value piece, item value = .ok piece → piece.size = extent value)
    (values : Array α) :
    SucceedsIff (encodeList part item values)
      (values.size < 2 ^ 8 ∧ (∀ value ∈ values, Fits value) ∧
        1 + (values.toList.map extent).sum < 2 ^ 16) := by
  unfold encodeList encodeItems
  refine (succeedsIff_sizeField 1 part values.size).bind ?_
  intro count counted
  obtain ⟨-, rfl⟩ := sizeField_ok.mp counted
  have items := SucceedsIff.appendAll each values.toList #[]
  simp only [Array.mem_toList_iff] at items
  refine items.bind ?_
  intro octets written
  have whole : ((encode 1 values.size).toArray ++ octets).size =
      1 + (values.toList.map extent).sum := by
    rw [Array.size_append, size_appendAll size written, List.size_toArray,
      LittleEndian.length_encode, Array.size_empty, Nat.zero_add]
  rw [← whole]
  exact (succeedsIff_sizeField 2 part _).last _

theorem succeedsIff_encodeBody (block : Block) :
    SucceedsIff (encodeBody block) block.FitsFields := by
  cases block with
  | rom | turbo | pureData | rawData | custom => exact (succeedsIff_encodeSized _ _ _).last _
  | pulses | callSequence | hardware => exact (succeedsIff_sizeField _ _ _).last _
  | groupStart name => exact succeedsIff_encodeText _ name
  | comment text => exact succeedsIff_encodeText _ text
  | message seconds text => exact (succeedsIff_encodeText _ text).last _
  | select items =>
      exact succeedsIff_encodeList _ succeedsIff_encodeSelectItem
        (fun _ _ => size_encodeSelectItem) items
  | archiveInfo items =>
      exact succeedsIff_encodeList _ succeedsIff_encodeArchiveItem
        (fun _ _ => size_encodeArchiveItem) items
  | _ => trivial

theorem succeedsIff_encodeBlock (block : Block) :
    SucceedsIff (encodeBlock block) block.FitsFields :=
  (succeedsIff_encodeBody block).last _

theorem encodeBlock_of_fits {block : Block} (fits : block.FitsFields) :
    ∃ octets, encodeBlock block = .ok octets :=
  (succeedsIff_encodeBlock block).exists_ok_iff.mpr fits

end Tzx

end ZxMedia
