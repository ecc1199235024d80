import ZxMedia.Proofs.Encoding
import ZxMedia.Tzx.BlockCodec

/-!
# Blocks in TZX files are read back

What `encodeBlock` writes of a block is read by `scanItem`, as the block with carriage
returns in the place of the line feeds of its texts. The layout of each kind is read
field by field in the order in which it is written, so that a change of one layout asks
for a change of one lemma.

Blocks that are kept as they were found have to be of a form in which they can be found.
-/

namespace ZxMedia

open LittleEndian (capacity encode)
open Scan (Reads Spelled)

/-- A text as it is in a file, with carriage returns in the place of line feeds. -/
def TapeText.withLineEnds (text : TapeText) : TapeText :=
  ⟨text.octets.map fun octet => if octet = 10 then 13 else octet⟩

/-- A choice with the line ends of a file in its description. -/
def SelectItem.withLineEnds (item : SelectItem) : SelectItem :=
  { item with description := item.description.withLineEnds }

/-- A remark with the line ends of a file in its text. -/
def ArchiveItem.withLineEnds (item : ArchiveItem) : ArchiveItem :=
  { item with text := item.text.withLineEnds }

namespace Block

/-- A block with the line ends of a file in its texts. -/
def withLineEnds : Block → Block
  | groupStart name => groupStart name.withLineEnds
  | select items => select (items.map SelectItem.withLineEnds)
  | comment text => comment text.withLineEnds
  | message seconds text => message seconds text.withLineEnds
  | archiveInfo items => archiveInfo (items.map ArchiveItem.withLineEnds)
  | block => block

/-- A block that is kept as it was found has the form in which blocks with its
identifier are found. -/
def WellKept : Block → Prop
  | unsupported id body =>
    ((id = 0x16 ∨ id = 0x17 ∨ id = 0x18 ∨ id = 0x19 ∨ Tzx.BlockId.ofByte? id = none) ∧
        Spelled 4 body.toList) ∨
      (id = 0x34 ∧ body.size = 8) ∨
      (id = 0x40 ∧ ∃ flag rest, body.toList = flag :: rest ∧ Spelled 3 rest)
  | _ => True

end Block

namespace Tzx

/-! ## Parts of blocks -/

theorem sizeField_ok {width size : Nat} {part : String} {octets : List UInt8} :
    sizeField width part size = .ok octets ↔
      size < capacity width ∧ encode width size = octets := by
  unfold sizeField
  split
  next fits => simp [fits]
  next long => simp [long]

theorem encodeSized_ok {width : Nat} {part : String} {data octets : Octets} :
    encodeSized width part data = .ok octets ↔
      data.size < capacity width ∧ (encode width data.size).toArray ++ data = octets := by
  simp only [encodeSized, bind_ok, sizeField_ok, pure_ok]
  constructor
  · rintro ⟨_, ⟨fits, rfl⟩, rfl⟩
    exact ⟨fits, rfl⟩
  · rintro ⟨fits, rfl⟩
    exact ⟨_, ⟨fits, rfl⟩, rfl⟩

@[simp] theorem toList_encodeWords (words : List Nat) :
    (encodeWords words).toList = words.flatMap (encode 2) := rfl

theorem scanText_undoes (part : String) :
    scanText.Undoes (encodeText part) TapeText.withLineEnds := by
  intro text octets written
  simp only [encodeText, bind_ok, sizeField_ok, pure_ok] at written
  obtain ⟨_, ⟨fits, rfl⟩, rfl⟩ := written
  have size : text.withLineEnds.octets.size = text.octets.size := Array.size_map
  rw [← size] at fits
  apply Reads.of_eq ((Reads.sized fits).last _)
  simp [TapeText.withLineEnds, lineEnd]

theorem scanSelectItem_undoes :
    scanSelectItem.Undoes encodeSelectItem SelectItem.withLineEnds := by
  intro item octets written
  simp only [encodeSelectItem, bind_ok, pure_ok] at written
  obtain ⟨text, writtenText, rfl⟩ := written
  have readsText := scanText_undoes _ _ _ writtenText
  apply Reads.of_eq ((Reads.offset item.offset).bind (readsText.last _))
  simp

theorem scanArchiveItem_undoes :
    scanArchiveItem.Undoes encodeArchiveItem ArchiveItem.withLineEnds := by
  intro item octets written
  simp only [encodeArchiveItem, bind_ok, pure_ok] at written
  obtain ⟨text, writtenText, rfl⟩ := written
  have readsText := scanText_undoes _ _ _ writtenText
  apply Reads.of_eq ((Reads.byte item.id).bind (readsText.last _))
  simp

theorem reads_encodeList {α : Type} {part : String} {item : α → Except Error Octets}
    {scan : Scan α}
    {image : α → α} (undoes : scan.Undoes item image) {values : Array α} {octets : Octets}
    (written : encodeList part item values = .ok octets) :
    (Scan.inside 2 do Scan.items (← Scan.number 1) scan).Reads octets.toList
      (values.map image) := by
  simp only [encodeList, encodeItems, bind_ok, pure_ok, sizeField_ok,
    appendAll_ok] at written
  obtain ⟨_, ⟨count, rfl⟩, items, ⟨pieces, each, whole⟩, _, ⟨fits, rfl⟩, rfl⟩ := written
  obtain rfl : items = pieces.flatten.toArray :=
    Array.toList_inj.mp (by simpa using whole)
  have readsItems := Reads.items (undoes.pieces each)
  rw [List.length_map, ← Array.toList_map, Array.length_toList] at readsItems
  refine .of_eq (Reads.inside ?_ ((Reads.number count).bind readsItems)) ?_
  · simpa using fits
  · simp

/-! ## Bodies -/

/-- The layout of an identifier reads a body as a block. -/
def BodyReads (id : UInt8) (body : List UInt8) (block : Block) : Prop :=
  ∃ known part scan,
    BlockId.ofByte? id = some known ∧ scanBody known id = some (part, scan) ∧ scan.Reads body block

theorem BodyReads.item {id : UInt8} {body : List UInt8} {block : Block}
    (reads : BodyReads id body block) : scanItem.Reads (id :: body) (.block block) := by
  obtain ⟨known, part, scan, identified, layout, readsBody⟩ := reads
  rw [← List.singleton_append]
  apply Reads.bind ((Reads.byte id).within _)
  simp only [identified, layout]
  exact (readsBody.within part).last _

theorem bodyReads_rom {block : RomBlock} {body : Octets}
    (written : encodeBody (.rom block) = .ok body) :
    BodyReads 0x10 body.toList (.rom block) := by
  simp only [encodeBody, bind_ok, encodeSized_ok, pure_ok] at written
  obtain ⟨_, ⟨fits, rfl⟩, rfl⟩ := written
  refine ⟨.standardSpeed, _, _, rfl, rfl, ?_⟩
  apply Reads.of_eq ((Reads.word _).bind ((Reads.sized fits).last _))
  simp

theorem bodyReads_turbo {block : TurboBlock} {body : Octets}
    (written : encodeBody (.turbo block) = .ok body) :
    BodyReads 0x11 body.toList (.turbo block) := by
  simp only [encodeBody, bind_ok, encodeSized_ok, pure_ok] at written
  obtain ⟨_, ⟨fits, rfl⟩, rfl⟩ := written
  refine ⟨.turboSpeed, _, _, rfl, rfl, ?_⟩
  apply Reads.of_eq ((Reads.word _).bind <| (Reads.word _).bind <| (Reads.word _).bind <|
    (Reads.word _).bind <| (Reads.word _).bind <| (Reads.word _).bind <| (Reads.byte _).bind <|
    (Reads.word _).bind <| (Reads.sized fits).last _)
  simp

theorem bodyReads_pureData {block : PureDataBlock} {body : Octets}
    (written : encodeBody (.pureData block) = .ok body) :
    BodyReads 0x14 body.toList (.pureData block) := by
  simp only [encodeBody, bind_ok, encodeSized_ok, pure_ok] at written
  obtain ⟨_, ⟨fits, rfl⟩, rfl⟩ := written
  refine ⟨.pureData, _, _, rfl, rfl, ?_⟩
  apply Reads.of_eq ((Reads.word _).bind <| (Reads.word _).bind <| (Reads.byte _).bind <|
    (Reads.word _).bind <| (Reads.sized fits).last _)
  simp

theorem bodyReads_rawData {block : RawDataBlock} {body : Octets}
    (written : encodeBody (.rawData block) = .ok body) :
    BodyReads 0x15 body.toList (.rawData block) := by
  simp only [encodeBody, bind_ok, encodeSized_ok, pure_ok] at written
  obtain ⟨_, ⟨fits, rfl⟩, rfl⟩ := written
  refine ⟨.directRec, _, _, rfl, rfl, ?_⟩
  apply Reads.of_eq ((Reads.word _).bind <| (Reads.word _).bind <| (Reads.byte _).bind <|
    (Reads.sized fits).last _)
  simp

theorem bodyReads_pulses {lengths : Array UInt16} {body : Octets}
    (written : encodeBody (.pulses lengths) = .ok body) :
    BodyReads 0x13 body.toList (.pulses lengths) := by
  simp only [encodeBody, bind_ok, sizeField_ok, pure_ok] at written
  obtain ⟨_, ⟨fits, rfl⟩, rfl⟩ := written
  refine ⟨.seqOfPulses, _, _, rfl, rfl, ?_⟩
  apply Reads.of_eq ((Reads.number fits).bind ((Reads.itemsOf lengths Reads.word).last _))
  simp [List.flatMap_map]

theorem bodyReads_callSequence {offsets : Array Int16} {body : Octets}
    (written : encodeBody (.callSequence offsets) = .ok body) :
    BodyReads 0x26 body.toList (.callSequence offsets) := by
  simp only [encodeBody, bind_ok, sizeField_ok, pure_ok] at written
  obtain ⟨_, ⟨fits, rfl⟩, rfl⟩ := written
  refine ⟨.callSeq, _, _, rfl, rfl, ?_⟩
  apply Reads.of_eq ((Reads.number fits).bind ((Reads.itemsOf offsets Reads.offset).last _))
  simp [List.flatMap_map]

theorem reads_scanHardwareItem (item : HardwareItem) :
    scanHardwareItem.Reads [item.type, item.id, item.value] item :=
  (Reads.byte _).bind <| (Reads.byte _).bind <| (Reads.byte _).last _

theorem bodyReads_hardware {items : Array HardwareItem} {body : Octets}
    (written : encodeBody (.hardware items) = .ok body) :
    BodyReads 0x33 body.toList (.hardware items) := by
  simp only [encodeBody, bind_ok, sizeField_ok, pure_ok] at written
  obtain ⟨_, ⟨fits, rfl⟩, rfl⟩ := written
  refine ⟨.hardware, _, _, rfl, rfl, ?_⟩
  apply Reads.of_eq ((Reads.number fits).bind ((Reads.itemsOf items reads_scanHardwareItem).last _))
  simp

theorem reads_scanVector {count : Nat} (octets : Vector UInt8 count) :
    (scanVector count).Reads octets.toArray.toList octets := by
  have readsOctets := Reads.take octets.toArray
  rw [octets.size_toArray] at readsOctets
  rw [← List.append_nil octets.toArray.toList]
  apply Reads.bind readsOctets
  simp only [octets.size_toArray, dif_pos]
  exact Reads.pure octets

theorem bodyReads_custom {description : Vector UInt8 16} {data body : Octets}
    (written : encodeBody (.custom description data) = .ok body) :
    BodyReads 0x35 body.toList (.custom description data) := by
  simp only [encodeBody, bind_ok, encodeSized_ok, pure_ok] at written
  obtain ⟨_, ⟨fits, rfl⟩, rfl⟩ := written
  refine ⟨.custom, _, _, rfl, rfl, ?_⟩
  apply Reads.of_eq ((reads_scanVector description).bind ((Reads.sized fits).last _))
  simp

theorem bodyReads_select {items : Array SelectItem} {body : Octets}
    (written : encodeBody (.select items) = .ok body) :
    BodyReads 0x28 body.toList (.select (items.map SelectItem.withLineEnds)) :=
  ⟨.select, _, _, rfl, rfl, (reads_encodeList scanSelectItem_undoes written).last _⟩

theorem bodyReads_archiveInfo {items : Array ArchiveItem} {body : Octets}
    (written : encodeBody (.archiveInfo items) = .ok body) :
    BodyReads 0x32 body.toList (.archiveInfo (items.map ArchiveItem.withLineEnds)) :=
  ⟨.archive, _, _, rfl, rfl, (reads_encodeList scanArchiveItem_undoes written).last _⟩

theorem bodyReads_message {seconds : UInt8} {text : TapeText} {body : Octets}
    (written : encodeBody (.message seconds text) = .ok body) :
    BodyReads 0x31 body.toList (.message seconds text.withLineEnds) := by
  simp only [encodeBody, bind_ok, pure_ok] at written
  obtain ⟨_, writtenText, rfl⟩ := written
  have readsText := scanText_undoes _ _ _ writtenText
  refine ⟨.message, _, _, rfl, rfl, ?_⟩
  apply Reads.of_eq ((Reads.byte _).bind (readsText.last _))
  simp

theorem bodyReads_setSignalLevel (high : Bool) :
    BodyReads 0x2B (encode 4 1 ++ [high.toUInt8]) (.setSignalLevel high) := by
  refine ⟨.setLevel, _, _, rfl, rfl, ?_⟩
  have fits : [high.toUInt8].length < capacity 4 := (by decide : 1 < capacity 4)
  have reads := (Reads.inside fits (Reads.byte high.toUInt8)).last fun level =>
    Block.setSignalLevel (level ≠ 0)
  cases high <;> exact reads

theorem bodyReads_of_encodeBody {block : Block} {body : Octets}
    (written : encodeBody block = .ok body) (known : block.kind ≠ .unsupported) :
    BodyReads (blockId block) body.toList block.withLineEnds := by
  cases block with
  | rom block => exact bodyReads_rom written
  | turbo block => exact bodyReads_turbo written
  | pureTone length pulses =>
      obtain rfl := Except.ok.inj written
      refine ⟨.pureTone, _, _, rfl, rfl, ?_⟩
      exact .of_eq ((Reads.word _).bind ((Reads.word _).last _)) (by simp)
  | pulses lengths => exact bodyReads_pulses written
  | pureData block => exact bodyReads_pureData written
  | rawData block => exact bodyReads_rawData written
  | pause milliseconds =>
      obtain rfl := Except.ok.inj written
      exact ⟨.pause, _, _, rfl, rfl, .of_eq ((Reads.word _).last _) (by simp)⟩
  | groupStart name =>
      exact ⟨.groupStart, _, _, rfl, rfl, (scanText_undoes _ _ _ written).last _⟩
  | groupEnd =>
      obtain rfl := Except.ok.inj written
      exact ⟨.groupEnd, _, _, rfl, rfl, Reads.pure _⟩
  | jump offset =>
      obtain rfl := Except.ok.inj written
      exact ⟨.jump, _, _, rfl, rfl, .of_eq ((Reads.offset _).last _) (by simp)⟩
  | loopStart count =>
      obtain rfl := Except.ok.inj written
      exact ⟨.loopStart, _, _, rfl, rfl, .of_eq ((Reads.word _).last _) (by simp)⟩
  | loopEnd =>
      obtain rfl := Except.ok.inj written
      exact ⟨.loopEnd, _, _, rfl, rfl, Reads.pure _⟩
  | callSequence offsets => exact bodyReads_callSequence written
  | callReturn =>
      obtain rfl := Except.ok.inj written
      exact ⟨.callReturn, _, _, rfl, rfl, Reads.pure _⟩
  | select items => exact bodyReads_select written
  | stopIf48k =>
      obtain rfl := Except.ok.inj written
      have fits : (#[] : Octets).size < capacity 4 := by decide
      exact ⟨.stopIn48k, _, _, rfl, rfl, (Reads.sized fits).last fun _ => Block.stopIf48k⟩
  | setSignalLevel high =>
      obtain rfl := Except.ok.inj written
      exact bodyReads_setSignalLevel high
  | comment text => exact ⟨.text, _, _, rfl, rfl, (scanText_undoes _ _ _ written).last _⟩
  | message seconds text => exact bodyReads_message written
  | archiveInfo items => exact bodyReads_archiveInfo written
  | hardware items => exact bodyReads_hardware written
  | custom description data => exact bodyReads_custom written
  | unsupported id body => exact absurd rfl known

/-! ## Items -/

theorem reads_unsupported {id : UInt8} {body : Octets}
    (kept : (Block.unsupported id body).WellKept) :
    scanItem.Reads (id :: body.toList) (.block (.unsupported id body)) := by
  rcases kept with ⟨identified, spelled⟩ | ⟨rfl, size⟩ | ⟨rfl, flag, rest, same, spelled⟩
  · have readsKept : (scanKept id 4).Reads body.toList (.unsupported id body) :=
      (Reads.spelling spelled).last _
    rcases identified with rfl | rfl | rfl | rfl | unknown
    · exact BodyReads.item ⟨.c64Rom, _, _, rfl, rfl, readsKept⟩
    · exact BodyReads.item ⟨.c64Turbo, _, _, rfl, rfl, readsKept⟩
    · exact BodyReads.item ⟨.cswRecording, _, _, rfl, rfl, readsKept⟩
    · exact BodyReads.item ⟨.generalized, _, _, rfl, rfl, readsKept⟩
    · rw [← List.singleton_append]
      apply Reads.bind ((Reads.byte id).within _)
      simp only [unknown]
      exact (readsKept.within _).last _
  · have readsBody := Reads.take body
    rw [size] at readsBody
    exact BodyReads.item ⟨.emulationInfo, _, _, rfl, rfl, readsBody.last _⟩
  · obtain rfl : body = #[flag] ++ rest.toArray :=
      Array.toList_inj.mp (by simpa using same)
    have readsRest : (Scan.spelling 3).Reads rest rest.toArray := Reads.spelling spelled
    rw [same]
    exact BodyReads.item ⟨.snapshot, _, _, rfl, rfl,
      (Reads.byte flag).bind (readsRest.last _)⟩

theorem scanItem_reads {block : Block} {octets : Octets} (kept : block.WellKept)
    (written : encodeBlock block = .ok octets) :
    scanItem.Reads octets.toList (.block block.withLineEnds) := by
  simp only [encodeBlock, bind_ok, pure_ok] at written
  obtain ⟨body, writtenBody, rfl⟩ := written
  rw [Array.toList_append]
  by_cases known : block.kind = .unsupported
  · cases block with
    | unsupported id octets =>
        obtain rfl := Except.ok.inj writtenBody
        exact reads_unsupported kept
    | _ => cases known
  · exact (bodyReads_of_encodeBody writtenBody known).item

/-! ## Line ends -/

theorem encodeText_withLineEnds (part : String) (text : TapeText) :
    encodeText part text.withLineEnds = encodeText part text := by
  have twice (octet : UInt8) :
      lineEnd (if octet = 10 then 13 else octet) = lineEnd octet := by
    unfold lineEnd
    split <;> simp_all
  simp [encodeText, TapeText.withLineEnds, Function.comp_def, twice]

theorem encodeList_map {α : Type} (part : String) {item : α → Except Error Octets}
    {image : α → α}
    (same : ∀ value, item (image value) = item value) (values : Array α) :
    encodeList part item (values.map image) = encodeList part item values := by
  simp only [encodeList, encodeItems, Array.size_map, Array.toList_map,
    List.foldlM_map, same]

theorem encodeBlock_withLineEnds (block : Block) :
    encodeBlock block.withLineEnds = encodeBlock block := by
  have body : encodeBody block.withLineEnds = encodeBody block := by
    cases block with
    | groupStart name => exact encodeText_withLineEnds _ name
    | comment text => exact encodeText_withLineEnds _ text
    | message seconds text =>
        simp only [Block.withLineEnds, encodeBody, encodeText_withLineEnds]
    | select items =>
        apply encodeList_map
        intro item
        simp only [encodeSelectItem, SelectItem.withLineEnds, encodeText_withLineEnds]
    | archiveInfo items =>
        apply encodeList_map
        intro item
        simp only [encodeArchiveItem, ArchiveItem.withLineEnds, encodeText_withLineEnds]
    | _ => rfl
  have id : blockId block.withLineEnds = blockId block := by
    cases block <;> rfl
  rw [encodeBlock, body, id, encodeBlock]

end Tzx

end ZxMedia
