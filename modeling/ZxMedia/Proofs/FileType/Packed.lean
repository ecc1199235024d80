import ZxMedia.Proofs.FileType.Identify
import ZxMedia.Proofs.FileType.Name
import ZxMedia.Proofs.Packing.Gzip

/-!
# Files packed again and again

A file that is packed has the signature of packed files, and their extension is put
behind its name. Both together outscore whatever else may be in the packed octets, so
every layer is seen, and taking the extension off gives the name of the layer below. In
the end the file is identified by the name and the content that it had at first.
-/

namespace ZxMedia

open FileType (identify identifyClass)

variable {inflate : Octets → Except Error Octets} {file inflated : Octets}
    {name : Option String}
  {unpacked : Option Octets} {type : FileType}

/-! ## One layer -/

theorem identifyDeep_of_unpacked (layers : Nat)
    (identified : identify (unpacked.getD file) name = type) (notGz : type ≠ .gz)
    (notBz2 : type ≠ .bz2) :
    identifyDeep layers file name unpacked inflate = .ok { type, unpacked } := by
  subst identified
  cases layers <;> simp only [identifyDeep]

theorem identifyDeep_of_packed {layers : Nat}
    (identified : identify (unpacked.getD file) name = .gz)
    (unpacks : inflate (unpacked.getD file) = .ok inflated) :
    identifyDeep (layers + 1) file name unpacked inflate =
      identifyDeep layers file (name.map FileName.dropExtension) (some inflated) inflate := by
  simp only [identifyDeep, identified, unpacks]

/-! ## Names -/

/-- A name with the extension of packed files put behind it a number of times. -/
def packedName (base : String) : Nat → String
  | 0 => base
  | layers + 1 => packedName base layers ++ ".gz"

theorem toList_packedName (base : String) (layers : Nat) :
    (packedName base (layers + 1)).toList =
      (packedName base layers).toList ++ '.' :: ['g', 'z'] := by
  rw [packedName, String.toList_append]
  rfl

theorem inExtension_gz : ∀ c ∈ ['g', 'z'], FileName.InExtension c := by
  simp [FileName.InExtension, FileName.isSeparator]

theorem extension?_packedName (base : String) (layers : Nat) :
    FileName.extension? (packedName base (layers + 1)) = some "gz" :=
  FileName.extension?_eq (toList_packedName base layers) inExtension_gz

theorem dropExtension_packedName (base : String) (layers : Nat) :
    FileName.dropExtension (packedName base (layers + 1)) = packedName base layers := by
  rw [FileName.dropExtension_eq (toList_packedName base layers) inExtension_gz,
    String.ofList_toList]

/-! ## All layers -/

/-- Each layer up to a number of them is a packed form of the layer below. -/
def PackedBy (inflate : Octets → Except Error Octets) (layer : Nat → Octets)
    (count : Nat) : Prop :=
  ∀ index < count, [0x1F, 0x8B] <+: (layer (index + 1)).toList ∧
    inflate (layer (index + 1)) = .ok (layer index)

variable {base : String} {layer : Nat → Octets}

theorem identifyDeep_layers {count layers : Nat}
    (packed : PackedBy inflate layer count) (enough : count ≤ layers)
    (notGz : identify (layer 0) (some base) ≠ .gz)
    (notBz2 : identify (layer 0) (some base) ≠ .bz2)
    (reached : unpacked.getD file = layer count) :
    identifyDeep layers file (some (packedName base count)) unpacked inflate =
      .ok { type := identify (layer 0) (some base)
            unpacked := if count = 0 then unpacked else some (layer 0) } := by
  induction count generalizing layers unpacked with
  | zero => exact identifyDeep_of_unpacked layers (by rw [reached]; rfl) notGz notBz2
  | succ count ih =>
      obtain ⟨layers, rfl⟩ := Nat.exists_eq_add_of_le' (Nat.one_le_of_lt enough)
      obtain ⟨⟨rest, begins⟩, unpacks⟩ := packed count (Nat.lt_succ_self count)
      have signed : FileType.gzSignature.matches (layer (count + 1)) = true :=
        FileType.Signature.matches_of_front rfl begins.symm
      have identified :
          identify (unpacked.getD file) (some (packedName base (count + 1))) = .gz := by
        rw [reached]
        exact FileType.identify_gz (extension?_packedName base count) signed
      have below : PackedBy inflate layer count :=
        fun index less => packed index (Nat.lt_succ_of_lt less)
      rw [identifyDeep_of_packed identified (by rw [reached, unpacks]), Option.map_some,
        dropExtension_packedName, ih below (Nat.le_of_succ_le_succ enough) rfl]
      cases count <;> rfl

/-- A file that was packed a number of times, and named so, is identified as the file at
first. -/
theorem identifyDeep_packedName {count layers : Nat}
    (packed : PackedBy inflate layer count) (enough : count ≤ layers)
    (notGz : identify (layer 0) (some base) ≠ .gz)
    (notBz2 : identify (layer 0) (some base) ≠ .bz2) :
    ∃ found, identifyDeep layers (layer count) (some (packedName base count)) none inflate =
        .ok found ∧
      (found.type, found.fileClass) = identifyClass (layer 0) (some base) ∧
      found.unpacked = if count = 0 then none else some (layer 0) :=
  ⟨_, identifyDeep_layers packed enough notGz notBz2 rfl, rfl, rfl⟩

theorem packedBy_deflate (content : Octets) (count : Nat) :
    PackedBy Packing.Gzip.inflate (fun layers => Packing.Gzip.deflate^[layers] content) count := by
  intro index _
  simp only [Function.iterate_succ_apply']
  exact ⟨Packing.Gzip.signature_prefix_deflate _, Packing.Gzip.inflate_deflate _⟩

/-- What could be a tape of two types is told by its name also when it was packed three
times. -/
theorem identifyDeep_packedName_thrice :
    identify #[0x13, 0, 0] (some "dir.x/SIDE.ltp") = .ltp ∧
      ∃ found, identifyDeep 3 (Packing.Gzip.deflate^[3] #[0x13, 0, 0])
          (some "dir.x/SIDE.ltp.gz.gz.gz") none = .ok found ∧
        (found.type, found.fileClass) = (.ltp, .tape) ∧
        found.unpacked = some #[0x13, 0, 0] := by
  have identified :
      identify #[0x13, 0, 0] (some "dir.x/SIDE.ltp") = .ltp := by decide +kernel
  have packed := packedBy_deflate #[0x13, 0, 0] 3
  obtain ⟨found, reached, type, unpacked⟩ :=
    @identifyDeep_packedName _ "dir.x/SIDE.ltp" _ 3 3 packed (Nat.le_refl 3)
      (ne_of_eq_of_ne identified (by decide)) (ne_of_eq_of_ne identified (by decide))
  refine ⟨identified, found, reached, type.trans ?_, unpacked⟩
  exact congrArg (fun type => (type, type.fileClass)) identified

end ZxMedia
