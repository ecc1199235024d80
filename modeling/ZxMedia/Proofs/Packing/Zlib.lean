import Mathlib
import ZxMedia.Packing.Packer
import ZxMedia.Proofs.Packing.Decoder
import ZxMedia.Proofs.Packing.Sizes

/-!
# Zlib streams are unpacked again

The packer takes the shortest form of the data that the decoder reads correctly, and
stored blocks if there is none. So it is enough that stored blocks are read correctly,
for data of any size, and that the decoder gives all of what it decodes
(`Zlib.decoder_gives`), window by window.
-/

namespace ZxMedia.Packing

open LittleEndian (capacity decode encode)

/-! ## Stored blocks -/

/-- What follows the mark of a stored block is read off the front of what it begins. -/
theorem inflateStored_append {octets : List UInt8} (fits : octets.length ≤ maxStored)
    {size : List UInt8} (same : size = encode 2 octets.length) (pending : List Bool)
    (rest : List UInt8) (output : Octets) :
    inflateStored ⟨pending, size ++ size.map (~~~ ·) ++ octets ++ rest⟩ output =
      ⟨output ++ octets, .ok (.ofOctets rest)⟩ := by
  have counted : decode size = octets.length := by
    rw [same, LittleEndian.decode_encode]
    exact Nat.lt_of_le_of_lt fits (by decide)
  have width : size.length = 2 := by
    rw [same, LittleEndian.length_encode]
  match size, width with
  | [low, high], _ => simp [inflateStored, BitSource.align, counted]

/-- The mark of a stored block says whether the block is the last one, and its kind. -/
theorem number?_mark (isLast : Bool) (rest : List UInt8) :
    (BitSource.ofOctets (UInt8.ofNat isLast.toNat :: rest)).number? 3 =
      some (isLast.toNat, ⟨List.replicate 5 false, rest⟩) := by
  cases isLast <;> rfl

/-- Decoding goes on behind a stored block unless it is the last one. -/
theorem inflateBlocks_storedBlock (steps allowed : Nat) {octets : List UInt8}
    (fits : octets.length ≤ maxStored) (isLast : Bool) (rest : List UInt8)
    (output : Octets) :
    inflateBlocks steps (allowed + 1) (.ofOctets (storedBlock isLast octets ++ rest)) output =
      if isLast then ⟨output ++ octets, .ok (.ofOctets rest)⟩
      else inflateBlocks steps allowed (.ofOctets rest) (output ++ octets) := by
  have read := inflateStored_append fits rfl (List.replicate 5 false) rest output
  have stored : isLast.toNat / 2 = 0 := by cases isLast <;> rfl
  simp only [storedBlock, List.cons_append, inflateBlocks, number?_mark, stored,
    inflateBlock, read]
  cases isLast <;> rfl

/-- Stored blocks are read up to the last one. -/
theorem inflateBlocks_storedBlocks (steps : Nat) {blocks allowed : Nat}
    (enough : blocks < allowed)
    {octets : List UInt8} (fits : octets.length ≤ (blocks + 1) * maxStored)
    (rest : List UInt8)
    (output : Octets) :
    inflateBlocks steps allowed (.ofOctets (storedBlocks blocks octets ++ rest)) output =
      ⟨output ++ octets, .ok (.ofOctets rest)⟩ := by
  induction blocks generalizing allowed octets output with
  | zero =>
      obtain ⟨allowed, rfl⟩ := Nat.exists_eq_succ_of_ne_zero (Nat.ne_of_gt enough)
      have short : octets.length ≤ maxStored := by omega
      exact inflateBlocks_storedBlock steps allowed short true rest output
  | succ blocks ih =>
      have some : allowed ≠ 0 := Nat.ne_of_gt (Nat.zero_lt_of_lt enough)
      obtain ⟨allowed, rfl⟩ := Nat.exists_eq_succ_of_ne_zero some
      have short : (octets.take maxStored).length ≤ maxStored := List.length_take_le _ _
      have left : (octets.drop maxStored).length ≤ (blocks + 1) * maxStored := by
        rw [List.length_drop]
        rw [Nat.add_mul] at fits
        omega
      rw [storedBlocks, List.append_assoc, inflateBlocks_storedBlock steps allowed short]
      rw [if_neg Bool.false_ne_true, ih (Nat.lt_of_succ_lt_succ enough) left]
      have whole : output ++ octets.take maxStored ++ octets.drop maxStored = output ++ octets := by
        apply Array.toList_inj.mp
        simp
      rw [whole]

theorem length_storedBlocks_ge (blocks : Nat) (octets : List UInt8) :
    octets.length ≤ (storedBlocks blocks octets).length := by
  induction blocks generalizing octets with
  | zero =>
      simp only [storedBlocks, storedBlock, List.length_cons, List.length_append]
      omega
  | succ blocks ih =>
      have left := ih (octets.drop maxStored)
      rw [List.length_drop] at left
      simp only [storedBlocks, storedBlock, List.length_cons,
        List.length_append, List.length_take]
      omega

/-- Stored data is decoded whatever follows it. -/
theorem inflate_store (data : Octets) (rest : List UInt8) :
    inflate (store data ++ rest) = ⟨data, .ok (.ofOctets rest)⟩ := by
  have longer := length_storedBlocks_ge (data.size / maxStored) data.toList
  have few : data.size / maxStored ≤ data.size := Nat.div_le_self _ _
  have fits : data.toList.length ≤ (data.size / maxStored + 1) * maxStored := by
    have whole := Nat.div_add_mod data.size maxStored
    have part := Nat.mod_lt data.size (by decide : 0 < maxStored)
    rw [Array.length_toList, Nat.add_mul, Nat.mul_comm]
    omega
  unfold inflate store
  rw [inflateBlocks_storedBlocks _ _ fits]
  · simp
  · rw [Array.length_toList] at longer
    rw [List.length_append]
    omega

/-! ## Streams -/

theorem adler32_lt (data : Octets) : adler32 data < UInt32.size := by
  have bound : (data.foldl adlerStep (1, 0)).1 < adlerModulus ∧
      (data.foldl adlerStep (1, 0)).2 < adlerModulus := by
    apply Array.foldl_induction
      (fun _ (sums : Nat × Nat) => sums.1 < adlerModulus ∧ sums.2 < adlerModulus)
    · exact ⟨by decide, by decide⟩
    · intro _ sums _
      exact ⟨Nat.mod_lt _ (by decide), Nat.mod_lt _ (by decide)⟩
  have modulus : adlerModulus = 65521 := rfl
  unfold adler32
  change _ < 4294967296
  dsimp only
  omega

theorem Zlib.decode_stream_store (data : Octets) :
    Zlib.decode (Zlib.stream data (store data)) = ⟨data, .ok (.ofOctets [])⟩ := by
  have fits : adler32 data < capacity 4 := adler32_lt data
  have sum := LittleEndian.decode_encode fits
  have width := LittleEndian.length_encode 4 (adler32 data)
  unfold Zlib.stream Zlib.decode
  generalize encode 4 (adler32 data) = octets at sum width
  match octets, width with
  | [fourth, third, second, first], _ =>
      have header : Zlib.isHeader 0x78 0xDA = true := by decide
      have summed : Zlib.sumOf first second third fourth = adler32 data := sum
      simp [header, inflate_store, BitSource.align, BitSource.ofOctets, summed]

/-! ## The decoder -/

theorem Inflated.not_isSound {content : Inflated} (broken : content.isBroken = true) :
    ¬ content.isSound = true := by
  obtain ⟨output, ending⟩ := content
  cases ending with
  | error stop => exact Bool.false_ne_true
  | ok source => cases broken

theorem Zlib.le_windowEnd (position : Nat) : position ≤ Zlib.windowEnd position := by
  unfold Zlib.windowEnd Zlib.window
  omega

/-- How far a decoder has come when it has given some octets of the content of a
stream. -/
structure Zlib.Progress.Underway (progress : Progress) (stream : List UInt8)
    (given : Octets) : Prop where
  content : progress.content = decode stream
  given : given = progress.content.output.extract 0 progress.given
  inside : progress.given ≤ progress.ready
  ready : progress.ready ≤ progress.content.output.size

/-- A portion goes on with the content of a stream where some octets of it are given. -/
structure Zlib.GoesOn (stream : List UInt8) (given : Octets) (read room : Nat)
    (portion : Portion (Option Progress)) : Prop where
  read : portion.read = read
  inRoom : portion.octets.size ≤ room
  advances : given.size < (decode stream).output.size → 0 < portion.octets.size
  last : portion.isLast = true ↔
    (decode stream).isSound = true ∧ given ++ portion.octets = (decode stream).output
  state : ∃ next, portion.state = some next ∧ next.Underway stream (given ++ portion.octets)

namespace Zlib.Progress.Underway

variable {progress : Progress} {stream : List UInt8} {given : Octets} {read room : Nat}
  {portion : Portion (Option Progress)}

theorem start (stream : List UInt8) :
    Underway { content := decode stream } stream #[] where
  content := rfl
  given := by simp
  inside := Nat.le_refl 0
  ready := Nat.zero_le _

/-- Working ahead gets beyond what is given as long as anything is left. -/
theorem workAhead_bounds (underway : progress.Underway stream given) (space : 0 < room) :
    progress.given ≤ progress.workAhead room ∧
      progress.workAhead room ≤ progress.content.output.size ∧
      (progress.given < progress.content.output.size →
        progress.given < progress.workAhead room) := by
  obtain ⟨-, -, inside, ready⟩ := underway
  have covered := le_windowEnd (min (progress.given + room) progress.content.output.size)
  unfold workAhead
  dsimp only
  split <;> omega

theorem size_given (underway : progress.Underway stream given) :
    given.size = progress.given := by
  obtain ⟨-, given, inside, ready⟩ := underway
  rw [given, Array.size_extract]
  omega

theorem isPrefix (underway : progress.Underway stream given) :
    ∃ rest, (decode stream).output = given ++ rest := by
  obtain ⟨content, whole, inside, ready⟩ := underway
  have bound := Nat.le_trans inside ready
  rw [content] at whole bound
  refine ⟨(decode stream).output.extract progress.given, ?_⟩
  rw [whole, Array.extract_append_extract, Nat.min_eq_left (Nat.zero_le _),
    Nat.max_eq_right bound, Array.extract_size]

/-- The portion that is given out next, unless the stream is broken. -/
theorem give?_cases (underway : progress.Underway stream given) (read : Nat)
    (space : 0 < room) :
    (decode stream).isBroken = true ∧ progress.give? read room = none ∨
      ∃ portion, progress.give? read room = some portion ∧
        GoesOn stream given read room portion := by
  obtain ⟨lower, upper, beyond⟩ := underway.workAhead_bounds space
  have size := underway.size_given
  obtain ⟨content, whole, inside, ready⟩ := underway
  generalize ahead : progress.workAhead room = decoded at lower upper beyond
  have joined : given ++ progress.content.output.extract progress.given
        (min (progress.given + room) decoded) =
      progress.content.output.extract 0 (min (progress.given + room) decoded) := by
    rw [whole, Array.extract_append_extract]
    congr 1
    all_goals omega
  unfold give?
  simp only [ahead]
  split
  next broken =>
    rw [content] at broken
    exact .inl ⟨broken.1, rfl⟩
  next =>
    refine .inr ⟨_, rfl, ?_⟩
    constructor
    case read => rfl
    case inRoom =>
      rw [Array.size_extract]
      omega
    case advances =>
      rw [size, ← content, Array.size_extract]
      omega
    case last =>
      rw [joined, ← content, decide_eq_true_iff]
      refine and_congr_right fun _ => ⟨fun all => ?_, fun all => ?_⟩
      · rw [all, Array.extract_size]
      · have sizes := congrArg Array.size all
        rw [Array.size_extract] at sizes
        omega
    case state =>
      rw [joined]
      exact ⟨_, rfl, content, rfl, Nat.min_le_right _ _, upper⟩

end Zlib.Progress.Underway

namespace Zlib

theorem underway_of_reaches {stream input : List UInt8} {state : decoder.State}
    {given : Octets}
    (reached : decoder.Reaches stream state input given) :
    Progress.Underway (Option.getD state { content := decode input }) stream given := by
  induction reached with
  | start => exact .start stream
  | @call _ input _ _ _ _ space answer _ ih =>
      obtain ⟨-, failed⟩ | ⟨portion, gives, goesOn⟩ := ih.give?_cases input.length space
      · cases failed.symm.trans answer
      · cases gives.symm.trans answer
        obtain ⟨next, same, underway⟩ := goesOn.state
        rw [same]
        exact underway

theorem answers_cases {stream input : List UInt8} {given : Octets} {room : Nat}
    {answer : Option (Portion (Option Progress))}
    (call : decoder.Answers stream input given room answer) :
    (decode stream).isBroken = true ∧ answer = none ∨
      ∃ portion, answer = some portion ∧
        GoesOn stream given input.length room portion := by
  obtain ⟨space, state, reached, rfl⟩ := call
  exact (underway_of_reaches reached).give?_cases input.length space

theorem goesOn_of_answers {stream input : List UInt8} {given : Octets} {room : Nat}
    {portion : Portion (Option Progress)}
    (call : decoder.Answers stream input given room (some portion)) :
    GoesOn stream given input.length room portion := by
  obtain ⟨-, failed⟩ | ⟨_, same, goesOn⟩ := answers_cases call
  · cases failed
  · cases same
    exact goesOn

/-- The decoder gives what is decoded of a stream. -/
theorem decoder_gives (stream : List UInt8) :
    decoder.Gives stream (decode stream).output ((decode stream).isSound = true) := by
  constructor
  case next =>
    intro input given room portion call
    have goesOn := goesOn_of_answers call
    obtain ⟨next, -, underway⟩ := goesOn.state
    exact ⟨goesOn.read.le, goesOn.inRoom, underway.isPrefix⟩
  case advances =>
    intro input given room portion sound call unfinished
    obtain ⟨-, state, reached, -⟩ := id call
    obtain ⟨rest, whole⟩ := (underway_of_reaches reached).isPrefix
    have left : rest ≠ #[] := by
      rintro rfl
      exact unfinished (by rw [whole, Array.append_empty])
    have size := Array.size_pos_iff.mpr left
    apply Array.size_pos_iff.mp
    apply (goesOn_of_answers call).advances
    rw [whole, Array.size_append]
    omega
  case last =>
    intro input given room portion call
    exact (goesOn_of_answers call).last
  case answers =>
    intro input given room sound call
    obtain ⟨broken, -⟩ | ⟨_, some, -⟩ := answers_cases call
    · exact Inflated.not_isSound broken sound
    · cases some

end Zlib

theorem Zlib.decode_deflate (data : Octets) :
    ∃ source, Zlib.decode (Zlib.deflate data).toList = ⟨data, .ok source⟩ := by
  unfold Zlib.deflate
  dsimp only
  split
  next read =>
    dsimp only
    generalize Zlib.decode (Zlib.stream data (Packing.deflate data)) = content at read
    obtain ⟨output, ending⟩ := content
    obtain ⟨rfl, complete⟩ := read
    cases ending with
    | error stop => cases complete
    | ok source => exact ⟨source, rfl⟩
  next => exact ⟨_, Zlib.decode_stream_store data⟩

/-- A stream is inflated exactly if it is decoded to its end and has the declared
size. -/
theorem Zlib.inflate_ok_iff {stream output : Octets} {declared : Option Nat} :
    Zlib.inflate stream declared = .ok output ↔
      (Zlib.decode stream.toList).isSound = true ∧
      output = (Zlib.decode stream.toList).output ∧
        ∀ size ∈ declared, (Zlib.decode stream.toList).output.size = size := by
  have enough := Zlib.size_decode_lt stream.toList
  rw [Array.length_toList] at enough
  exact (Zlib.decoder_gives stream.toList).inflate_ok_iff enough

/-- Whatever is packed as a zlib stream is unpacked again. -/
theorem Zlib.packer_restores : Zlib.packer.Restores := by
  have restored (data : Octets) (declared : Option Nat)
      (same : ∀ size ∈ declared, data.size = size) :
      Zlib.inflate (Zlib.deflate data) declared = .ok data := by
    obtain ⟨source, decoded⟩ := Zlib.decode_deflate data
    rw [Zlib.inflate_ok_iff, decoded]
    exact ⟨rfl, rfl, same⟩
  exact ⟨fun data => restored data none (by simp), fun data => restored data _ (by simp)⟩

end ZxMedia.Packing
