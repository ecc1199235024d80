import ZxMedia.Proofs.Tape.Transfer

/-!
# Transfers within the tolerances

A recorder does not insist on the pulses of the machine's own routines. Each pulse of a
transfer may lie anywhere in a range of its own, and the number of bits need not be a
multiple of eight (`Transfer`). The recorder packs the bits into octets, the highest bit
first, and fills up the last one with zero bits. A pulse behind them that is only one
half of a bit does not count.
-/

namespace ZxMedia.Recorder

variable {recorder received : Recorder} {pause : UInt16} {count tstates : Nat}
variable {octets : List UInt8} {ahead : List Bool}

/-! ## An octet that is not complete -/

theorem foldl_addBit_replicate (few : count < 8) (bits : UInt8) :
    (List.replicate count false).foldl addBit bits = bits <<< UInt8.ofNat count := by
  revert bits
  interval_cases count <;> decide +kernel

/-- Without its last bit an octet is as if that were zero. -/
theorem addBit_masked (bits : UInt8) (bit : Bool) :
    addBit bits bit &&& 0xFE = addBit bits false := by
  revert bits bit
  decide +kernel

/-- Eight bits are those of the octet that is made of them. -/
theorem octetBits_foldl_addBit {eight : List Bool} (whole : eight.length = 8) :
    octetBits 8 (eight.foldl addBit 0) = eight := by
  match eight, whole with
  | [a, b, c, d, e, f, g, h], _ =>
      revert a b c d e f g h
      decide +kernel

theorem lastOctet_even (some : 0 < count) (few : count < 8) (bits : UInt8) :
    lastOctet bits (2 * count) =
      (List.replicate (8 - count) false).foldl addBit bits := by
  have even : ¬2 * count % 2 = 1 := by omega
  have left : (16 - 2 * count % 16) / 2 = 8 - count := by omega
  rw [foldl_addBit_replicate (by omega)]
  simp only [lastOctet, if_neg even, left]

theorem lastOctet_odd (few : count < 8) (bits : UInt8) (bit : Bool) :
    lastOctet (addBit bits bit) (2 * count + 1) =
      (List.replicate (8 - count) false).foldl addBit bits := by
  have odd : (2 * count + 1) % 2 = 1 := by omega
  have left : (16 - (2 * count + 1) % 16) / 2 = 7 - count := by omega
  have more : 8 - count = 7 - count + 1 := by omega
  rw [more, List.replicate_succ, List.foldl_cons, foldl_addBit_replicate (by omega)]
  simp only [lastOctet, if_pos odd, left, addBit_masked]

/-! ## Octets and bits -/

/-- The octets hold the bits, the highest one first, and zero bits up to the end of the
last one. -/
def Packs (octets : List UInt8) (bits : List Bool) : Prop :=
  ∃ fill < 8, octets.flatMap (octetBits 8) = bits ++ List.replicate fill false

/-- Bits are those of whole octets with fewer than eight others behind them. -/
theorem exists_octets (bits : List Bool) :
    ∃ octets ahead, bits = List.flatMap (octetBits 8) octets ++ ahead ∧
      ahead.length < 8 := by
  generalize size : bits.length = length
  induction length using Nat.strongRecOn generalizing bits with
  | _ length ih =>
      by_cases few : length < 8
      · exact ⟨[], bits, rfl, size ▸ few⟩
      · have shorter : (bits.drop 8).length < length := by
          rw [List.length_drop]
          omega
        have whole : (bits.take 8).length = 8 := by
          rw [List.length_take]
          omega
        obtain ⟨octets, ahead, same, left⟩ := ih _ shorter (bits.drop 8) rfl
        refine ⟨(bits.take 8).foldl addBit 0 :: octets, ahead, ?_, left⟩
        rw [List.flatMap_cons, octetBits_foldl_addBit whole, List.append_assoc, ← same,
          List.take_append_drop]

/-- The recorder that has received octets, some bits of the next one and maybe one half
of another bit. -/
def midway (octets : List UInt8) (ahead : List Bool) (pause : UInt16) :
    Option Bool → Recorder
  | none =>
    { state := .data (ahead.foldl addBit 0) (2 * ahead.length), data := octets.toArray, pause }
  | some bit =>
    { state := .data (addBit (ahead.foldl addBit 0) bit) (2 * ahead.length + 1)
      data := octets.toArray
      pause }

theorem inOctet_midway (few : ahead.length < 8) (half : Option Bool) :
    ∀ bits pulses, (midway octets ahead pause half).state = .data bits pulses →
      pulses ≤ 15 := by
  intro bits pulses state
  cases half with
  | none =>
      cases state
      omega
  | some bit =>
      cases state
      omega

theorem packs_midway (few : ahead.length < 8) :
    ∃ packed, Packs packed (octets.flatMap (octetBits 8) ++ ahead) ∧
      ∀ half, (midway octets ahead pause half).received = packed.toArray := by
  cases ahead with
  | nil =>
      refine ⟨octets, ⟨0, by decide, ?_⟩, ?_⟩
      · rw [List.append_nil, List.replicate_zero, List.append_nil]
      · intro half
        cases half <;> rfl
  | cons first others =>
      have some : 0 < (first :: others).length := Nat.zero_lt_succ _
      generalize first :: others = ahead at few some
      have even : ¬2 * ahead.length ≤ 1 := by omega
      have odd : ¬2 * ahead.length + 1 ≤ 1 := by omega
      have whole : (ahead ++ List.replicate (8 - ahead.length) false).length = 8 := by
        rw [List.length_append, List.length_replicate]
        omega
      refine ⟨octets ++ [(List.replicate (8 - ahead.length) false).foldl addBit
        (ahead.foldl addBit 0)], ⟨8 - ahead.length, by omega, ?_⟩, ?_⟩
      · rw [← List.foldl_append, List.flatMap_append, List.flatMap_singleton,
          octetBits_foldl_addBit whole, List.append_assoc]
      · intro half
        cases half with
        | none =>
            simp only [midway, Recorder.received, if_neg even, lastOctet_even some few,
              List.push_toArray]
        | some bit =>
            simp only [midway, Recorder.received, if_neg odd, lastOctet_odd few,
              List.push_toArray]

/-- A recorder in the middle of a transfer ends it with the block of what it holds. -/
theorem finish_midway (few : ahead.length < 8) {half : Option Bool} {packed : List UInt8}
    (holds : (midway octets ahead pause half).received = packed.toArray)
    (filled : packed ≠ []) :
    (midway octets ahead pause half).finish =
      .ok (some (.rom { pause, data := packed.toArray }), { pause }) := by
  have full : packed.toArray.isEmpty = false := by simpa using filled
  rw [finish_of_inOctet (inOctet_midway few half), block?, holds, full]
  cases half <;> rfl

theorem Packs.ne_nil {bits : List Bool} (packs : Packs octets bits) (some : bits ≠ []) :
    octets ≠ [] := by
  rintro rfl
  obtain ⟨fill, -, same⟩ := packs
  exact some (List.append_eq_nil_iff.mp same.symm).1

/-! ## Decoding -/

theorem Receives.decode {pulses : List Nat} (receives : recorder.Receives pulses received)
    (rest : List Nat) :
    recorder.decode (pulses ++ rest) = received.decode rest := by
  induction receives with
  | nil => rfl
  | @cons recorder middle after tstates pulses taken later ih =>
      rw [List.cons_append, Recorder.decode]
      unfold take at taken
      cases intake : recorder.intake tstates with
      | error error =>
          rw [intake] at taken
          cases taken
      | ok answer =>
          rw [intake] at taken
          dsimp only at taken
          rw [taken]
          exact ih

/-- A pulse of data may have this length. -/
def InData (tstates : Nat) : Prop :=
  605 ≤ tstates ∧ tstates ≤ 1959

instance : DecidablePred InData := fun _ => inferInstanceAs (Decidable (_ ∧ _))

theorem isDataPulse_iff : isDataPulse tstates = true ↔ InData tstates := by
  simp [isDataPulse, InData]

theorem pulseBit_eq (tstates : Nat) :
    pulseBit tstates = (decide (1282 < tstates)).toUInt8 := by
  unfold pulseBit
  by_cases long : 1282 < tstates
  · rw [if_pos long, decide_eq_true long]
    rfl
  · rw [if_neg long, decide_eq_false long]
    rfl

theorem codes_of_inData (inside : InData tstates) :
    Codes (decide (1282 < tstates)) tstates where
  inRange := isDataPulse_iff.mpr inside
  value := pulseBit_eq tstates

/-- The pulses of a transfer, each of them in the range that a recorder allows for
it. -/
structure Transfer where
  tone : List Nat
  sync1 : Nat
  sync2 : Nat
  /-- The two pulses of each bit. -/
  pairs : List (Nat × Nat)
  /-- A pulse behind them that is one half of a bit. -/
  half : Option Nat
  long : 16 ≤ tone.length
  lead : ∀ tstates ∈ tone, 1918 ≤ tstates ∧ tstates ≤ 2417
  first : 633 ≤ sync1 ∧ sync1 ≤ 700
  second : 701 ≤ sync2 ∧ sync2 ≤ 768
  filled : pairs ≠ []
  matched : ∀ pair ∈ pairs, InData pair.1 ∧ InData pair.2 ∧ (1282 < pair.1 ↔ 1282 < pair.2)
  begun : ∀ tstates ∈ half, InData tstates

namespace Transfer

/-- The bits of which both pulses came. -/
def bits (transfer : Transfer) : List Bool :=
  transfer.pairs.map fun pair => decide (1282 < pair.1)

def pulses (transfer : Transfer) : List Nat :=
  transfer.tone ++ [transfer.sync1, transfer.sync2] ++
    transfer.pairs.flatMap (fun pair => [pair.1, pair.2]) ++ transfer.half.toList

/-- The pulse does not go on with the transfer: it is no data, or it does not match the
half of a bit in front of it. -/
def EndedBy (transfer : Transfer) (tstates : Nat) : Prop :=
  ¬InData tstates ∨
    ∃ half, transfer.half = some half ∧ ¬(1282 < half ↔ 1282 < tstates)

variable {transfer : Transfer}

theorem codesAll_pairs {pairs : List (Nat × Nat)}
    (matched : ∀ pair ∈ pairs, InData pair.1 ∧ InData pair.2 ∧ (1282 < pair.1 ↔ 1282 < pair.2)) :
    CodesAll (pairs.map fun pair => decide (1282 < pair.1))
      (pairs.flatMap fun pair => [pair.1, pair.2]) := by
  induction pairs with
  | nil => exact .nil
  | cons pair pairs ih =>
      obtain ⟨one, two, same⟩ := matched pair List.mem_cons_self
      have others :=
        ih fun later member => matched later (List.mem_cons_of_mem pair member)
      have second := codes_of_inData two
      rw [← decide_eq_decide.mpr same] at second
      exact .cons (codes_of_inData one) second others

theorem bits_ne_nil (transfer : Transfer) : transfer.bits ≠ [] := by
  simpa [bits] using transfer.filled

theorem receives (transfer : Transfer) (pause : UInt16) :
    ∃ octets ahead, transfer.bits = List.flatMap (octetBits 8) octets ++ ahead ∧
      ahead.length < 8 ∧
      Receives { pause } transfer.pulses
        (midway octets ahead pause (transfer.half.map fun half => decide (1282 < half))) := by
  obtain ⟨octets, ahead, split, few⟩ := exists_octets transfer.bits
  refine ⟨octets, ahead, split, few, ?_⟩
  have coded :
      CodesAll transfer.bits (transfer.pairs.flatMap fun pair => [pair.1, pair.2]) :=
    codesAll_pairs transfer.matched
  have lead := @receives_lead pause transfer.tone transfer.sync1 transfer.sync2
    (by simpa [isLeadPulse] using transfer.lead) transfer.long
    (by simpa [isSync1Pulse] using transfer.first) (by simpa [isSync2Pulse] using transfer.second)
  have data : Receives { state := .data 0 0, data := #[], pause }
      (transfer.pairs.flatMap fun pair => [pair.1, pair.2]) (midway octets ahead pause none) := by
    rw [split] at coded
    obtain ⟨first, later, same, whole, partly⟩ := coded.append_left
    have begun := @receives_octets #[] pause _ _ whole
    have others := @receives_bits octets.toArray pause 0 0 _ _ partly (by omega)
    rw [Array.empty_append] at begun
    rw [Nat.zero_add] at others
    rw [same]
    exact begun.append others
  have opened := lead.append (receives_opening coded transfer.bits_ne_nil data)
  cases half : transfer.half with
  | none =>
      simp only [pulses, half, Option.toList_none, List.append_nil]
      exact opened
  | some tstates =>
      simp only [pulses, half, Option.toList_some]
      have codes := codes_of_inData (transfer.begun tstates half)
      exact opened.append (.cons (take_first codes) (.nil _))

theorem EndedBy.intake (ends : transfer.EndedBy tstates) :
    (midway octets ahead pause
      (transfer.half.map fun half => decide (1282 < half))).intake tstates = .ok .ends := by
  by_cases inside : isDataPulse tstates = true
  · obtain ⟨half, begun, differs⟩ :=
      ends.resolve_left (not_not.mpr (isDataPulse_iff.mp inside))
    have odd : (2 * ahead.length + 1) % 2 = 1 := by omega
    have other : (decide (1282 < half)).toUInt8 ≠ pulseBit tstates := by
      have distinct :
          ∀ first second : Bool, first.toUInt8 = second.toUInt8 → first = second := by
        decide
      rw [pulseBit_eq]
      exact fun same => differs (decide_eq_decide.mp (distinct _ _ same))
    simp only [begun, Option.map_some, midway, Recorder.intake, takeData,
      inside, odd, addBit_mod,
      other, Bool.not_true, Bool.false_eq_true, if_false, if_true, ne_eq, not_false_eq_true]
  · have outside : isDataPulse tstates = false := by simpa using inside
    cases transfer.half <;>
      simp only [Option.map_none, Option.map_some, midway, Recorder.intake,
        takeData, outside, Bool.not_false, if_true]

end Transfer

/-- A transfer within the tolerances is decoded by a recorder that waits for one: the
pulse that ends it gives the block of its bits, and leaves the recorder as it was and
the pulses behind. Without that pulse there is no block yet, and ending the transfer
gives the same one. -/
theorem decode_transfer (reached : recorder.Reachable) (idle : recorder.state = .idle)
    (transfer : Transfer) :
    ∃ octets, Packs octets transfer.bits ∧
      (let block : Block := .rom { pause := recorder.pause, data := octets.toArray }
       let rested : Recorder := { pause := recorder.pause }
       (∀ tstates rest, transfer.EndedBy tstates →
        recorder.decode (transfer.pulses ++ tstates :: rest) = .ok (some block, rest, rested)) ∧
       ∃ received, recorder.decode transfer.pulses = .ok (none, [], received) ∧
        received.finish = .ok (some block, rested)) := by
  have rests : recorder = { pause := recorder.pause } := by
    have empty := reached.sound.held (by rw [idle]; rfl)
    obtain ⟨state, data, pause⟩ := recorder
    cases idle
    cases empty
    rfl
  obtain ⟨octets, ahead, split, few, receives⟩ := transfer.receives recorder.pause
  obtain ⟨packed, packs, holds⟩ := @packs_midway recorder.pause octets ahead few
  rw [← split] at packs
  rw [← rests] at receives
  have finished :=
    finish_midway few (holds (transfer.half.map fun half => decide (1282 < half)))
    (packs.ne_nil transfer.bits_ne_nil)
  refine ⟨packed, packs, ?_, _, ?_, finished⟩
  · intro tstates rest ends
    rw [receives.decode, Recorder.decode, ends.intake]
    dsimp only
    rw [finished]
  · have all := receives.decode []
    rwa [List.append_nil] at all

/-- Nine bits with pulses at the ends of their ranges, and one half of another bit. -/
def jittered : Transfer where
  tone := List.replicate 15 1918 ++ [2417]
  sync1 := 633
  sync2 := 768
  pairs := [(1283, 1959), (605, 1282)] ++ List.replicate 7 (1710, 1283)
  half := some 1959
  long := by decide
  lead := by decide
  first := by decide
  second := by decide
  filled := by decide
  matched := by decide
  begun := by decide

theorem decode_transfer_jittered :
    Reachable { pause := 500 } ∧ jittered.EndedBy 1282 ∧
    jittered.bits = true :: false :: List.replicate 7 true ∧
    ∃ octets, Packs octets jittered.bits ∧
      decode { pause := 500 } (jittered.pulses ++ [1282, 2168]) =
        .ok (some (.rom { pause := 500, data := octets.toArray }), [2168], { pause := 500 }) := by
  have ends : jittered.EndedBy 1282 := .inr ⟨1959, rfl, by decide⟩
  obtain ⟨octets, packs, decoded, -⟩ := decode_transfer (.new 500) rfl jittered
  exact ⟨.new 500, ends, rfl, octets, packs, decoded 1282 [2168] ends⟩

end ZxMedia.Recorder
