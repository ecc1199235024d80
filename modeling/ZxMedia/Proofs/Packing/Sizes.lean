import Mathlib
import ZxMedia.Packing.Zlib
import ZxMedia.Proofs.Encoding

/-!
# How much deflated data can hold

A symbol adds 258 octets at most and a stored block 65535, and there are no more symbols
and blocks than bits. So there is a bound for the content of a stream that only depends
on its size.
-/

namespace ZxMedia.Packing

theorem BitSource.number?_lt {width number : Nat} {source rest : BitSource}
    (taken : source.number? width = some (number, rest)) : number < 2 ^ width := by
  induction width generalizing number source rest with
  | zero =>
      cases taken
      exact Nat.one_pos
  | succ width ih =>
      simp only [number?, Option.bind_eq_bind, Option.bind_eq_some_iff,
        Prod.exists, Option.pure_def, Option.some.injEq, Prod.mk.injEq] at taken
      obtain ⟨bit, ahead, -, value, last, found, rfl, -⟩ := taken
      have less := ih found
      have single := Bool.toNat_le bit
      rw [Nat.pow_succ]
      omega

/-- What is read for a symbol is bounded by the bases and the bits that are added to
them. -/
theorem readExtended_le {bases : Array (Nat × Nat)} {most : Nat}
    (bounded : ∀ pair ∈ bases.toList, pair.1 + 2 ^ pair.2 ≤ most + 1) {index number : Nat}
    {source rest : BitSource}
    (read : readExtended bases index source = .ok (number, rest)) :
    number ≤ most := by
  unfold readExtended at read
  split at read
  next => cases read
  next base width found =>
    split at read
    next => cases read
    next extra ahead taken =>
      obtain ⟨rfl, rfl⟩ := Prod.mk.inj (Except.ok.inj read)
      have small := BitSource.number?_lt taken
      have pair := bounded _ (Array.mem_toList_iff.mpr (Array.mem_of_getElem? found))
      dsimp only at pair
      omega

theorem readReference_length_le {distances : Code} {symbol length distance : Nat}
    {source rest : BitSource}
    (read : readReference distances symbol source = .ok (length, distance, rest)) :
    length ≤ 258 := by
  simp only [readReference, bind_ok, pure_ok, Prod.mk.injEq, Prod.exists] at read
  obtain ⟨own, ahead, extended, -, -, -, -, -, -, rfl, -⟩ := read
  exact readExtended_le (by decide) extended

@[simp] theorem size_copyBack (distance count : Nat) (output : Octets) :
    (copyBack distance count output).size = output.size + count := by
  induction count generalizing output with
  | zero => rfl
  | succ count ih =>
      rw [copyBack, ih, Array.size_push]
      omega

theorem size_expand_le {symbols distances : Code} {source rest : BitSource}
    {token : Token}
    (read : readToken symbols distances source = .ok (some token, rest))
    (output : Octets) :
    (token.expand output).size ≤ output.size + 258 := by
  obtain ⟨⟨symbol, ahead⟩, -, meant⟩ := bind_ok.mp read
  dsimp only at meant
  split at meant
  next =>
    cases pure_ok.mp meant
    simp [Token.expand]
  next =>
    split at meant
    next => cases pure_ok.mp meant
    next =>
      obtain ⟨⟨length, distance, behind⟩, reference, meant⟩ := bind_ok.mp meant
      cases pure_ok.mp meant
      have short := readReference_length_le reference
      rw [Token.expand, size_copyBack]
      omega

theorem size_inflateSymbols_le (symbols distances : Code) (steps : Nat)
    (source : BitSource)
    (output : Octets) :
    (inflateSymbols symbols distances steps source output).output.size ≤
      output.size + steps * 258 := by
  induction steps generalizing source output with
  | zero => exact Nat.le_add_right _ _
  | succ steps ih =>
      simp only [inflateSymbols]
      split
      next => exact Nat.le_add_right _ _
      next => exact Nat.le_add_right _ _
      next token ahead read =>
        have added := size_expand_le read output
        exact (ih ahead (token.expand output)).trans (by omega)

theorem size_inflateStored_le (source : BitSource) (output : Octets) :
    (inflateStored source output).output.size ≤ output.size + 65535 := by
  unfold inflateStored
  split
  next low high _ _ octets _ =>
    have few : LittleEndian.decode [low, high] < 65536 :=
      LittleEndian.decode_lt [low, high]
    have taken := List.length_take_le (LittleEndian.decode [low, high]) octets
    have grown : (output ++ octets.take (LittleEndian.decode [low, high])).size ≤
        output.size + 65535 := by
      rw [← Array.length_toList, Array.toList_appendList, List.length_append,
        Array.length_toList]
      omega
    split
    next =>
      dsimp only
      split
      all_goals exact grown
    next => exact Nat.le_add_right _ _
  next => exact Nat.le_add_right _ _

theorem size_inflateBlock_le (kind steps : Nat) (source : BitSource) (output : Octets) :
    (inflateBlock kind steps source output).output.size ≤
      output.size + (steps * 258 + 65535) := by
  have coded (symbols distances : Code) (source : BitSource) :
      (inflateSymbols symbols distances steps source output).output.size ≤
        output.size + (steps * 258 + 65535) :=
    (size_inflateSymbols_le symbols distances steps source output).trans (by omega)
  unfold inflateBlock
  split
  next => exact (size_inflateStored_le source output).trans (by omega)
  next => exact coded _ _ _
  next =>
    split
    next => exact Nat.le_add_right _ _
    next => exact coded _ _ _
  next => exact Nat.le_add_right _ _

theorem size_inflateBlocks_le (steps blocks : Nat) (source : BitSource)
    (output : Octets) :
    (inflateBlocks steps blocks source output).output.size ≤
      output.size + blocks * (steps * 258 + 65535) := by
  induction blocks generalizing source output with
  | zero => exact Nat.le_add_right _ _
  | succ blocks ih =>
      simp only [inflateBlocks, Nat.succ_mul]
      split
      next => exact Nat.le_add_right _ _
      next header ahead _ =>
        have block := size_inflateBlock_le (header / 2) steps ahead output
        split
        next => exact block.trans (by omega)
        next =>
          split
          next => exact block.trans (by omega)
          next => exact (ih _ _).trans (by omega)

/-- Deflated data holds a limited number of octets. -/
theorem size_inflate_le (octets : List UInt8) :
    (inflate octets).output.size ≤
      (8 * octets.length + 1) * ((8 * octets.length + 1) * 258 + 65535) := by
  have bound := size_inflateBlocks_le (8 * octets.length + 1) (8 * octets.length + 1)
    (.ofOctets octets) #[]
  rwa [Array.size_empty, Nat.zero_add] at bound

/-- What is decoded of a zlib stream is nothing, or what the body of the stream
holds. -/
theorem Zlib.output_decode (stream : List UInt8) :
    (decode stream).output = #[] ∨
      (decode stream).output = (Packing.inflate (stream.drop 2)).output := by
  unfold decode
  split
  next =>
    split
    next =>
      dsimp only
      split
      next => exact .inr rfl
      next =>
        split
        next =>
          split
          all_goals exact .inr rfl
        next => exact .inr rfl
    next => exact .inl rfl
  next => exact .inl rfl

theorem Zlib.size_decode_lt (stream : List UInt8) :
    stream.length + (decode stream).output.size < maxPortions stream.length := by
  have body := size_inflate_le (stream.drop 2)
  have shorter : (stream.drop 2).length ≤ stream.length := by
    rw [List.length_drop]
    omega
  have wider : (8 * (stream.drop 2).length + 1) * ((8 * (stream.drop 2).length + 1) * 258 + 65535) ≤
      (8 * stream.length + 1) * ((8 * stream.length + 1) * 258 + 65535) := by
    gcongr
  unfold maxPortions
  dsimp only
  obtain empty | same := output_decode stream
  · rw [empty, Array.size_empty]
    omega
  · rw [same]
    omega

end ZxMedia.Packing
