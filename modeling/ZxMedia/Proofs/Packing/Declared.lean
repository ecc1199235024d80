import ZxMedia.Proofs.Packing.Zlib

/-!
# The declared size does not change what is inflated

The size that is declared for a content decides how large the output is at first, and
when it is looked at for being too long. What is taken out is the same with it and
without it, but it is only accepted if it has the declared size. A sound stream never
seems to end early, however often the output is full before its end. It may be found to
be too long, and then it is longer than was declared.
-/

namespace ZxMedia.Packing

variable {decoder : Decoder} {stream content : Octets} {sound : Prop} {portions : Nat}

/-- Taking out a stream comes to its end after so many portions, however many more are
allowed. -/
theorem Decoder.Gives.inflate_mono (gives : decoder.Gives stream.toList content sound)
    (enough : stream.size + content.size < portions) (declared : Option Nat) {more : Nat}
    (allowed : portions ≤ more) :
    decoder.inflate more stream declared = decoder.inflate portions stream declared := by
  have space := firstRoom_pos stream.size declared
  have ended : decoder.fill declared portions decoder.start stream.toList
      (firstRoom stream.size declared) #[] ≠ .error .endless := by
    obtain ⟨filled, -⟩ | ⟨cause, failed, -⟩ :=
      gives.fill_start_cases declared space enough
    · rw [filled]
      rintro ⟨⟩
    · rw [failed]
      rintro ⟨⟩
  unfold Decoder.inflate
  dsimp only
  rw [Decoder.fill_mono ended allowed]

theorem Decoder.Gives.cause_of_sound (gives : decoder.Gives stream.toList content sound)
    (enough : stream.size + content.size < portions) (holds : sound) {size : Nat}
    {cause : Corruption}
    (failed : decoder.inflate portions stream (some size) = .error (.corrupt cause)) :
    size < content.size ∧ cause = .zlibOversized size ∨
      cause = .zlibSize content.size size := by
  obtain ⟨inflated, -⟩ | ⟨_, refused, mismatch⟩ := gives.inflate_cases (some size) enough
  · cases inflated.symm.trans failed
  · cases refused.symm.trans failed
    obtain ⟨_, same, -, known⟩ := mismatch holds
    cases same
    exact known

/-- With a declared size the same is inflated as without, if it has that size. Every
stream is inflated or found corrupt, within as many portions as the stream and its
content have octets. A sound stream is inflated without a declared size, and filling an
output of whatever size at first takes out all of its content if no smaller size was
declared. It never seems to end early, and it is found too long only if it is longer
than was declared. -/
theorem inflate_declared (gives : decoder.Gives stream.toList content sound)
    (enough : stream.size + content.size < portions) :
    (∀ size output, decoder.inflate portions stream (some size) = .ok output ↔
      decoder.inflate portions stream none = .ok output ∧ output.size = size) ∧
    (∀ declared, ((∃ output, decoder.inflate portions stream declared = .ok output) ∨
        ∃ cause, decoder.inflate portions stream declared = .error (.corrupt cause)) ∧
      ∀ more, portions ≤ more →
        decoder.inflate more stream declared = decoder.inflate portions stream declared) ∧
    (sound → decoder.inflate portions stream none = .ok content ∧
      (∀ declared room, 0 < room → (∀ size ∈ declared, content.size ≤ size) →
        decoder.fill declared portions decoder.start stream.toList room #[] = .ok content) ∧
      ∀ size, decoder.inflate portions stream (some size) ≠
        .error (.corrupt .zlibTruncated) ∧
        ∀ limit, decoder.inflate portions stream (some size) =
          .error (.corrupt (.zlibOversized limit)) → limit = size ∧ size < content.size) := by
  refine ⟨fun size output => ?_, fun declared => ⟨?_, ?_⟩,
    fun holds => ⟨?_, ?_, fun size => ?_⟩⟩
  · rw [gives.inflate_ok_iff enough, gives.inflate_ok_iff enough]
    constructor
    · rintro ⟨holds, rfl, same⟩
      exact ⟨⟨holds, rfl, by simp⟩, same size rfl⟩
    · rintro ⟨⟨holds, rfl, -⟩, rfl⟩
      exact ⟨holds, rfl, by simp⟩
  · obtain ⟨inflated, -⟩ | ⟨cause, failed, -⟩ := gives.inflate_cases declared enough
    · exact .inl ⟨_, inflated⟩
    · exact .inr ⟨_, failed⟩
  · exact fun more allowed => gives.inflate_mono enough declared allowed
  · exact (gives.inflate_ok_iff enough).mpr ⟨holds, rfl, by simp⟩
  · intro declared room space long
    obtain ⟨filled, -⟩ | ⟨cause, -, longer⟩ :=
      gives.fill_start_cases declared space enough
    · exact filled
    · obtain ⟨size, mem, less, -⟩ := longer holds
      exact absurd (long size mem) (by omega)
  · constructor
    · intro failed
      obtain ⟨-, same⟩ | same := gives.cause_of_sound enough holds failed
      all_goals cases same
    · intro limit failed
      obtain ⟨less, same⟩ | same := gives.cause_of_sound enough holds failed
      · cases same
        exact ⟨rfl, less⟩
      · cases same

/-- A content that fills an output of the smallest size and goes on. -/
def longContent : Octets :=
  Array.replicate 65 7

/-- A stream with a stored block of this content. -/
def longStream : Octets :=
  (Zlib.stream longContent (store longContent)).toArray

theorem decode_longStream :
    Zlib.decode longStream.toList = ⟨longContent, .ok (.ofOctets [])⟩ :=
  Zlib.decode_stream_store longContent

theorem inflate_declared_longStream :
    longStream.size + longContent.size < 200 ∧
      Zlib.decoder.inflate 200 longStream (some 65) = .ok longContent ∧
      Zlib.decoder.fill none 200 Zlib.decoder.start longStream.toList 1 #[] =
        .ok longContent ∧
      Zlib.decoder.inflate 200 longStream (some 66) ≠
        .error (.corrupt .zlibTruncated) := by
  have gives := Zlib.decoder_gives longStream.toList
  rw [decode_longStream] at gives
  have enough : longStream.size + longContent.size < 200 := by decide
  obtain ⟨sized, -, whole⟩ := inflate_declared gives enough
  obtain ⟨inflated, filled, never⟩ := whole rfl
  exact ⟨enough, (sized 65 longContent).mpr ⟨inflated, by decide⟩,
    filled none 1 Nat.one_pos (by simp), (never 66).1⟩

/-- A sound stream is found to be too long if a smaller size is declared. -/
theorem inflate_longStream_tooLong :
    Zlib.inflate longStream none = .ok longContent ∧
      Zlib.inflate longStream (some 10) = .error (.corrupt (.zlibOversized 10)) := by
  constructor
  · rw [Zlib.inflate_ok_iff, decode_longStream]
    exact ⟨rfl, rfl, by simp⟩
  · decide +kernel

end ZxMedia.Packing
