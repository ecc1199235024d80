import ZxMedia.Proofs.Tape.Recorder

/-!
# What a recorder holds

While an octet is received its bits are shifted into a register, one for every two
pulses. A recorder that came about by recording has never shifted in more bits than
pulses began, so the register has room for the bits to come, and for the zero bits that
fill it up when the transfer ends early. No bit is shifted out, and no number outgrows
its word. Octets are held while data is received and at no other time, and they take
sixteen pulses each.

So whatever is asked of the recorder is answered, and the blocks that come out have
data, and the pause that the recorder was made with.
-/

namespace ZxMedia.Recorder

/-- The recorder is sound, and the register has no more bits than pulses have begun. -/
structure Intact (recorder : Recorder) : Prop extends recorder.Sound where
  register : ∀ bits pulses, recorder.state = .data bits pulses →
    bits.toNat < 2 ^ ((pulses + 1) / 2)

/-- The number of pulses that the octets held and the bits in the register took. -/
def heldPulses (recorder : Recorder) : Nat :=
  16 * recorder.data.size + match recorder.state with
    | .data _ pulses => pulses
    | _ => 0

/-- The block is one of data that was received, and has the pause. -/
def IsReceived (pause : UInt16) (block : Block) : Prop :=
  ∃ data, data ≠ #[] ∧ block = .rom { pause, data }

variable {recorder after : Recorder} {block : Block} {bits : UInt8} {pulses tstates : Nat}

/-! ## The register -/

theorem pulseBit_le_one (tstates : Nat) : (pulseBit tstates).toNat ≤ 1 := by
  unfold pulseBit
  split <;> decide

/-- A bit is shifted in behind those of less than an octet, and none is shifted out. -/
theorem toNat_shiftIn (few : pulses ≤ 15) (even : pulses % 2 = 0)
    (small : bits.toNat < 2 ^ ((pulses + 1) / 2)) (tstates : Nat) :
    (bits <<< 1 ||| pulseBit tstates).toNat =
      2 * bits.toNat + (pulseBit tstates).toNat := by
  have room : bits.toNat < 128 :=
    Nat.lt_of_lt_of_le small (Nat.pow_le_pow_right Nat.two_pos (by omega) : _ ≤ 2 ^ 7)
  clear small
  unfold pulseBit
  revert bits
  split <;> decide +kernel

/-- The last octet is filled up from behind, and no bit is shifted out. Of an odd number
of pulses the last one gave no bit. -/
theorem toNat_lastOctet (some : 1 < pulses) (few : pulses ≤ 15)
    (small : bits.toNat < 2 ^ ((pulses + 1) / 2)) :
    (lastOctet bits pulses).toNat =
      (if pulses % 2 = 1 then 2 * (bits.toNat / 2) else bits.toNat) * 2 ^ ((16 - pulses) / 2) := by
  revert bits
  interval_cases pulses <;> decide +kernel

/-! ## Pulses -/

theorem intact_of_waiting (sound : recorder.Sound)
    (waiting : recorder.state.isData = false) :
    recorder.Intact := by
  refine ⟨sound, ?_⟩
  intro bits pulses receiving
  rw [receiving] at waiting
  cases waiting

theorem intact_reset (recorder : Recorder) : recorder.reset.Intact :=
  intact_of_waiting (sound_reset recorder) rfl

/-- What a recorder is after it has taken in a pulse of data. -/
theorem takeData_more (few : pulses ≤ 15) (small : bits.toNat < 2 ^ ((pulses + 1) / 2))
    (taken : recorder.takeData bits pulses tstates = .ok (.more after)) :
    after.pause = recorder.pause ∧
      after.heldPulses = 16 * recorder.data.size + pulses + 1 ∧
      ∀ register count, after.state = .data register count →
        register.toNat < 2 ^ ((count + 1) / 2) := by
  unfold takeData at taken
  split at taken
  next => cases taken
  next =>
    split at taken
    next second =>
      split at taken
      next => cases taken
      next =>
        split at taken
        next whole =>
          cases taken
          refine ⟨rfl, ?_, ?_⟩
          · simp only [heldPulses, Array.size_push]
            omega
          · rintro _ _ ⟨⟩
            decide
        next =>
          split at taken
          next => cases taken
          next =>
            cases taken
            refine ⟨rfl, rfl, ?_⟩
            rintro _ _ ⟨⟩
            have same : (pulses + 1 + 1) / 2 = (pulses + 1) / 2 := by omega
            rw [same]
            exact small
    next first =>
      cases taken
      refine ⟨rfl, rfl, ?_⟩
      rintro _ _ ⟨⟩
      have one := pulseBit_le_one tstates
      have more : (pulses + 1 + 1) / 2 = (pulses + 1) / 2 + 1 := by omega
      rw [toNat_shiftIn few (by omega) small, more, Nat.pow_succ]
      omega

theorem heldPulses_of_waiting (waiting : recorder.state.isData = false) :
    recorder.heldPulses = 16 * recorder.data.size := by
  unfold heldPulses
  split
  next receiving =>
    rw [receiving] at waiting
    cases waiting
  next => rfl

/-- While no data is received, a pulse begins the data or only changes what is waited
for. -/
theorem takeSync_cases (waiting : recorder.state.isData = false) :
    (∃ state : RecordState, state.isData = false ∧
      recorder.takeSync tstates = { recorder with state }) ∨
    recorder.takeSync tstates =
      { recorder with state := .data (pulseBit tstates) 1, data := #[] } := by
  obtain ⟨state, data, pause⟩ := recorder
  cases state with
  | idle =>
      refine .inl ⟨_, ?_, rfl⟩
      split <;> rfl
  | lead count =>
      refine .inl ⟨_, ?_, rfl⟩
      split
      · rfl
      · split <;> rfl
  | sync1 =>
      refine .inl ⟨_, ?_, rfl⟩
      split <;> rfl
  | sync2 =>
      by_cases first : isDataPulse tstates
      · exact .inr (by simp only [takeSync, first, if_true])
      · exact .inl ⟨.idle, rfl,
          by simp only [takeSync, first, if_false, Bool.false_eq_true]⟩
  | data bits pulses => cases waiting

/-- A pulse that does not end the transfer leaves the recorder intact, and it adds at
most one to the pulses held. -/
theorem Intact.intake (intact : recorder.Intact) (tstates : Nat) :
    ∃ intake, recorder.intake tstates = .ok intake ∧ ∀ after, intake = .more after →
      after.Intact ∧ after.pause = recorder.pause ∧
        after.heldPulses ≤ recorder.heldPulses + 1 := by
  obtain ⟨taken, keeps⟩ := @Sound.intake recorder tstates intact.toSound
  refine ⟨_, taken, ?_⟩
  intro after more
  have sound := keeps after more
  rw [more] at taken
  unfold Recorder.intake at taken
  split at taken
  next bits pulses state =>
    obtain ⟨paused, held, register⟩ :=
      takeData_more (intact.inOctet bits pulses state) (intact.register bits pulses state) taken
    refine ⟨⟨sound, register⟩, paused, ?_⟩
    rw [held]
    simp only [heldPulses, state, Nat.add_assoc, Nat.le_refl]
  next other =>
    cases taken
    have waiting : recorder.state.isData = false := by
      cases state : recorder.state with
      | data bits pulses => exact absurd state (other bits pulses)
      | _ => rfl
    have before := heldPulses_of_waiting waiting
    rcases @takeSync_cases recorder tstates waiting with ⟨state, later, same⟩ | same
    · rw [same] at sound ⊢
      refine ⟨intact_of_waiting sound later, rfl, ?_⟩
      rw [before, heldPulses_of_waiting later]
      exact Nat.le_succ _
    · rw [same] at sound ⊢
      refine ⟨⟨sound, ?_⟩, rfl, Nat.le_add_left 1 _⟩
      rintro _ _ ⟨⟩
      exact Nat.lt_succ_of_le (pulseBit_le_one tstates)

/-! ## Transfers -/

/-- The block of a transfer has data and the pause of the recorder. -/
theorem isReceived_of_block? (given : recorder.block? = some block) :
    IsReceived recorder.pause block := by
  unfold block? at given
  split at given
  next => cases given
  next some =>
    cases given
    refine ⟨recorder.received, ?_, rfl⟩
    rwa [Array.isEmpty_iff] at some

theorem reset_eq_reset {other : Recorder} (paused : recorder.pause = other.pause) :
    recorder.reset = other.reset :=
  congrArg (fun pause : UInt16 => ({ pause } : Recorder)) paused

/-- Pulses are decoded up to the end of a transfer. The recorder is intact behind them,
and of sixteen pulses that were consumed it holds an octet more at most. -/
theorem Intact.decode (intact : recorder.Intact) (delivered : List Nat) :
    ∃ block left after, recorder.decode delivered = .ok (block, left, after) ∧
      after.Intact ∧
      after.pause = recorder.pause ∧
      after.heldPulses + left.length ≤ recorder.heldPulses + delivered.length ∧
      ∀ given, block = some given → IsReceived recorder.pause given ∧
        after = recorder.reset := by
  induction delivered generalizing recorder with
  | nil => exact ⟨none, [], recorder, rfl, intact, rfl, Nat.le_refl _, nofun⟩
  | cons tstates delivered ih =>
      obtain ⟨intake, taken, keeps⟩ := intact.intake tstates
      cases intake with
      | more next =>
          obtain ⟨intactNext, paused, held⟩ := keeps next rfl
          obtain ⟨block, left, after, decoded, intactAfter, later, counted, received⟩ :=
            ih intactNext
          refine ⟨block, left, after, ?_, intactAfter, later.trans paused, ?_, ?_⟩
          · simp only [Recorder.decode, taken, decoded]
          · rw [List.length_cons]
            omega
          · intro given same
            obtain ⟨ofNext, isReset⟩ := received given same
            rw [paused] at ofNext
            exact ⟨ofNext, isReset.trans (reset_eq_reset paused)⟩
      | ends =>
          refine ⟨recorder.block?, delivered, recorder.reset, ?_,
            intact_reset recorder, rfl, ?_, ?_⟩
          · simp only [Recorder.decode, taken, intact.finish]
          · rw [List.length_cons]
            have none : recorder.reset.heldPulses = 0 := rfl
            omega
          · intro given same
            exact ⟨isReceived_of_block? same, rfl⟩

/-- The session comes to another one by taking in so many pulses at most: blocks that
were received are on the tape, and the recorder has its pause. -/
def Session.Takes (heard : Nat) (session after : Session) : Prop :=
  after.recorder.pause = session.recorder.pause ∧
    after.recorder.heldPulses ≤ session.recorder.heldPulses + heard ∧
    ∃ added, after.tape.blocks = session.tape.blocks ++ added ∧
      after.count = session.count + added.length ∧
      ∀ block ∈ added, IsReceived session.recorder.pause block

variable {session middle last : Session} {first second : Nat}

theorem Session.Takes.trans (takes : session.Takes first middle)
    (more : middle.Takes second last) :
    session.Takes (first + second) last := by
  obtain ⟨paused, held, front, blocks, counted, received⟩ := takes
  obtain ⟨later, heldLater, back, blocksLater, countedLater, others⟩ := more
  rw [paused] at others
  refine ⟨later.trans paused, by omega, front ++ back, ?_, ?_, ?_⟩
  · rw [blocksLater, blocks, List.append_assoc]
  · rw [countedLater, counted, List.length_append, Nat.add_assoc]
  · intro block member
    exact (List.mem_append.mp member).elim (received block) (others block)

/-- As long as no transfer ends, nothing comes on the tape. -/
theorem Session.takes_waiting {next : Recorder}
    (paused : next.pause = session.recorder.pause)
    (held : next.heldPulses ≤ session.recorder.heldPulses + first) :
    session.Takes first { session with recorder := next } :=
  ⟨paused, held, [], (List.append_nil _).symm, rfl, List.forall_mem_nil _⟩

theorem Session.takes_finish (session : Session) : session.Takes 0 session.finish := by
  unfold Session.finish
  split
  next => exact Session.takes_waiting rfl (Nat.zero_le _)
  next block given =>
    refine ⟨rfl, Nat.zero_le _, [block], Tape.blocks_append _ _, rfl, ?_⟩
    intro other member
    obtain rfl := List.mem_singleton.mp member
    exact isReceived_of_block? given

theorem intact_finish (session : Session) : session.finish.recorder.Intact := by
  unfold Session.finish
  split <;> exact intact_reset _

theorem Intact.hear (intact : session.recorder.Intact) (tstates : Nat) :
    session.Takes 1 (session.hear tstates) ∧ (session.hear tstates).recorder.Intact := by
  obtain ⟨intake, taken, keeps⟩ := intact.intake tstates
  have same : session.recorder.take tstates = intake := by rw [take, taken]
  unfold Session.hear
  rw [same]
  cases intake with
  | more next =>
      obtain ⟨intactNext, paused, held⟩ := keeps next rfl
      exact ⟨Session.takes_waiting paused held, intactNext⟩
  | ends =>
      obtain ⟨paused, held, others⟩ := session.takes_finish
      exact ⟨⟨paused, Nat.le_succ_of_le held, others⟩, intact_finish session⟩

theorem Intact.hearAll (intact : session.recorder.Intact) (heard : List Nat) :
    session.Takes heard.length (heard.foldl Session.hear session) ∧
      (heard.foldl Session.hear session).recorder.Intact := by
  induction heard generalizing session with
  | nil => exact ⟨Session.takes_waiting rfl (Nat.le_refl _), intact⟩
  | cons tstates heard ih =>
      obtain ⟨takes, next⟩ := intact.hear tstates
      obtain ⟨others, after⟩ := ih next
      refine ⟨?_, after⟩
      rw [List.length_cons, Nat.add_comm]
      exact takes.trans others

theorem length_heard_le (recorder : Recorder) (delivered : List Nat) :
    (recorder.heard delivered).length ≤ delivered.length := by
  induction delivered generalizing recorder with
  | nil => exact Nat.le_refl 0
  | cons tstates delivered ih =>
      rw [heard]
      split
      · exact Nat.succ_le_succ (ih _)
      · split
        · exact Nat.succ_le_succ (Nat.zero_le _)
        · exact Nat.succ_le_succ (ih _)

theorem Intact.recordSession (intact : session.recorder.Intact) (delivered : List Nat) :
    ∃ after, session.record delivered = .ok after ∧ session.Takes delivered.length after ∧
      after.recorder.Intact := by
  by_cases none : delivered = []
  · subst none
    exact ⟨_, intact.record_nil, session.takes_finish, intact_finish session⟩
  · obtain ⟨⟨paused, held, others⟩, after⟩ :=
      intact.hearAll (session.recorder.heard delivered)
    have fewer := length_heard_le session.recorder delivered
    exact ⟨_, intact.toSound.record none, ⟨paused, by omega, others⟩, after⟩

/-- Pulses are recorded on any tape, and the recorder is intact behind them. -/
theorem Intact.record (intact : recorder.Intact) (tape : Tape) (delivered : List Nat) :
    ∃ written after added, recorder.record tape delivered =
      .ok (added.length, written, after) ∧
      after.Intact ∧ after.pause = recorder.pause ∧
      after.heldPulses ≤ recorder.heldPulses + delivered.length ∧
      written.blocks = tape.blocks ++ added ∧
      ∀ block ∈ added, IsReceived recorder.pause block := by
  obtain ⟨_, recorded, ⟨paused, held, added, blocks, counted, received⟩, intactAfter⟩ :=
    @Intact.recordSession { recorder, tape } intact delivered
  obtain ⟨⟨count, written, after⟩, done, same⟩ := bind_ok.mp recorded
  cases same
  obtain rfl : count = added.length := by simpa using counted
  exact ⟨written, after, added, done, intactAfter, paused, held, blocks, received⟩

/-! ## Recorders that came about by recording -/

theorem Reachable.intact (reached : recorder.Reachable) : recorder.Intact := by
  induction reached with
  | new pause => exact intact_of_waiting (sound_waiting rfl) rfl
  | decode reached decoded intact =>
      obtain ⟨_, _, _, same, after, -⟩ := intact.decode _
      rw [decoded] at same
      cases same
      exact after
  | record reached recorded intact =>
      obtain ⟨_, _, _, same, after, -⟩ := intact.record _ _
      rw [recorded] at same
      cases same
      exact after
  | finish reached finished intact =>
      rw [intact.finish] at finished
      cases finished
      exact intact_reset _
  | reset reached intact => exact intact_reset _

/-- However a recorder came about by recording, fewer than sixteen pulses of the present
octet came and its register holds no more bits than pulses began. So a bit is shifted in
and the last octet is filled up without shifting any bit out, and what is asked is
always answered. Octets are held while data is received only, one for sixteen pulses
that were taken in. Each block that comes out has data and the pause of the recorder,
and the end of a transfer leaves nothing of it. -/
theorem reachable_register (reached : recorder.Reachable) :
    (∀ bits pulses, recorder.state = .data bits pulses →
      pulses ≤ 15 ∧ bits.toNat < 2 ^ ((pulses + 1) / 2) ∧
      (pulses % 2 = 0 → ∀ tstates, (bits <<< 1 ||| pulseBit tstates).toNat =
        2 * bits.toNat + (pulseBit tstates).toNat) ∧
      (1 < pulses → (16 - pulses % 16) / 2 < 8 ∧ (lastOctet bits pulses).toNat =
        (if pulses % 2 = 1 then 2 * (bits.toNat / 2) else bits.toNat) *
          2 ^ ((16 - pulses) / 2))) ∧
    (recorder.state.isData = false → recorder.data = #[]) ∧
    (∀ delivered, ∃ block left after, recorder.decode delivered = .ok (block, left, after) ∧
      after.pause = recorder.pause ∧
      after.heldPulses + left.length ≤ recorder.heldPulses + delivered.length ∧
      ∀ given, block = some given →
        IsReceived recorder.pause given ∧ after = recorder.reset) ∧
    (∀ tape delivered, ∃ written after added,
      recorder.record tape delivered = .ok (added.length, written, after) ∧
      after.pause = recorder.pause ∧
      after.heldPulses ≤ recorder.heldPulses + delivered.length ∧
      written.blocks = tape.blocks ++ added ∧
      ∀ block ∈ added, IsReceived recorder.pause block) ∧
    (∃ block, recorder.finish = .ok (block, recorder.reset) ∧
      ∀ given, block = some given → IsReceived recorder.pause given) ∧
    recorder.reset.state = .idle ∧ recorder.reset.data = #[] ∧
    recorder.reset.pause = recorder.pause := by
  have intact := reached.intact
  refine ⟨?_, intact.held, ?_, ?_, ?_, rfl, rfl, rfl⟩
  · intro bits pulses receiving
    have few := intact.inOctet bits pulses receiving
    have small := intact.register bits pulses receiving
    refine ⟨few, small, fun even => toNat_shiftIn few even small, ?_⟩
    intro some
    exact ⟨by omega, toNat_lastOctet some few small⟩
  · intro delivered
    obtain ⟨block, left, after, decoded, -, others⟩ := intact.decode delivered
    exact ⟨block, left, after, decoded, others⟩
  · intro tape delivered
    obtain ⟨written, after, added, recorded, -, others⟩ := intact.record tape delivered
    exact ⟨written, after, added, recorded, others⟩
  · exact ⟨_, intact.finish, fun given => isReceived_of_block?⟩

/-- A transfer that stops in the middle of its third bit. -/
def unfinishedTransfer : List Nat :=
  List.replicate 16 2168 ++ [667, 735, 1710, 1710, 855, 855, 1710]

theorem reachable_register_unfinished :
    Reachable { state := .data 5 5, pause := 0 } ∧ (5 : UInt8).toNat < 2 ^ 3 ∧
    (lastOctet 5 5).toNat = 4 * 2 ^ 5 ∧
    IsReceived 0 (.rom { pause := 0, data := #[128] }) := by
  have decoded : decode { pause := 0 } unfinishedTransfer =
      .ok (none, [], { state := .data 5 5, pause := 0 }) := rfl
  have reached := Reachable.decode (.new 0) decoded
  obtain ⟨register, -, -, -, ⟨block, finished, received⟩, -⟩ := reachable_register reached
  obtain ⟨-, small, -, filled⟩ := register 5 5 rfl
  have ended : finish { state := .data 5 5, pause := 0 } =
      .ok (some (.rom { pause := 0, data := #[128] }), { pause := 0 }) := rfl
  obtain ⟨rfl, -⟩ := Prod.mk.inj (Except.ok.inj (finished.symm.trans ended))
  exact ⟨reached, small, (filled (by decide)).2, received _ rfl⟩

end ZxMedia.Recorder
