import ZxMedia.Proofs.Deck.Copy

/-!
# What a deck keeps

A tape stays in a deck from the time it is inserted until it is handed back, when it is
ejected or another one is inserted. Meanwhile it may be played and recorded on in any
order. The deck hands it back with the blocks that it had, and behind them the blocks
that were recorded: those that came out while pulses were recorded, and one for each
transfer that was in progress when a recording ended, if anything of it had been
received.
-/

namespace ZxMedia

/-- The one list of blocks is the other one with so many blocks of recorded data behind
it. -/
def AddsRecorded (count : Nat) (before after : List Block) : Prop :=
  ∃ added : List RomBlock, after = before ++ added.map .rom ∧ added.length = count ∧
    ∀ block ∈ added, block.data ≠ #[]

namespace AddsRecorded

variable {before middle after : List Block} {first second : Nat}

theorem none (blocks : List Block) : AddsRecorded 0 blocks blocks :=
  ⟨[], by simp, rfl, nofun⟩

theorem one (blocks : List Block) {block : RomBlock} (some : block.data ≠ #[]) :
    AddsRecorded 1 blocks (blocks ++ [.rom block]) := by
  refine ⟨[block], rfl, rfl, ?_⟩
  intro other member
  rw [List.mem_singleton.mp member]
  exact some

theorem trans (adds : AddsRecorded first before middle)
    (later : AddsRecorded second middle after) :
    AddsRecorded (first + second) before after := by
  obtain ⟨front, rfl, rfl, some⟩ := adds
  obtain ⟨back, rfl, rfl, others⟩ := later
  refine ⟨front ++ back, by simp, List.length_append, ?_⟩
  intro block member
  exact (List.mem_append.mp member).elim (some block) (others block)

end AddsRecorded

/-! ## Recorders -/

namespace Recorder

variable {session middle after : Session}

/-- A whole octet or a whole bit of the present transfer was received. -/
def hasReceived (recorder : Recorder) : Bool :=
  !recorder.data.isEmpty || match recorder.state with
    | .data _ pulses => 2 ≤ pulses
    | _ => false

theorem isEmpty_received (recorder : Recorder) :
    recorder.received.isEmpty = !recorder.hasReceived := by
  unfold received hasReceived
  cases recorder.state with
  | data bits pulses =>
      by_cases few : pulses ≤ 1
      · have short : ¬2 ≤ pulses := by omega
        simp [few, short]
      · have long : 2 ≤ pulses := by omega
        simp [few, long]
  | _ => simp

/-- The session comes to another one in which some more blocks were recorded. -/
def Session.Gains (session after : Session) : Prop :=
  ∃ count, AddsRecorded count session.tape.blocks after.tape.blocks ∧
    after.count = session.count + count

theorem Session.Gains.trans (gains : session.Gains middle) (later : middle.Gains after) :
    session.Gains after := by
  obtain ⟨first, adds, counted⟩ := gains
  obtain ⟨second, others, more⟩ := later
  exact ⟨first + second, adds.trans others, by omega⟩

theorem Session.finish_adds (session : Session) :
    AddsRecorded (if session.recorder.hasReceived then 1 else 0) session.tape.blocks
        session.finish.tape.blocks ∧
      session.finish.count =
        session.count + if session.recorder.hasReceived then 1 else 0 := by
  have empty := isEmpty_received session.recorder
  unfold Session.finish block?
  rw [empty]
  cases received : session.recorder.hasReceived with
  | false => exact ⟨.none _, rfl⟩
  | true =>
      rw [received] at empty
      refine ⟨?_, rfl⟩
      simp only [Bool.not_true, Bool.false_eq_true, if_false, if_true, Tape.blocks_append]
      apply AddsRecorded.one
      simpa using empty

theorem Session.hear_gains (session : Session) (tstates : Nat) :
    session.Gains (session.hear tstates) := by
  unfold Session.hear
  split
  next => exact ⟨0, .none _, rfl⟩
  next => exact ⟨_, session.finish_adds⟩

theorem Session.foldl_hear_gains (session : Session) (pulses : List Nat) :
    session.Gains (pulses.foldl Session.hear session) := by
  induction pulses generalizing session with
  | nil => exact ⟨0, .none _, rfl⟩
  | cons tstates pulses ih => exact (session.hear_gains tstates).trans (ih _)

/-- Recording pulses cannot fail, and puts as many blocks on the tape as it says. -/
theorem Sound.record_gains (sound : session.recorder.Sound) (pulses : List Nat) :
    ∃ after, session.record pulses = .ok after ∧ session.Gains after ∧
      after.recorder.Sound := by
  by_cases none : pulses = []
  · subst none
    have recorded := sound.record_nil
    exact ⟨_, recorded, ⟨_, session.finish_adds⟩, sound.after_record recorded⟩
  · have recorded := sound.record none
    exact ⟨_, recorded, session.foldl_hear_gains _, sound.after_record recorded⟩

end Recorder

/-! ## Cassettes -/

namespace Cassette

variable {cassette : Cassette}

/-- The recorder of a writer came about by recording. -/
def Sound : Cassette → Prop
  | reader _ => True
  | writer _ recorder => recorder.Sound

/-- The number of blocks that come out when a recording ends: one if anything of the
transfer in progress was received. -/
def pending : Cassette → Nat
  | reader _ => 0
  | writer _ recorder => if recorder.hasReceived then 1 else 0

theorem Sound.finish (sound : cassette.Sound) :
    ∃ tape, cassette.finish = .ok tape ∧
      AddsRecorded cassette.pending cassette.tape.blocks tape.blocks := by
  cases cassette with
  | reader tape => exact ⟨tape, rfl, .none _⟩
  | writer tape recorder =>
      have finished := @Deck.finish_writer { recorder, tape } sound
      exact ⟨_, finished, (Recorder.Session.finish_adds { recorder, tape }).1⟩

end Cassette

namespace Deck

/-- The time that a tape is in a deck. -/
structure Stay where
  /-- The blocks of the tape when it was inserted. -/
  blocks : List Block
  /-- How many blocks the deck has said it recorded. -/
  answered : Nat := 0
  /-- How often a recording was ended in the middle of a transfer of which something had
  been received. -/
  ended : Nat := 0

/-- The tape has the blocks that it had, and a block of recorded data for whatever was
recorded. -/
def Stay.Kept (stay : Stay) (tape : Tape) : Prop :=
  AddsRecorded (stay.answered + stay.ended) stay.blocks tape.blocks

/-- When a recording ends, what was received of its transfer comes to the tape. -/
theorem Stay.Kept.finish {stay : Stay} {cassette : Cassette}
    (kept : stay.Kept cassette.tape)
    (sound : cassette.Sound) :
    ∃ tape, cassette.finish = .ok tape ∧
      Stay.Kept { stay with ended := stay.ended + cassette.pending } tape := by
  obtain ⟨tape, finished, adds⟩ := sound.finish
  have whole := kept.trans adds
  rw [Nat.add_assoc] at whole
  exact ⟨tape, finished, whole⟩

theorem earPulses_cassette (deck : Deck) (patience budget : Nat) :
    (deck.earPulses patience budget).deck.cassette = deck.cassette ∨
    ∃ tape after, deck.cassette = some (.reader tape) ∧
      (deck.earPulses patience budget).deck.cassette = some (.reader after) ∧
      after.blocks = tape.blocks := by
  unfold earPulses
  split
  next tape _ inserted =>
    split
    next => exact .inl rfl
    next =>
      split
      next => exact .inl rfl
      next elapsed pulses last gathered =>
        right
        refine ⟨tape, last.tape, inserted, rfl, ?_⟩
        obtain ⟨given, reached, yields, -, -, -, ending⟩ := gather_ok gathered
        rcases ending with ⟨rfl, -⟩ | finished
        · exact yields.blocks
        · exact (PulseReader.turns_of_next finished (by simp)).blocks.trans yields.blocks
  next => exact .inl rfl

/-- Something to be done with a deck. -/
inductive Operation where
  | insert (tape : Tape)
  | insertAsWriter (tape : Tape)
  | play
  | record
  | stop
  | rewind
  | eject
  | earPulses (patience budget : Nat)
  | recordMicPulses (pulses : List Nat)

/-- The blocks of a tape that is inserted. -/
def Operation.inserted? : Operation → Option (List Block)
  | insert tape => some tape.blocks
  | insertAsWriter tape => some tape.blocks
  | _ => none

/-- A deck with what happened to the tapes in it. -/
structure History where
  deck : Deck := {}
  /-- The stay of the tape that is inserted. -/
  stay : Option Stay := none
  /-- What was handed back at each insertion and ejection, with the stay that ended
  then. -/
  returned : List (Option Tape × Option Stay) := []

namespace History

/-- The present stay, if a recording ended now. -/
def ending (history : History) : Option Stay :=
  let pending := (history.deck.cassette.map Cassette.pending).getD 0
  history.stay.map fun stay => { stay with ended := stay.ended + pending }

/-- What was handed back, when a stay ends with something that the deck gives out. -/
def handBack (history : History) (out : Option Tape) : List (Option Tape × Option Stay) :=
  history.returned ++ [(out, history.ending)]

/-- A deck after an operation, and what happened to the tapes in it. -/
def perform (history : History) : Operation → Except Error History
  | .insert tape => do
    let (out, deck) ← history.deck.insert tape
    return { deck, stay := some { blocks := tape.blocks }, returned := history.handBack out }
  | .insertAsWriter tape => do
    let (out, deck) ← history.deck.insertAsWriter tape
    return { deck, stay := some { blocks := tape.blocks }, returned := history.handBack out }
  | .eject => do
    let (out, deck) ← history.deck.eject
    return { deck, returned := history.handBack out }
  | .play => do
    let (_, deck) ← history.deck.play
    return { history with deck, stay := history.ending }
  | .record => .ok { history with deck := history.deck.record.2 }
  | .stop => .ok { history with deck := history.deck.stop }
  | .rewind => .ok { history with deck := history.deck.rewind.2 }
  | .earPulses patience budget =>
    .ok { history with deck := (history.deck.earPulses patience budget).deck }
  | .recordMicPulses pulses => do
    let (count, deck) ← history.deck.recordMicPulses pulses
    let stay :=
      history.stay.map fun stay => { stay with answered := stay.answered + count }
    return { history with deck, stay }

/-- The tapes that were inserted, in order, as they were then. -/
def inserted (history : History) : List (List Block) :=
  history.returned.filterMap (fun (_, stay) => stay.map Stay.blocks) ++
    (history.stay.map Stay.blocks).toList

/-- Every tape that was handed back, and the one that is inserted, has been kept. -/
structure Sound (history : History) : Prop where
  inserted : Option.Rel (fun cassette stay => cassette.Sound ∧ stay.Kept cassette.tape)
    history.deck.cassette history.stay
  returned : ∀ entry ∈ history.returned,
    Option.Rel (fun tape stay => stay.Kept tape) entry.1 entry.2

variable {history : History} {deck : Deck} {cassette : Cassette} {stay : Stay}

/-- The tape that comes out when the stay of the inserted one ends. -/
theorem Sound.finishTape (sound : history.Sound) :
    ∃ out, history.deck.finishTape = .ok out ∧
      Option.Rel (fun tape stay => stay.Kept tape) out history.ending := by
  obtain ⟨deck, stay, returned⟩ := history
  obtain ⟨running, inserted, stopOn48k, overshoot⟩ := deck
  cases sound.inserted with
  | none => exact ⟨none, rfl, .none⟩
  | @some cassette stay kept =>
      obtain ⟨tape, finished, whole⟩ := kept.2.finish kept.1
      refine ⟨some tape, ?_, .some whole⟩
      simp only [Deck.finishTape, finished]
      rfl

theorem Sound.handBack (sound : history.Sound) {out : Option Tape}
    (kept : Option.Rel (fun tape stay => stay.Kept tape) out history.ending) :
    ∀ entry ∈ history.handBack out,
      Option.Rel (fun tape stay => stay.Kept tape) entry.1 entry.2 := by
  intro entry member
  rcases List.mem_append.mp member with earlier | last
  · exact sound.returned entry earlier
  · rw [List.mem_singleton.mp last]
    exact kept

theorem map_blocks_ending (history : History) :
    history.ending.map Stay.blocks = history.stay.map Stay.blocks := by
  unfold ending
  rw [Option.map_map]
  rfl

/-- Handing a tape back does not change what was inserted. -/
theorem filterMap_handBack (history : History) (out : Option Tape) :
    (history.handBack out).filterMap (fun (_, stay) => stay.map Stay.blocks) =
      history.inserted := by
  unfold handBack inserted
  rw [List.filterMap_append, ← map_blocks_ending]
  cases history.ending <;> rfl

/-- An insertion hands the last tape back and begins a stay. -/
theorem Sound.exchange (sound : history.Sound) (fresh : cassette.Sound) :
    ∃ out deck, history.deck.exchange cassette = .ok (out, deck) ∧
      (let after : History :=
        { deck, stay := some { blocks := cassette.tape.blocks }, returned := history.handBack out }
       after.Sound ∧ after.inserted = history.inserted ++ [cassette.tape.blocks]) := by
  obtain ⟨out, finished, kept⟩ := sound.finishTape
  refine ⟨out, { history.deck with cassette := some cassette, overshoot := 0 }, ?_, ?_,
    ?_⟩
  · simp only [Deck.exchange, finished]
    rfl
  · exact ⟨.some ⟨fresh, .none _⟩, sound.handBack kept⟩
  · rw [History.inserted, filterMap_handBack]
    rfl

theorem Sound.eject (sound : history.Sound) :
    ∃ after, history.perform .eject = .ok after ∧ after.Sound ∧
      after.inserted = history.inserted := by
  obtain ⟨out, finished, kept⟩ := sound.finishTape
  have done : history.deck.eject =
      .ok (out, { history.deck with running := false, cassette := none, overshoot := 0 }) := by
    simp only [Deck.eject, finished]
    rfl
  simp only [perform, done]
  refine ⟨_, rfl, ⟨.none, sound.handBack kept⟩, ?_⟩
  rw [History.inserted, filterMap_handBack]
  simp

theorem Sound.play (sound : history.Sound) :
    ∃ after, history.perform .play = .ok after ∧ after.Sound ∧
      after.inserted = history.inserted := by
  have same : ∀ deck, ({ history with deck, stay := history.ending } : History).inserted =
      history.inserted := by
    intro deck
    rw [History.inserted, History.inserted, map_blocks_ending]
  obtain ⟨deck, stay, returned⟩ := history
  obtain ⟨running, inserted, stopOn48k, overshoot⟩ := deck
  cases sound.inserted with
  | none => exact ⟨_, rfl, ⟨.none, sound.returned⟩, rfl⟩
  | @some cassette stay kept =>
      cases cassette with
      | reader tape => exact ⟨_, rfl, ⟨.some ⟨trivial, kept.2⟩, sound.returned⟩, rfl⟩
      | writer tape recorder =>
          obtain ⟨tape, finished, whole⟩ := kept.2.finish kept.1
          simp only [perform, Deck.play, finished]
          refine ⟨_, rfl, ⟨.some ⟨trivial, ?_⟩, sound.returned⟩, same _⟩
          unfold Stay.Kept at whole ⊢
          rw [Cassette.tape, Tape.blocks_rewind]
          exact whole

theorem Sound.record (sound : history.Sound) :
    ({ history with deck := history.deck.record.2 } : History).Sound := by
  obtain ⟨deck, stay, returned⟩ := history
  obtain ⟨running, inserted, stopOn48k, overshoot⟩ := deck
  refine ⟨?_, sound.returned⟩
  cases sound.inserted with
  | none => exact .none
  | @some cassette stay kept =>
      cases cassette with
      | reader tape => exact .some ⟨Recorder.sound_waiting rfl, kept.2⟩
      | writer tape recorder => exact .some kept

theorem Sound.rewind (sound : history.Sound) :
    ({ history with deck := history.deck.rewind.2 } : History).Sound := by
  obtain ⟨deck, stay, returned⟩ := history
  obtain ⟨running, inserted, stopOn48k, overshoot⟩ := deck
  refine ⟨?_, sound.returned⟩
  cases sound.inserted with
  | none => exact .none
  | @some cassette stay kept =>
      cases cassette with
      | reader tape =>
          refine .some ⟨trivial, ?_⟩
          unfold Stay.Kept
          rw [Cassette.tape, Tape.blocks_rewind]
          exact kept.2
      | writer tape recorder => exact .some kept

theorem Sound.earPulses (sound : history.Sound) (patience budget : Nat) :
    ({ history with deck := (history.deck.earPulses patience budget).deck } : History).Sound := by
  refine ⟨?_, sound.returned⟩
  have before := sound.inserted
  dsimp only
  rcases history.deck.earPulses_cassette patience budget with
    same | ⟨tape, after, inserted, played, blocks⟩
  · rw [same]
    exact before
  · rw [inserted] at before
    rw [played]
    generalize history.stay = stay at before
    cases before with
    | some kept =>
        refine .some ⟨trivial, ?_⟩
        unfold Stay.Kept
        rw [Cassette.tape, blocks]
        exact kept.2

theorem Sound.recordMicPulses (sound : history.Sound) (pulses : List Nat) :
    ∃ after, history.perform (.recordMicPulses pulses) = .ok after ∧ after.Sound ∧
      after.inserted = history.inserted := by
  obtain ⟨deck, stay, returned⟩ := history
  obtain ⟨running, inserted, stopOn48k, overshoot⟩ := deck
  cases sound.inserted with
  | none => cases running <;> exact ⟨_, rfl, ⟨.none, sound.returned⟩, rfl⟩
  | @some cassette stay kept =>
      cases running with
      | false => exact ⟨_, rfl, ⟨.some kept, sound.returned⟩, rfl⟩
      | true =>
          cases cassette with
          | reader tape => exact ⟨_, rfl, ⟨.some kept, sound.returned⟩, rfl⟩
          | writer tape recorder =>
              let session : Recorder.Session := { recorder, tape }
              obtain ⟨after, recorded, ⟨count, adds, counted⟩, later⟩ :=
                @Recorder.Sound.record_gains session kept.1 pulses
              obtain ⟨answer, same, done⟩ := @recordMicPulses_ok session after
                { running := true, cassette := some (.writer tape recorder), stopOn48k, overshoot }
                rfl rfl pulses recorded
              obtain rfl : count = answer := by omega
              simp only [perform, done]
              refine ⟨_, rfl, ⟨.some ⟨later, ?_⟩, sound.returned⟩, rfl⟩
              have whole := kept.2.trans adds
              rw [Nat.add_right_comm] at whole
              exact whole

theorem Sound.perform (sound : history.Sound) (operation : Operation) :
    ∃ after, history.perform operation = .ok after ∧ after.Sound ∧
      after.inserted = history.inserted ++ operation.inserted?.toList := by
  cases operation with
  | insert tape =>
      obtain ⟨out, deck, done, kept, inserted⟩ :=
        @Sound.exchange _ (.reader tape) sound trivial
      refine ⟨_, ?_, kept, inserted⟩
      simp only [History.perform, Deck.insert, done]
      rfl
  | insertAsWriter tape =>
      obtain ⟨out, deck, done, kept, inserted⟩ :=
        @Sound.exchange _ (.writer tape {}) sound (Recorder.sound_waiting rfl)
      refine ⟨_, ?_, kept, inserted⟩
      simp only [History.perform, Deck.insertAsWriter, done]
      rfl
  | play =>
      obtain ⟨after, done, kept, same⟩ := sound.play
      exact ⟨after, done, kept, same.trans (List.append_nil _).symm⟩
  | eject =>
      obtain ⟨after, done, kept, same⟩ := sound.eject
      exact ⟨after, done, kept, same.trans (List.append_nil _).symm⟩
  | recordMicPulses pulses =>
      obtain ⟨after, done, kept, same⟩ := sound.recordMicPulses pulses
      exact ⟨after, done, kept, same.trans (List.append_nil _).symm⟩
  | record => exact ⟨_, rfl, sound.record, (List.append_nil _).symm⟩
  | stop => exact ⟨_, rfl, ⟨sound.inserted, sound.returned⟩, (List.append_nil _).symm⟩
  | rewind => exact ⟨_, rfl, sound.rewind, (List.append_nil _).symm⟩
  | earPulses patience budget =>
      exact ⟨_, rfl, sound.earPulses patience budget, (List.append_nil _).symm⟩

/-- The operations one after another, beginning with an empty deck. -/
def run (operations : List Operation) : Except Error History :=
  operations.foldlM perform {}

theorem Sound.run (sound : history.Sound) (operations : List Operation) :
    ∃ after, operations.foldlM History.perform history = .ok after ∧ after.Sound ∧
      after.inserted = history.inserted ++ operations.filterMap Operation.inserted? := by
  induction operations generalizing history with
  | nil => exact ⟨history, rfl, sound, (List.append_nil _).symm⟩
  | cons operation operations ih =>
      obtain ⟨middle, first, kept, inserted⟩ := sound.perform operation
      obtain ⟨after, later, keptOn, others⟩ := ih kept
      refine ⟨after, ?_, keptOn, ?_⟩
      · rw [List.foldlM_cons, first]
        exact later
      · rw [others, inserted, List.append_assoc]
        cases given : operation.inserted? <;> simp [given]

end History

/-- Whatever is done with a deck, it loses and alters nothing. Every tape that was
inserted is handed back, in order, or still inserted. It has the blocks that it had, and
behind them as many blocks of recorded data as the deck has counted, and one for every
recording that was ended in the middle of a transfer. -/
theorem keeps_tapes (operations : List Operation) :
    ∃ history, History.run operations = .ok history ∧
      (∀ entry ∈ history.returned, Option.Rel (fun tape stay => stay.Kept tape) entry.1 entry.2) ∧
      Option.Rel (fun cassette stay => stay.Kept cassette.tape) history.deck.cassette
        history.stay ∧
      history.returned.filterMap (fun entry => entry.2.map Stay.blocks) ++
        (history.stay.map Stay.blocks).toList =
          operations.filterMap Operation.inserted? := by
  have new : ({} : History).Sound := ⟨.none, nofun⟩
  obtain ⟨history, done, kept, inserted⟩ := new.run operations
  refine ⟨history, done, kept.returned, ?_, inserted⟩
  have inside := kept.inserted
  generalize history.deck.cassette = cassette at inside ⊢
  generalize history.stay = stay at inside ⊢
  cases inside with
  | none => exact .none
  | some whole => exact .some whole.2

example :
    (History.run [.insert twoPulses, .record, .recordMicPulses (Recorder.shortTransfer.take 23),
      .eject]).map (fun history => history.returned.map fun entry => entry.1.map Tape.blocks) =
      .ok [none, some [.pulses #[30, 20], .rom { data := #[0xC0] }]] := rfl

end Deck

end ZxMedia
