import Mathlib
import ZxMedia.Proofs.Encoding
import ZxMedia.Tape.Recorder

/-!
# Recorders and the pulses they hear

A recorder that came about by recording never answers with an error: it holds octets
only while data is received, and of the octet that is being received there are fewer
than sixteen pulses. What a single pulse does to it is `Session.hear`, and recording
some pulses is hearing them one after another.

There is one exception. A pulse that breaks a transfer off before an octet of it was
received gives no block, and the recording ends there: the pulses behind it in the same
delivery are not heard. `heard` is what a recorder hears of a delivery. If it is
everything, it does not matter how the pulses are delivered.
-/

namespace ZxMedia.Recorder

/-! ## Recorders that came about by recording -/

/-- Octets are held while data is received, and an octet has sixteen pulses. -/
structure Sound (recorder : Recorder) : Prop where
  inOctet : ∀ bits pulses, recorder.state = .data bits pulses → pulses ≤ 15
  held : recorder.state.isData = false → recorder.data = #[]

/-- A recorder that operations lead to, in any number and order. -/
inductive Reachable : Recorder → Prop where
  | new (pause : UInt16) : Reachable { pause }
  | decode {recorder after : Recorder} {pulses left : List Nat} {block : Option Block}
      (reached : Reachable recorder) (decoded : recorder.decode pulses = .ok (block, left, after)) :
      Reachable after
  | record {recorder after : Recorder} {tape written : Tape} {pulses : List Nat} {count : Nat}
      (reached : Reachable recorder)
      (recorded : recorder.record tape pulses = .ok (count, written, after)) : Reachable after
  | finish {recorder after : Recorder} {block : Option Block} (reached : Reachable recorder)
      (finished : recorder.finish = .ok (block, after)) : Reachable after
  | reset {recorder : Recorder} (reached : Reachable recorder) : Reachable recorder.reset

/-- The octets of the present transfer if it ended now. -/
def received (recorder : Recorder) : Octets :=
  match recorder.state with
  | .data bits pulses =>
    if pulses ≤ 1 then recorder.data else recorder.data.push (lastOctet bits pulses)
  | _ => recorder.data

/-- The block of the present transfer if it ended now. -/
def block? (recorder : Recorder) : Option Block :=
  if recorder.received.isEmpty then none
  else some (.rom { pause := recorder.pause, data := recorder.received })

/-- What a pulse does to a recorder that cannot fail. -/
def take (recorder : Recorder) (tstates : Nat) : Intake :=
  match recorder.intake tstates with
  | .ok intake => intake
  | .error _ => .ends

variable {recorder after : Recorder} {tstates : Nat}

theorem sound_reset (recorder : Recorder) : recorder.reset.Sound where
  inOctet _ _ receiving := by cases receiving
  held _ := rfl

theorem sound_data {bits : UInt8} {pulses : Nat} {data : Octets} {pause : UInt16}
    (few : pulses ≤ 15) : Sound { state := .data bits pulses, data, pause } where
  inOctet _ _ receiving := by
    cases receiving
    exact few
  held idle := by cases idle

theorem sound_waiting {state : RecordState} {pause : UInt16}
    (waiting : state.isData = false) :
    Sound { state, pause } where
  inOctet _ _ receiving := by
    cases receiving
    cases waiting
  held _ := rfl

theorem finish_of_inOctet
    (inside : ∀ bits pulses, recorder.state = .data bits pulses → pulses ≤ 15) :
    recorder.finish = .ok (recorder.block?, recorder.reset) := by
  unfold Recorder.finish block? received
  cases state : recorder.state with
  | data bits pulses =>
      by_cases few : pulses ≤ 1
      · simp only [few, if_true]
      · have inOctet := inside bits pulses state
        have partly : ¬pulses % 16 = 0 := by omega
        simp only [few, partly, if_false]
  | _ => rfl

theorem Sound.finish (sound : recorder.Sound) :
    recorder.finish = .ok (recorder.block?, recorder.reset) :=
  finish_of_inOctet sound.inOctet

theorem takeData_ok {bits : UInt8} {pulses : Nat} (few : pulses ≤ 15) :
    ∃ intake, recorder.takeData bits pulses tstates = .ok intake ∧
      ∀ after, intake = .more after → after.Sound := by
  unfold takeData
  split
  next => exact ⟨.ends, rfl, by simp⟩
  next =>
    split
    next second =>
      split
      next => exact ⟨.ends, rfl, by simp⟩
      next =>
        split
        next whole =>
          refine ⟨_, rfl, ?_⟩
          rintro _ ⟨⟩
          exact sound_data (Nat.zero_le 15)
        next =>
          have small : ¬255 ≤ pulses := by omega
          simp only [small, if_false]
          refine ⟨_, rfl, ?_⟩
          rintro _ ⟨⟩
          exact sound_data (by omega)
    next first =>
      refine ⟨_, rfl, ?_⟩
      rintro _ ⟨⟩
      exact sound_data (by omega)

theorem Sound.takeSync (sound : recorder.Sound)
    (waiting : recorder.state.isData = false) :
    (recorder.takeSync tstates).Sound := by
  obtain ⟨state, data, pause⟩ := recorder
  obtain rfl : data = #[] := sound.held waiting
  cases state with
  | idle =>
      simp only [Recorder.takeSync]
      apply sound_waiting
      split <;> rfl
  | lead count =>
      simp only [Recorder.takeSync]
      apply sound_waiting
      split
      · rfl
      · split <;> rfl
  | sync1 =>
      simp only [Recorder.takeSync]
      apply sound_waiting
      split <;> rfl
  | sync2 =>
      simp only [Recorder.takeSync]
      split
      · exact sound_data (by decide)
      · exact sound_waiting rfl
  | data bits pulses => cases waiting

theorem Sound.intake (sound : recorder.Sound) :
    recorder.intake tstates = .ok (recorder.take tstates) ∧
      ∀ after, recorder.take tstates = .more after → after.Sound := by
  have taken : ∃ intake, recorder.intake tstates = .ok intake ∧
      ∀ after, intake = .more after → after.Sound := by
    unfold Recorder.intake
    split
    next bits pulses state => exact takeData_ok (sound.inOctet bits pulses state)
    next other =>
      refine ⟨_, rfl, ?_⟩
      rintro _ ⟨⟩
      apply sound.takeSync
      cases state : recorder.state with
      | data bits pulses => exact absurd state (other bits pulses)
      | _ => rfl
  obtain ⟨intake, same, keeps⟩ := taken
  have answer : recorder.take tstates = intake := by rw [take, same]
  rw [answer]
  exact ⟨same, keeps⟩

/-! ## Hearing pulses -/

/-- A recorder at work: the tape that it writes, and the number of blocks it has put
there. -/
structure Session where
  recorder : Recorder := {}
  tape : Tape
  count : Nat := 0

/-- Ends the present transfer, and puts its block on the tape if there is one. -/
def Session.finish (session : Session) : Session :=
  match session.recorder.block? with
  | none => { session with recorder := session.recorder.reset }
  | some block =>
    { recorder := session.recorder.reset
      tape := session.tape.append block
      count := session.count + 1 }

/-- Takes in a pulse, whatever it does to the present transfer. -/
def Session.hear (session : Session) (tstates : Nat) : Session :=
  match session.recorder.take tstates with
  | .more recorder => { session with recorder }
  | .ends => session.finish

/-- Records what is delivered at once. -/
def Session.record (session : Session) (pulses : List Nat) : Except Error Session := do
  let (count, tape, recorder) ← session.recorder.record session.tape pulses
  return { recorder, tape, count := session.count + count }

/-- What a recorder hears of pulses that are delivered at once: those up to the first
one that breaks a transfer off of which nothing was received. -/
def heard : Recorder → List Nat → List Nat
  | _, [] => []
  | recorder, tstates :: pulses => match recorder.take tstates with
    | .more recorder => tstates :: recorder.heard pulses
    | .ends => match recorder.block? with
      | none => [tstates]
      | some _ => tstates :: recorder.reset.heard pulses

variable {session : Session}

theorem Sound.finishSession (session : Session) : session.finish.recorder.Sound := by
  unfold Session.finish
  split <;> exact sound_reset _

theorem Sound.hear (sound : session.recorder.Sound) (tstates : Nat) :
    (session.hear tstates).recorder.Sound := by
  unfold Session.hear
  split
  next taken => exact sound.intake.2 _ taken
  next => exact Sound.finishSession session

theorem Sound.hearAll (sound : session.recorder.Sound) (pulses : List Nat) :
    (pulses.foldl Session.hear session).recorder.Sound := by
  induction pulses generalizing session with
  | nil => exact sound
  | cons tstates pulses ih => exact ih (sound.hear tstates)

theorem Sound.decodeAll (sound : recorder.Sound) (tape : Tape) (count : Nat)
    {pulses : List Nat}
    {transfers : Nat} (enough : pulses.length < transfers) :
    recorder.decodeAll transfers tape pulses count =
      (let after := (recorder.heard pulses).foldl Session.hear { recorder, tape, count }
       .ok (after.count, after.tape, after.recorder)) := by
  induction pulses generalizing recorder tape count transfers with
  | nil =>
      cases transfers with
      | zero => cases enough
      | succ transfers => rfl
  | cons tstates pulses ih =>
      cases transfers with
      | zero => cases enough
      | succ transfers =>
          have shorter : pulses.length < transfers := Nat.lt_of_succ_lt_succ enough
          cases taken : recorder.take tstates with
          | more after =>
              have later := ih (sound.intake.2 after taken) tape count
                (Nat.lt_succ_of_lt shorter)
              simp only [Recorder.decodeAll, decode, sound.intake.1, taken,
                heard, List.foldl_cons, Session.hear] at later ⊢
              exact later
          | ends =>
              cases block : recorder.block? with
              | none =>
                  simp only [Recorder.decodeAll, decode, sound.intake.1, taken,
                    sound.finish, block,
                    heard, List.foldl_cons, List.foldl_nil, Session.hear, Session.finish]
              | some received =>
                  have later :=
                    ih (sound_reset recorder) (tape.append received) (count + 1) shorter
                  simp only [Recorder.decodeAll, decode, sound.intake.1, taken,
                    sound.finish, block,
                    heard, List.foldl_cons, Session.hear, Session.finish, later]

/-- The number of blocks that are on the tape already does not matter to a session. -/
theorem foldl_hear_count (session : Session) (before : Nat) (pulses : List Nat) :
    pulses.foldl Session.hear { session with count := before + session.count } =
      { pulses.foldl Session.hear session with
        count := before + (pulses.foldl Session.hear session).count } := by
  refine List.foldl_hom
    (fun session : Session => ({ session with count := before + session.count } : Session)) ?_
  intro session tstates
  unfold Session.hear
  dsimp only
  split
  next => rfl
  next =>
    unfold Session.finish
    dsimp only
    split <;> rfl

theorem Sound.record_nil (sound : session.recorder.Sound) :
    session.record [] = .ok session.finish := by
  unfold Session.record Recorder.record Session.finish
  rw [sound.finish]
  cases session.recorder.block? <;> rfl

/-- Of any other delivery the pulses that are heard are taken in one after another. -/
theorem Sound.record (sound : session.recorder.Sound) {pulses : List Nat}
    (some : pulses ≠ []) :
    session.record pulses =
      .ok ((session.recorder.heard pulses).foldl Session.hear session) := by
  have decoded := sound.decodeAll session.tape 0 (Nat.lt_succ_self pulses.length)
  have counted := foldl_hear_count { session with count := 0 } session.count
    (session.recorder.heard pulses)
  unfold Session.record Recorder.record
  simp only [List.isEmpty_iff, some, if_false, decoded]
  exact congrArg Except.ok counted.symm

theorem Sound.after_record (sound : session.recorder.Sound) {pulses : List Nat}
    {next : Session}
    (recorded : session.record pulses = .ok next) : next.recorder.Sound := by
  by_cases none : pulses = []
  · subst none
    rw [sound.record_nil] at recorded
    cases recorded
    exact Sound.finishSession session
  · rw [sound.record none] at recorded
    cases recorded
    exact sound.hearAll _

theorem Sound.decode (sound : recorder.Sound) {pulses left : List Nat}
    {block : Option Block}
    (decoded : recorder.decode pulses = .ok (block, left, after)) : after.Sound := by
  induction pulses generalizing recorder with
  | nil =>
      cases decoded
      exact sound
  | cons tstates pulses ih =>
      cases taken : recorder.take tstates with
      | more next =>
          simp only [Recorder.decode, sound.intake.1, taken] at decoded
          exact ih (sound.intake.2 next taken) decoded
      | ends =>
          simp only [Recorder.decode, sound.intake.1, taken, sound.finish] at decoded
          cases decoded
          exact sound_reset recorder

theorem Reachable.sound (reached : recorder.Reachable) : recorder.Sound := by
  induction reached with
  | new pause => exact sound_waiting rfl
  | decode reached decoded sound => exact sound.decode decoded
  | @record recorder after tape written pulses count reached recorded sound =>
      have session_record : Session.record { recorder, tape } pulses =
          .ok { recorder := after, tape := written, count := 0 + count } := by
        simp only [Session.record, recorded, ok_bind, pure_ok]
      exact Sound.after_record sound session_record
  | finish reached finished sound =>
      rw [sound.finish] at finished
      cases finished
      exact sound_reset _
  | reset reached sound => exact sound_reset _

/-! ## Deliveries -/

/-- If all of some pulses would be heard in one delivery, then so would they be in
two. -/
theorem heard_append {front back : List Nat}
    (all : session.recorder.heard (front ++ back) = front ++ back) :
    session.recorder.heard front = front ∧
      (front.foldl Session.hear session).recorder.heard back = back := by
  induction front generalizing session with
  | nil => exact ⟨rfl, all⟩
  | cons tstates front ih =>
      rw [List.cons_append, heard] at all
      rw [heard, List.foldl_cons, Session.hear]
      cases taken : session.recorder.take tstates with
      | more next =>
          simp only [taken, List.cons.injEq, true_and] at all
          obtain ⟨first, second⟩ := @ih { session with recorder := next } all
          exact ⟨congrArg (tstates :: ·) first, second⟩
      | ends =>
          cases block : session.recorder.block? with
          | none =>
              simp only [taken, block, List.cons.injEq, true_and] at all
              obtain ⟨rfl, rfl⟩ := List.append_eq_nil_iff.mp all.symm
              exact ⟨rfl, rfl⟩
          | some received =>
              simp only [taken, block, List.cons.injEq, true_and] at all
              simp only [Session.finish, block]
              obtain ⟨first, second⟩ := @ih ⟨session.recorder.reset, _, _⟩ all
              exact ⟨congrArg (tstates :: ·) first, second⟩

/-- Deliveries of which everything would be heard at once are heard one after
another. -/
theorem Sound.recordAll (sound : session.recorder.Sound) {chunks : List (List Nat)}
    (full : ∀ chunk ∈ chunks, chunk ≠ [])
    (all : session.recorder.heard chunks.flatten = chunks.flatten) :
    chunks.foldlM Session.record session =
      .ok (chunks.flatten.foldl Session.hear session) := by
  induction chunks generalizing session with
  | nil => rfl
  | cons chunk chunks ih =>
      rw [List.flatten_cons] at all
      obtain ⟨first, later⟩ := heard_append all
      have recorded := sound.record (full chunk List.mem_cons_self)
      rw [first] at recorded
      rw [List.foldlM_cons, recorded, ok_bind, List.flatten_cons, List.foldl_append]
      apply ih (sound.hearAll chunk)
      · intro other member
        exact full other (List.mem_cons_of_mem chunk member)
      · exact later

/-- It does not matter how pulses are delivered, all at once, in parts or one by one, as
long as none but the last of them breaks a transfer off of which nothing was
received. -/
theorem record_flatten (reached : session.recorder.Reachable) {chunks : List (List Nat)}
    (some : chunks ≠ []) (full : ∀ chunk ∈ chunks, chunk ≠ [])
    (all : session.recorder.heard chunks.flatten = chunks.flatten) :
    ∃ after, session.record chunks.flatten = .ok after ∧
      chunks.foldlM Session.record session = .ok after ∧
      (chunks.flatten.map fun tstates => [tstates]).foldlM Session.record session =
        .ok after := by
  have sound := reached.sound
  have any : chunks.flatten ≠ [] := by
    intro empty
    obtain ⟨chunk, member⟩ := List.exists_mem_of_ne_nil chunks some
    exact full chunk member (List.flatten_eq_nil_iff.mp empty chunk member)
  have single :
      (chunks.flatten.map fun tstates => [tstates]).flatten = chunks.flatten := by
    rw [← List.flatMap_def, List.flatMap_singleton']
  refine ⟨chunks.flatten.foldl Session.hear session, ?_, sound.recordAll full all, ?_⟩
  · rw [sound.record any, all]
  · have parts : ∀ part ∈ chunks.flatten.map fun tstates => [tstates], part ≠ [] := by
      intro part member
      obtain ⟨tstates, -, rfl⟩ := List.mem_map.mp member
      exact List.cons_ne_nil tstates []
    have recorded := sound.recordAll parts (by rw [single, all])
    rwa [single] at recorded

/-- A transfer that breaks off in the middle of its first bit. -/
def brokenTransfer : List Nat :=
  List.replicate 16 2168 ++ [667, 735, 855, 1710]

/-- A transfer of one octet. -/
def shortTransfer : List Nat :=
  List.replicate 16 2168 ++ [667, 735] ++ List.replicate 16 1710 ++ [3494]

theorem record_flatten_parts :
    ∃ after, Session.record { tape := {} } (shortTransfer ++ brokenTransfer) = .ok after ∧
      [shortTransfer.take 23, shortTransfer.drop 23, brokenTransfer].foldlM Session.record
        { tape := {} } = .ok after ∧
      ((shortTransfer ++ brokenTransfer).map fun tstates => [tstates]).foldlM Session.record
        { tape := {} } = .ok after ∧
      after.tape.blocks = [.rom { data := #[0xFF] }] := by
  have reached : (Session.recorder { tape := {} }).Reachable := .new 1000
  have full : ∀ chunk ∈ [shortTransfer.take 23, shortTransfer.drop 23, brokenTransfer],
      chunk ≠ [] := by decide
  obtain ⟨after, whole, parts, singles⟩ :=
    record_flatten reached (List.cons_ne_nil _ _) full (by decide)
  refine ⟨after, whole, parts, singles, ?_⟩
  cases whole
  rfl

/-- What follows a transfer that broke off early is lost, unless it comes with another
delivery. -/
theorem record_forgets_behind_broken :
    (Session.record { tape := {} } (brokenTransfer ++ shortTransfer)).map (·.tape.blocks) =
      .ok [] ∧
    ([brokenTransfer, shortTransfer].foldlM Session.record { tape := {} }).map (·.tape.blocks) =
      .ok [.rom { data := #[0xFF] }] :=
  ⟨rfl, rfl⟩

end ZxMedia.Recorder
