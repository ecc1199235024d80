import ZxMedia.Tape.Basic

/-!
# Recording a signal

A recorder turns pulses with the timing of the machine's own routines back into blocks.
A transfer is a lead tone of enough pulses, two synchronization pulses and two equal
pulses for each bit of the data, the highest bit of an octet first. A pulse that does
not fit the data ends the transfer, and the octets received become a block.

States that arise by recording never shift out more bits than an octet has. Other states
can be restored, and with them an octet may overflow; `Error.overflow` is the answer
then.
-/

namespace ZxMedia

/-- What a recorder is waiting for. -/
inductive RecordState where
  /-- A lead tone. -/
  | idle
  /-- More of the lead tone, of which so many pulses came, or its end. -/
  | lead (count : Nat)
  /-- The second synchronization pulse. -/
  | sync1
  /-- The first pulse of the data. -/
  | sync2
  /-- More pulses of an octet, of which so many came, with the bits received so far. -/
  | data (bits : UInt8) (pulses : Nat)
deriving Repr, DecidableEq

namespace RecordState

/-- Whether a lead tone is waited for. -/
def isIdle (state : RecordState) : Bool :=
  match state with
  | idle => true
  | _ => false

/-- Whether a lead tone is being received. -/
def isLead (state : RecordState) : Bool :=
  match state with
  | lead _ => true
  | _ => false

/-- Whether data is being received. -/
def isData (state : RecordState) : Bool :=
  match state with
  | data _ _ => true
  | _ => false

end RecordState

/-- A recorder with the octets that it has received in the present transfer. -/
structure Recorder where
  state : RecordState := .idle
  data : Octets := #[]
  /-- The pause of the recorded blocks in milliseconds. -/
  pause : UInt16 := 1000
deriving Repr, DecidableEq

namespace Recorder

/-- Whether a pulse may belong to a lead tone. -/
def isLeadPulse (tstates : Nat) : Bool :=
  1918 ≤ tstates && tstates ≤ 2417

/-- Whether a pulse may be the first synchronization pulse. -/
def isSync1Pulse (tstates : Nat) : Bool :=
  633 ≤ tstates && tstates ≤ 700

/-- Whether a pulse may be the second synchronization pulse. -/
def isSync2Pulse (tstates : Nat) : Bool :=
  701 ≤ tstates && tstates ≤ 768

/-- Whether a pulse may belong to data. -/
def isDataPulse (tstates : Nat) : Bool :=
  605 ≤ tstates && tstates ≤ 1959

/-- The bit that a pulse of data is one half of. -/
def pulseBit (tstates : Nat) : UInt8 :=
  if 1282 < tstates then 1 else 0

/-- The fewest pulses of a lead tone. -/
def minLead : Nat := 16

/-- Forgets the present transfer. -/
def reset (recorder : Recorder) : Recorder :=
  { recorder with state := .idle, data := #[] }

/-- The last octet of a transfer, of which not all pulses came, filled up with zero
bits. A bit of which only one pulse came does not count. -/
def lastOctet (bits : UInt8) (pulses : Nat) : UInt8 :=
  let whole := if pulses % 2 = 1 then bits &&& 0xFE else bits
  whole <<< UInt8.ofNat ((16 - pulses % 16) / 2)

/-- Ends the present transfer: the block received, if there is any data. -/
def finish (recorder : Recorder) : Except Error (Option Block × Recorder) :=
  let received : Except Error Octets := match recorder.state with
    | .data bits pulses =>
      if pulses ≤ 1 then .ok recorder.data
      else if pulses % 16 = 0 then .error .overflow
      else .ok (recorder.data.push (lastOctet bits pulses))
    | _ => .ok recorder.data
  match received with
  | .error error => .error error
  | .ok data =>
    .ok (if data.isEmpty then none else some (.rom { pause := recorder.pause, data }),
      recorder.reset)

/-- What a pulse does to a recorder that receives data. -/
inductive Intake where
  /-- The transfer goes on. -/
  | more (recorder : Recorder)
  /-- The pulse does not belong to the data. -/
  | ends

/-- Takes in a pulse of data. Both pulses of a bit have to be of one kind. -/
@[inline] def takeData (recorder : Recorder) (bits : UInt8) (pulses tstates : Nat) :
    Except Error Intake :=
  if !isDataPulse tstates then .ok .ends
  else if pulses % 2 = 1 then
    if bits % 2 ≠ pulseBit tstates then .ok .ends
    else if pulses = 15 then
      .ok (.more { recorder with state := .data 0 0, data := recorder.data.push bits })
    else if 255 ≤ pulses then .error .overflow
    else .ok (.more { recorder with state := .data bits (pulses + 1) })
  else .ok (.more { recorder with
    state := .data (bits <<< 1 ||| pulseBit tstates) (pulses + 1) })

/-- Takes in a pulse while no data is received. -/
def takeSync (recorder : Recorder) (tstates : Nat) : Recorder :=
  match recorder.state with
  | .idle => { recorder with state := if isLeadPulse tstates then .lead 1 else .idle }
  | .lead count =>
    let state : RecordState :=
      if minLead ≤ count && isSync1Pulse tstates then .sync1
      else if isLeadPulse tstates then .lead (addTstates count 1)
      else .idle
    { recorder with state }
  | .sync1 => { recorder with state := if isSync2Pulse tstates then .sync2 else .idle }
  | .sync2 =>
    if isDataPulse tstates then
      { recorder with state := .data (pulseBit tstates) 1, data := #[] }
    else { recorder with state := .idle }
  | .data _ _ => recorder

/-- Takes in a pulse. -/
@[inline] def intake (recorder : Recorder) (tstates : Nat) : Except Error Intake :=
  match recorder.state with
  | .data bits pulses => recorder.takeData bits pulses tstates
  | _ => .ok (.more (recorder.takeSync tstates))

/-- Takes in pulses until a transfer ends or no pulses are left: the block if a transfer
ended with data, the pulses that are left, and the recorder. -/
def decode (recorder : Recorder) :
    List Nat → Except Error (Option Block × List Nat × Recorder)
  | [] => .ok (none, [], recorder)
  | tstates :: pulses => match recorder.intake tstates with
    | .error error => .error error
    | .ok (.more recorder) => recorder.decode pulses
    | .ok .ends => match recorder.finish with
      | .error error => .error error
      | .ok (block, recorder) => .ok (block, pulses, recorder)

/-- Takes in pulses, at most so many transfers, and puts the blocks on a tape until a
decoding ends without a block: how many blocks there were, the tape and the recorder. -/
def decodeAll :
    Nat → Recorder → Tape → List Nat → Nat → Except Error (Nat × Tape × Recorder)
  | 0, recorder, tape, _, count => .ok (count, tape, recorder)
  | transfers + 1, recorder, tape, pulses, count => match recorder.decode pulses with
    | .error error => .error error
    | .ok (none, _, recorder) => .ok (count, tape, recorder)
    | .ok (some block, pulses, recorder) =>
      decodeAll transfers recorder (tape.append block) pulses (count + 1)

/-- Records pulses on a tape. No pulses at all end the transfer in progress. -/
def record (recorder : Recorder) (tape : Tape) (pulses : List Nat) :
    Except Error (Nat × Tape × Recorder) :=
  if pulses.isEmpty then
    match recorder.finish with
    | .error error => .error error
    | .ok (some block, recorder) => .ok (1, tape.append block, recorder)
    | .ok (none, recorder) => .ok (0, tape, recorder)
  else decodeAll (pulses.length + 1) recorder tape pulses 0

end Recorder

end ZxMedia
