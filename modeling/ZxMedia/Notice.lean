import ZxMedia.Error
import ZxMedia.Tape.BlockKind
import ZxMedia.Text.Quoted

/-!
# Notices

Some data is odd without being unusable. What was noticed about it comes with the answer
as a list of notices, in the order in which the data showed them, so that an answer and
the remarks about it are one value.
-/

namespace ZxMedia

/-- Something noticed while answering. -/
inductive Notice where
  /-- An error passed through a report policy. -/
  | reported (error : Error)
  /-- A chunk with a flag other than those of headers and data. -/
  | chunkFlag (size : Nat) (flag : UInt8)
  /-- A data chunk whose checksum is wrong. -/
  | chunkChecksum (size : Nat)
  /-- A sampled signal, which has no octets for a chunk. -/
  | rawDataSkipped
  /-- A block with a signal that has no octets for a chunk. -/
  | blockSkipped (kind : BlockKind)
  /-- A block with an identifier that is not assigned. -/
  | unknownBlock (id : UInt8)
  /-- The header of a file that was appended to another. -/
  | glue
  /-- A loop ends that has not begun. -/
  | loopEndAlone (index : Nat)
  /-- A call returns that has not been made. -/
  | returnAlone (index : Nat)
  /-- A part of a recording with an identifier that is not assigned. -/
  | unknownRecord (id : UInt8) (size : Nat)
  /-- Octets after the last frame of an input block. -/
  | frameJunk (size : Nat)
  /-- A file that says it is signed and is not. -/
  | signatureMissing
  /-- A text that was cut to fit its field. -/
  | truncated (text : String) (size : Nat)
deriving Repr, DecidableEq

/-- The grave notices are those about errors. -/
def Notice.isError : Notice → Bool
  | reported _ => true
  | _ => false

/-- The text of a notice. -/
def Notice.message : Notice → String
  | reported error => error.message
  | chunkFlag size flag =>
    s!"TAP: chunk of {size} bytes with an unexpected flag: 0x{Text.hexByte flag}"
  | chunkChecksum size => s!"TAP: data chunk of {size} bytes with a checksum mismatch"
  | rawDataSkipped => "TAP: raw data blocks can not be represented, skipping"
  | blockSkipped kind => s!"TAP: skipping {kind.title} block"
  | unknownBlock id => s!"TZX: unknown block 0x{Text.hexByte id}"
  | glue => "TZX: skipping a glue block"
  | loopEndAlone index => s!"loop end without a loop start at block {index}"
  | returnAlone index => s!"return without a call at block {index}"
  | unknownRecord id size => s!"RZX: skipping unknown block 0x{Text.hexByte id} of {size} bytes"
  | frameJunk size => s!"RZX input: {size} bytes of junk after the last frame"
  | signatureMissing => "RZX: the file is marked as signed but has no signature"
  | truncated text size => s!"RZX: {Text.quote text} truncated to {size} bytes"

/-- An answer with what was noticed on the way to it. -/
structure Report (α : Type) where
  result : Except Error α
  notices : Array Notice := #[]

/-- How errors are reported: every error is noticed, and a strict policy aborts on a
request that the state does not allow. -/
structure ReportPolicy where
  abortOnLogic : Bool := false
deriving Repr, DecidableEq

namespace ReportPolicy

/-- The policy that aborts. -/
def strict : ReportPolicy :=
  { abortOnLogic := true }

/-- The error to answer with, or nothing if the policy aborts, and the notice of it. -/
def report (policy : ReportPolicy) (error : Error) : Option Error × Notice :=
  let aborts := match error with
    | .logic _ => policy.abortOnLogic
    | _ => false
  (if aborts then none else some error, .reported error)

end ReportPolicy

end ZxMedia
