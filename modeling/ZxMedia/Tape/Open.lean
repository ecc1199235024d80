import ZxMedia.FileType.Identify
import ZxMedia.Tap.File
import ZxMedia.Tzx.File

/-!
# Opening tape files

A tape may come in any of the formats that this library reads, and compressed. The name
of the file, if there is one, helps to tell the format.
-/

namespace ZxMedia

/-- Reads a tape from a file of any format, looking at so many layers of compression. -/
def Tape.openFile (layers : Nat) (file : Octets) (name : Option String) : Report Tape :=
  match identifyDeep layers file name none with
  | .error error => { result := .error error }
  | .ok found =>
    let content := found.unpacked.getD file
    match found.type with
    | .tap => Tap.read content
    | .tzx => Tzx.read content
    | type => { result := .error (.unknown (.notATape type)) }

end ZxMedia
