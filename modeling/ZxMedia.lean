import ZxMedia.ByteBuffer
import ZxMedia.Deck.Copy
import ZxMedia.Packing.Packer
import ZxMedia.Recording.File
import ZxMedia.Recording.InPlace
import ZxMedia.Saved.Deck
import ZxMedia.Saved.Recording
import ZxMedia.Tape.InPlace
import ZxMedia.Tape.Open
import ZxMedia.Proofs.Tape.Cursor
import ZxMedia.Proofs.Tape.Ending
import ZxMedia.Proofs.Tzx.File
import ZxMedia.Proofs.Recording.InPlace
import ZxMedia.Proofs.Recording.Session
import ZxMedia.Proofs.Recording.SignedPart
import ZxMedia.Proofs.Signing.Dsa
import ZxMedia.Proofs.Tzx.Pieces
import ZxMedia.Proofs.Tape.Recorder
import ZxMedia.Proofs.Deck.Frames
import ZxMedia.Proofs.Tape.Edges
import ZxMedia.Proofs.Tape.Receiving
import ZxMedia.Proofs.Tape.Transfer
import ZxMedia.Proofs.Deck.Copy
import ZxMedia.Proofs.Recording.SignedFile
import ZxMedia.Proofs.Tape.Open
import ZxMedia.Proofs.Tape.Replay
import ZxMedia.Proofs.Tape.Circle
import ZxMedia.Proofs.Tape.Waiting
import ZxMedia.Proofs.Deck.Waiting
import ZxMedia.Proofs.Recording.Cursor
import ZxMedia.Proofs.Deck.Keeping
import ZxMedia.Proofs.Tzx.Cut
import ZxMedia.Proofs.Recording.Cut
import ZxMedia.Proofs.Saved.Restored
import ZxMedia.Proofs.Tape.Samples
import ZxMedia.Proofs.Tape.Loops
import ZxMedia.Proofs.Tape.Calls
import ZxMedia.Proofs.Tape.Pulses
import ZxMedia.Proofs.Tape.InPlace
import ZxMedia.Proofs.Tape.Leaps
import ZxMedia.Proofs.Tape.Editing
import ZxMedia.Proofs.Tape.Tolerance
import ZxMedia.Proofs.Tzx.Canonical
import ZxMedia.Proofs.Tzx.Limits
import ZxMedia.Proofs.Tap.Chunks
import ZxMedia.Proofs.Recording.Spliced
import ZxMedia.Proofs.Tape.Duration
import ZxMedia.Proofs.FileType.Ranking
import ZxMedia.Proofs.FileType.Packed
import ZxMedia.Proofs.Packing.Declared
import ZxMedia.Proofs.Recording.Counter
import ZxMedia.Proofs.Signing.Framing
import ZxMedia.Proofs.Tape.Register
import ZxMedia.Proofs.ByteBuffer
