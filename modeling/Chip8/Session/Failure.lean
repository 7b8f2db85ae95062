import Chip8.Fault
import Chip8.Font
/-!
# Failure — why a session fails

A session fails on a bad scale, on a file, on what a file holds, or because its machine stopped.  Each cause has a
message, and some have a further text that says what led to it.
-/
namespace Chip8

/-- Why a file could not be read or written, in the words and by the number of the system. -/
structure FileError where
  reason : String
  code : Nat
  deriving DecidableEq, Repr

def FileError.message (e : FileError) : String :=
  s!"{e.reason} (os error {e.code})"

/-- A file could not be made, or it did not take what was written. -/
inductive WriteError where
  | create (error : FileError)
  | fill (error : FileError)
  deriving DecidableEq, Repr

inductive Failure where
  | scale
  | fontFile (path : String) (error : FileError)
  | font (error : FontError)
  | romFile (path : String) (error : FileError)
  | rom (fault : Fault)
  | snapshotFile (path : String) (error : FileError)
  | snapshot (error : FileError)
  | halted (pc : UInt16) (fault : Fault)
  deriving DecidableEq, Repr

namespace Failure

/-- The failure of a picture that did not get written to a path. -/
def ofWrite (path : String) : WriteError → Failure
  | .create error => .snapshotFile path error
  | .fill error => .snapshot error

def message : Failure → String
  | scale => "Display scaling factor must be between [1-100]"
  | fontFile path _ => s!"failed to read font file {path}"
  | font error => error.message
  | romFile path _ => s!"failed to read ROM file {path}"
  | rom _ => "failed to load ROM"
  | snapshotFile path _ => s!"failed to create {path}"
  | snapshot error => error.message
  | halted pc _ => "program halted at 0x" ++ Text.hex 4 pc.toNat

/-- What led to the failure, where the message does not say it. -/
def cause? : Failure → Option String
  | scale => none
  | fontFile _ error => some error.message
  | font _ => none
  | romFile _ error => some error.message
  | rom fault => some fault.message
  | snapshotFile _ error => some error.message
  | snapshot _ => none
  | halted _ fault => some fault.message

end Failure

end Chip8
