import Chip8.Text.Hexadecimal
/-!
# Fault — why a machine stops

A fault is a cause, and its text is made in one place.  A machine that meets one stops until a program is loaded.
-/
namespace Chip8

/-- What can stop a machine: a program of too many bytes, an address past the end of memory, a word that is no
instruction or calls a routine of the host, a call too many, and a return with no call open. -/
inductive Fault where
  | programTooBig (size : Nat)
  | outOfBounds (address : Nat)
  | notRecognized (word : UInt16)
  | machineRoutine (word : UInt16)
  | stackOverflow
  | stackUnderflow
  deriving DecidableEq, Repr

namespace Fault

/-- The text shown for a fault; addresses and words have at least four digits. -/
def message : Fault → String
  | programTooBig size => s!"program of {size} bytes does not fit in the program area"
  | outOfBounds address => "memory accessed out of bounds at 0x" ++ Text.hex 4 address
  | notRecognized word => "instruction 0x" ++ Text.hex 4 word.toNat ++ " not recognized"
  | machineRoutine word => "machine code routine 0x" ++ Text.hex 4 word.toNat ++ " (0NNN) is not implemented"
  | stackOverflow => "stack overflowed"
  | stackUnderflow => "stack underflowed"

end Fault

/-- A machine runs, or no program was loaded since its reset, or a fault has stopped it until the next load. -/
inductive Status where
  | ok
  | reset
  | halted (fault : Fault)
  deriving DecidableEq, Repr

namespace Status

def isOk : Status → Bool
  | ok => true
  | _ => false

def fault? : Status → Option Fault
  | halted fault => some fault
  | _ => none

def isFatal (s : Status) : Bool :=
  s.fault?.isSome

end Status

end Chip8
