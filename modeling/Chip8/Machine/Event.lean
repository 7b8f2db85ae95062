import Chip8.Fault
import Chip8.Instruction.Disassembly
import Chip8.Level
/-!
# Event — what a machine tells about itself

A machine tells when it is reset and loaded, which instruction it is about to execute, and why it stopped.
-/
namespace Chip8

/-- Something that happened to a machine. -/
inductive Event where
  | reset
  | loaded (size : Nat)
  | executing (pc word : UInt16) (instruction : Instruction)
  | halted (pc : UInt16) (fault : Fault)
  deriving DecidableEq, Repr

namespace Event

def level : Event → Level
  | reset => .debug
  | loaded _ => .debug
  | executing _ _ _ => .trace
  | halted _ _ => .warn

def message : Event → String
  | reset => "Machine reset"
  | loaded size => s!"Loaded {size} byte program"
  | executing pc word instruction =>
    "0x" ++ Text.hex 4 pc.toNat ++ ": 0x" ++ Text.hex 4 word.toNat ++ " " ++ instruction.text
  | halted pc fault => "Halted at 0x" ++ Text.hex 4 pc.toNat ++ ": " ++ fault.message

end Event

end Chip8
