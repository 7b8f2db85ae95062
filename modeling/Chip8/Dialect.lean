/-!
# Dialect — where interpreters read an instruction differently

The instruction set grew through several interpreters, and two of its instructions mean different things in different
ones.  A dialect says which meaning a machine has; it is fixed when the machine is built.
-/
namespace Chip8

/-- The register that a shift instruction shifts; the result goes to `VX`. -/
inductive ShiftSource where
  | vy
  | vx
  deriving DecidableEq, Repr

/-- Whether a block transfer leaves the address after the last byte in the index register, or the one before. -/
inductive IndexAfterTransfer where
  | advanced
  | restored
  deriving DecidableEq, Repr

structure Dialect where
  shift : ShiftSource := .vy
  transfer : IndexAfterTransfer := .advanced
  deriving DecidableEq, Repr

inductive Interpreter where
  | cosmacVip
  | chip48
  | superChip
  deriving DecidableEq, Repr

def Interpreter.dialect : Interpreter → Dialect
  | .cosmacVip => {}
  | .chip48 => { shift := .vx }
  | .superChip => { shift := .vx, transfer := .restored }

def ShiftSource.name : ShiftSource → String
  | .vy => "VY"
  | .vx => "VX"

def IndexAfterTransfer.name : IndexAfterTransfer → String
  | .advanced => "Advanced"
  | .restored => "Restored"

namespace Dialect

def summary (d : Dialect) : String :=
  "Quirks \x7b shift: " ++ d.shift.name ++ ", transfer: " ++ d.transfer.name ++ " \x7d"

end Dialect

end Chip8
