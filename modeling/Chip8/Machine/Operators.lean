import Chip8.Dialect
import Chip8.Keypad
import Chip8.Machine.Registers
/-!
# Operators — what is computed from registers and asked of them

Operators work on the values of two registers and know nothing of the machine but which of the two a shift takes.
Conditions look at registers and keys, and change neither.
-/
namespace Chip8

/-- The register that a shift works on, of the values of `VX` and `VY`. -/
def ShiftSource.pick (s : ShiftSource) (a b : UInt8) : UInt8 :=
  match s with
  | .vy => b
  | .vx => a

/-- What an operator makes of the values of `VX` and `VY`, and the flag it sets if it sets one. -/
def Operator.apply (op : Operator) (shift : ShiftSource) (a b : UInt8) : UInt8 × Option Bool :=
  match op with
  | .copy => (b, none)
  | .or => (a ||| b, none)
  | .and => (a &&& b, none)
  | .xor => (a ^^^ b, none)
  | .add => (a + b, some (256 ≤ a.toNat + b.toNat))
  | .sub => (a - b, some (b ≤ a))
  | .shiftRight => (shift.pick a b / 2, some (shift.pick a b % 2 = 1))
  | .subFrom => (b - a, some (a ≤ b))
  | .shiftLeft => (shift.pick a b * 2, some (128 ≤ shift.pick a b))

/-- Whether a condition holds; registers of sixteen and more name no key. -/
def Condition.holds (c : Condition) (registers : Registers) (keypad : Keypad) : Bool :=
  match c with
  | .equalsByte x nn => registers.read x = nn
  | .differsByte x nn => registers.read x ≠ nn
  | .equals x y => registers.read x = registers.read y
  | .differs x y => registers.read x ≠ registers.read y
  | .keyDown x => keypad.isDown (registers.read x)
  | .keyUp x => !keypad.isDown (registers.read x)

/-- The hundreds, the tens and the units of a byte. -/
def decimalDigits (v : UInt8) : List UInt8 :=
  [v / 100, v / 10 % 10, v % 10]

end Chip8
