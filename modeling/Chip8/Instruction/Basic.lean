/-!
# Instruction — what a word can tell the machine to do

Words of sixteen bits are instructions.  Their operands are parts of the word: registers and small numbers are four
bits wide, bytes eight and addresses twelve, and the types say so.  Instructions that differ only in what they compare
or compute are one case here, over a type of comparisons or of operations.
-/
namespace Chip8

abbrev Nibble := Fin 16

def Nibble.ofNat (n : Nat) : Nibble :=
  ⟨n % 16, Nat.mod_lt n (by decide)⟩

abbrev Register := Nibble

def Register.offset : Register := ⟨0, by decide⟩

/-- The register that arithmetic and drawing write their flag to. -/
def Register.flag : Register := ⟨15, by decide⟩

abbrev Address := Fin 4096

def Address.ofNat (n : Nat) : Address :=
  ⟨n % 4096, Nat.mod_lt n (by decide)⟩

/-- What the conditional skips ask: `3XNN`, `4XNN`, `5XY0`, `9XY0`, `EX9E` and `EXA1`. -/
inductive Condition where
  | equalsByte (x : Register) (nn : UInt8)
  | differsByte (x : Register) (nn : UInt8)
  | equals (x y : Register)
  | differs (x y : Register)
  | keyDown (x : Register)
  | keyUp (x : Register)
  deriving DecidableEq, Repr

/-- What is computed from `VX` and `VY`, into `VX`: `8XY0` to `8XY7`, and `8XYE`. -/
inductive Operator where
  | copy
  | or
  | and
  | xor
  | add
  | sub
  | shiftRight
  | subFrom
  | shiftLeft
  deriving DecidableEq, Repr

/-- A word's meaning: `0NNN`, `00E0`, `00EE`, `1NNN`, `2NNN`, `BNNN`, the skips, `6XNN`, `7XNN`, `8XY_`, `ANNN`, `CXNN`,
`DXYN`, and `FX07` to `FX65` in order of their last byte. -/
inductive Instruction where
  | machineRoutine (nnn : Address)
  | clearScreen
  | returnFromCall
  | jump (nnn : Address)
  | call (nnn : Address)
  | jumpOffset (nnn : Address)
  | skip (condition : Condition)
  | setByte (x : Register) (nn : UInt8)
  | addByte (x : Register) (nn : UInt8)
  | combine (op : Operator) (x y : Register)
  | setIndex (nnn : Address)
  | random (x : Register) (nn : UInt8)
  | draw (x y : Register) (n : Nibble)
  | readDelay (x : Register)
  | waitKey (x : Register)
  | setDelay (x : Register)
  | setSound (x : Register)
  | addIndex (x : Register)
  | fontGlyph (x : Register)
  | storeDecimal (x : Register)
  | storeRegisters (x : Register)
  | loadRegisters (x : Register)
  deriving DecidableEq, Repr

end Chip8
