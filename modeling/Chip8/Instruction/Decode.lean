import Chip8.Instruction.Basic
/-!
# Decode — the instruction of a word

The first four bits choose a family.  Most families take the rest of the word as operands; the others look at the last
four or eight bits too, and leave some of them without a meaning.
-/
namespace Chip8

def Operator.ofNibble? : Nat → Option Operator
  | 0x0 => some .copy
  | 0x1 => some .or
  | 0x2 => some .and
  | 0x3 => some .xor
  | 0x4 => some .add
  | 0x5 => some .sub
  | 0x6 => some .shiftRight
  | 0x7 => some .subFrom
  | 0xe => some .shiftLeft
  | _ => none

namespace Instruction

/-- The instructions without a register, by the last byte of their word. -/
def ofSystemByte? : Nat → Option Instruction
  | 0xe0 => some .clearScreen
  | 0xee => some .returnFromCall
  | _ => none

/-- The instructions that ask for a key, by the last byte of their word. -/
def ofKeyByte? (x : Register) : Nat → Option Instruction
  | 0x9e => some (.skip (.keyDown x))
  | 0xa1 => some (.skip (.keyUp x))
  | _ => none

/-- The instructions on one register and a counter, the keypad, the index or memory, by the last byte of their word. -/
def ofDeviceByte? (x : Register) : Nat → Option Instruction
  | 0x07 => some (.readDelay x)
  | 0x0a => some (.waitKey x)
  | 0x15 => some (.setDelay x)
  | 0x18 => some (.setSound x)
  | 0x1e => some (.addIndex x)
  | 0x29 => some (.fontGlyph x)
  | 0x33 => some (.storeDecimal x)
  | 0x55 => some (.storeRegisters x)
  | 0x65 => some (.loadRegisters x)
  | _ => none

def decode? (word : UInt16) : Option Instruction :=
  let w := word.toNat
  let x : Register := .ofNat (w / 0x100)
  let y : Register := .ofNat (w / 0x10)
  let nn : UInt8 := .ofNat w
  let nnn : Address := .ofNat w
  match w / 0x1000 with
  | 0x0 => if w < 0x100 then ofSystemByte? w else some (.machineRoutine nnn)
  | 0x1 => some (.jump nnn)
  | 0x2 => some (.call nnn)
  | 0x3 => some (.skip (.equalsByte x nn))
  | 0x4 => some (.skip (.differsByte x nn))
  | 0x5 => if w % 0x10 = 0 then some (.skip (.equals x y)) else none
  | 0x6 => some (.setByte x nn)
  | 0x7 => some (.addByte x nn)
  | 0x8 => (Operator.ofNibble? (w % 0x10)).map (.combine · x y)
  | 0x9 => if w % 0x10 = 0 then some (.skip (.differs x y)) else none
  | 0xa => some (.setIndex nnn)
  | 0xb => some (.jumpOffset nnn)
  | 0xc => some (.random x nn)
  | 0xd => some (.draw x y (.ofNat w))
  | 0xe => ofKeyByte? x (w % 0x100)
  | _ => ofDeviceByte? x (w % 0x100)

end Instruction

end Chip8
