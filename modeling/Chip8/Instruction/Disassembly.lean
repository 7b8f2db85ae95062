import Chip8.Instruction.Basic
import Chip8.Text.Hexadecimal
/-!
# Disassembly — an instruction as a line of assembly

A line is a mnemonic and its operands, which commas separate.  Many instructions share a mnemonic and are told apart by
the kinds of their operands, so an operand's text shows its kind: a register has a `V`, a number its width in digits,
and the machine's own parts have names.
-/
namespace Chip8

/-- An operand as a line of assembly names it. -/
inductive Operand where
  | register (r : Register)
  | nibble (n : Nibble)
  | byte (b : UInt8)
  | address (a : Address)
  /-- the index register -/
  | index
  /-- the memory that the index register points to -/
  | indexed
  /-- the delay counter -/
  | delay
  /-- the sound counter -/
  | sound
  /-- the next key that is pressed -/
  | key
  /-- the font's sprite for a digit -/
  | glyph
  /-- the decimal digits of a number -/
  | decimal
  deriving DecidableEq, Repr

def Operand.text : Operand → String
  | register r => "V" ++ Text.hex 1 r.val
  | nibble n => Text.hex 1 n.val
  | byte b => "0x" ++ Text.hex 2 b.toNat
  | address a => "0x" ++ Text.hex 3 a.val
  | index => "I"
  | indexed => "[I]"
  | delay => "DT"
  | sound => "ST"
  | key => "K"
  | glyph => "F"
  | decimal => "B"

def Operator.mnemonic : Operator → String
  | copy => "LD"
  | or => "OR"
  | and => "AND"
  | xor => "XOR"
  | add => "ADD"
  | sub => "SUB"
  | shiftRight => "SHR"
  | subFrom => "SUBN"
  | shiftLeft => "SHL"

def Condition.assembly : Condition → String × List Operand
  | equalsByte x nn => ("SE", [.register x, .byte nn])
  | differsByte x nn => ("SNE", [.register x, .byte nn])
  | equals x y => ("SE", [.register x, .register y])
  | differs x y => ("SNE", [.register x, .register y])
  | keyDown x => ("SKP", [.register x])
  | keyUp x => ("SKNP", [.register x])

namespace Instruction

/-- The mnemonic and the operands of an instruction. -/
def assembly : Instruction → String × List Operand
  | machineRoutine nnn => ("SYS", [.address nnn])
  | clearScreen => ("CLS", [])
  | returnFromCall => ("RET", [])
  | jump nnn => ("JP", [.address nnn])
  | call nnn => ("CALL", [.address nnn])
  | jumpOffset nnn => ("JP", [.register .offset, .address nnn])
  | skip condition => condition.assembly
  | setByte x nn => ("LD", [.register x, .byte nn])
  | addByte x nn => ("ADD", [.register x, .byte nn])
  | combine op x y => (op.mnemonic, [.register x, .register y])
  | setIndex nnn => ("LD", [.index, .address nnn])
  | random x nn => ("RND", [.register x, .byte nn])
  | draw x y n => ("DRW", [.register x, .register y, .nibble n])
  | readDelay x => ("LD", [.register x, .delay])
  | waitKey x => ("LD", [.register x, .key])
  | setDelay x => ("LD", [.delay, .register x])
  | setSound x => ("LD", [.sound, .register x])
  | addIndex x => ("ADD", [.index, .register x])
  | fontGlyph x => ("LD", [.glyph, .register x])
  | storeDecimal x => ("LD", [.decimal, .register x])
  | storeRegisters x => ("LD", [.indexed, .register x])
  | loadRegisters x => ("LD", [.register x, .indexed])

def text (i : Instruction) : String :=
  match i.assembly with
  | (mnemonic, []) => mnemonic
  | (mnemonic, operands) => mnemonic ++ " " ++ ", ".intercalate (operands.map Operand.text)

end Instruction

end Chip8
