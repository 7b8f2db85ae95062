import Chip8.Text.Hexadecimal
/-!
# Color — three channels of a byte each

A color is written as six hexadecimal digits, two for each channel, and may have `0x` before them.
-/
namespace Chip8

/-- The strengths of red, green and blue. -/
structure Color where
  red : UInt8
  green : UInt8
  blue : UInt8
  deriving DecidableEq, Repr

/-- A text is not a color; the text is without the `0x` that may stand before one. -/
structure ColorError where
  text : List Char
  deriving DecidableEq, Repr

def ColorError.message (e : ColorError) : String :=
  "failed to parse hex color: " ++ String.ofList e.text

namespace Color

def black : Color := ⟨0, 0, 0⟩

def white : Color := ⟨255, 255, 255⟩

def bytes (c : Color) : List UInt8 :=
  [c.red, c.green, c.blue]

/-- The byte of two hexadecimal digits. -/
def channel? (high low : Char) : Option UInt8 := do
  let h ← Text.digitValue? 16 high
  let l ← Text.digitValue? 16 low
  return UInt8.ofNat (16 * h + l)

/-- The color of six hexadecimal digits. -/
def ofDigits? : List Char → Option Color
  | [a, b, c, d, e, f] => do return ⟨← channel? a b, ← channel? c d, ← channel? e f⟩
  | _ => none

/-- A text without one `0x` at its start. -/
def dropMark : List Char → List Char
  | '0' :: 'x' :: rest => rest
  | s => s

def ofChars (s : List Char) : Except ColorError Color :=
  match ofDigits? (dropMark s) with
  | some c => .ok c
  | none => .error ⟨dropMark s⟩

def parse (s : String) : Except ColorError Color :=
  ofChars s.toList

end Color

end Chip8
