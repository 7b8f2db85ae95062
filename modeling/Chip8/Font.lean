/-!
# Font — the sprites of the sixteen digits

A font is eighty bytes: for each hexadecimal digit five rows, one byte a row, the leftmost pixel in the highest bit.
It stands at the start of memory.
-/
namespace Chip8

/-- The number of bytes in a font. -/
abbrev fontSize : Nat := 80

/-- The rows of one digit. -/
abbrev glyphHeight : Nat := 5

/-- Five rows for each of the sixteen digits. -/
abbrev Font := Vector UInt8 fontSize

/-- A font was given with the wrong number of bytes. -/
structure FontError where
  length : Nat
  deriving DecidableEq, Repr

namespace Font

def standard : Font := #v[
  0xf0, 0x90, 0x90, 0x90, 0xf0,
  0x20, 0x60, 0x20, 0x20, 0x70,
  0xf0, 0x10, 0xf0, 0x80, 0xf0,
  0xf0, 0x10, 0xf0, 0x10, 0xf0,
  0x90, 0x90, 0xf0, 0x10, 0x10,
  0xf0, 0x80, 0xf0, 0x10, 0xf0,
  0xf0, 0x80, 0xf0, 0x90, 0xf0,
  0xf0, 0x10, 0x20, 0x40, 0x40,
  0xf0, 0x90, 0xf0, 0x90, 0xf0,
  0xf0, 0x90, 0xf0, 0x10, 0xf0,
  0xf0, 0x90, 0xf0, 0x90, 0x90,
  0xe0, 0x90, 0xe0, 0x90, 0xe0,
  0xf0, 0x80, 0x80, 0x80, 0xf0,
  0xe0, 0x90, 0x90, 0x90, 0xe0,
  0xf0, 0x80, 0xf0, 0x80, 0xf0,
  0xf0, 0x80, 0xf0, 0x80, 0x80]

/-- The font made of these bytes, if there are eighty. -/
def ofBytes? (bytes : List UInt8) : Except FontError Font :=
  if h : bytes.length = fontSize then .ok ⟨bytes.toArray, by simpa using h⟩ else .error ⟨bytes.length⟩

end Font

def FontError.message (e : FontError) : String :=
  s!"font sprite must be 80 bytes, got {e.length}"

end Chip8
