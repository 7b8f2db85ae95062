import Chip8.Screen
/-!
# Display — a screen, and whether it was drawn on

Whoever shows the screen asks from time to time whether it has changed.  Drawing and clearing leave a mark, and asking
takes it away.  The mark says that the screen was drawn on, not that a pixel differs.
-/
namespace Chip8

/-- A screen, and whether it was drawn on since it was last looked at. -/
structure Display where
  screen : Screen := .blank
  dirty : Bool := false
  deriving DecidableEq

namespace Display

def clear (_ : Display) : Display :=
  { screen := .blank, dirty := true }

def markDirty (d : Display) : Display :=
  { d with dirty := true }

def draw (d : Display) (mask : Screen) : Display :=
  { screen := d.screen.invert mask, dirty := true }

/-- Whether the screen was drawn on, and the display with that forgotten. -/
def takeDirty (d : Display) : Bool × Display :=
  (d.dirty, { d with dirty := false })

/-- Inverts one pixel; the answer tells whether that turned it off. -/
def toggle (d : Display) (x : Fin screenWidth) (y : Fin screenHeight) : Bool × Display :=
  (d.screen.meets (.dot x y), { d with screen := d.screen.invert (.dot x y) })

end Display

end Chip8
