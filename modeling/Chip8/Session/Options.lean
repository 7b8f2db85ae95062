import Chip8.Dialect
import Chip8.Picture.Color
import Chip8.Session.KeyPress
import Chip8.Session.TickClock
/-!
# Options — what a run is asked to do

The options of a run, each with the value it has when nothing is said; only the path of the program has none.  The rate
is in instructions a second, and the scale is the side of the square that a pixel becomes in the picture.
-/
namespace Chip8

structure Options where
  rom : String
  font : Option String := none
  interpreter : Interpreter := .cosmacVip
  rate : Nat := defaultRate
  steps : UInt64 := 1000
  presses : List KeyPress := []
  seed : Option UInt64 := none
  snapshot : Option String := none
  scale : Nat := 10
  background : Color := .black
  foreground : Color := .white
  debug : Bool := false
  deriving DecidableEq

end Chip8
