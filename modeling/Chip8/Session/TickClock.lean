/-!
# TickClock — timer ticks for instructions at a steady rate

The timers of a machine run at sixty hertz, and its instructions at some other rate.  The clock tells how many ticks
fall to each instruction.  What is left of a tick is carried over, so over a second of instructions exactly sixty are
given.
-/
namespace Chip8

abbrev timerRate : Nat := 60

abbrev defaultRate : Nat := 500

abbrev leastRate : Nat := 100

abbrev greatestRate : Nat := 2000

/-- A rate of instructions, and the part of a tick that has not been given yet, in units of one over the rate. -/
structure TickClock where
  rate : Nat
  carry : Nat := 0
  deriving DecidableEq, Repr

namespace TickClock

/-- The clock for a rate, which is brought to the nearest one allowed. -/
def ofRate (rate : Nat) : TickClock :=
  { rate := max leastRate (min rate greatestRate) }

/-- The ticks of the next instruction, and the clock after it. -/
def tick (c : TickClock) : Nat × TickClock :=
  ((c.carry + timerRate) / c.rate, { c with carry := (c.carry + timerRate) % c.rate })

/-- The ticks of the next `n` instructions. -/
def ticks (c : TickClock) : Nat → List Nat
  | 0 => []
  | n + 1 => c.tick.1 :: c.tick.2.ticks n

end TickClock

end Chip8
