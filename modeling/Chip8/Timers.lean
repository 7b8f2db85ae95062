/-!
# Timers — two counters that run down, and a tone

Both counters lose one for each tick of a sixty hertz clock and stay at zero.  The tone stops when the sound counter
stands at zero after ticks have passed, also when no tick did.
-/
namespace Chip8

structure Timers where
  delay : UInt8 := 0
  sound : UInt8 := 0
  tone : Bool := false
  deriving DecidableEq, Repr

/-- The least value of the sound counter that starts the tone. -/
def leastAudible : UInt8 := 2

namespace Timers

def countDown (counter : UInt8) (ticks : Nat) : UInt8 :=
  UInt8.ofNat (counter.toNat - ticks)

/-- A counter loses one for each tick and stays at zero. -/
theorem toNat_countDown (counter : UInt8) (ticks : Nat) :
    (countDown counter ticks).toNat = counter.toNat - ticks := by
  have : counter.toNat < 256 := counter.toNat_lt
  exact UInt8.toNat_ofNat_of_lt' (show counter.toNat - ticks < 256 by omega)

def elapse (t : Timers) (ticks : Nat) : Timers :=
  let sound := countDown t.sound ticks
  { delay := countDown t.delay ticks, sound, tone := t.tone && sound != 0 }

/-- Sets the sound counter; a value too short to be heard starts no tone, and stops none. -/
def setSound (t : Timers) (v : UInt8) : Timers :=
  { t with sound := v, tone := t.tone || leastAudible ≤ v }

/-- The sound counter at its most, with the tone as it is. -/
def hold (t : Timers) : Timers :=
  { t with sound := 255 }

/-- The sound counter at its most, and the tone on. -/
def start (t : Timers) : Timers :=
  { t with sound := 255, tone := true }

def silence (t : Timers) : Timers :=
  { t with sound := 0, tone := false }

end Timers

end Chip8
