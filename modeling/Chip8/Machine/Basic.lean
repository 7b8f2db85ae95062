import Chip8.Display
import Chip8.Fault
import Chip8.Keypad
import Chip8.Machine.Config
import Chip8.Machine.Registers
import Chip8.Memory
import Chip8.Timers
/-!
# Machine — registers, memory, screen and the rest

A machine is one value.  Bounds that every operation keeps are in the types of its parts: there are sixteen registers
and 4096 bytes because there is no way to say otherwise.  The call stack is the list of the calls that are open.
-/
namespace Chip8

abbrev stackLimit : Nat := 16

/-- The index is an address that may point past the end of memory, and the stack has the latest open call first. -/
structure Machine where
  config : Config
  registers : Registers
  index : UInt16
  pc : UInt16
  stack : List UInt16
  timers : Timers
  memory : Memory
  display : Display
  keypad : Keypad
  keyWait : KeyWait
  status : Status
  generator : Random.Generator
  deriving DecidableEq

namespace Machine

/-- A machine that has been reset, with this generator. -/
def initial (config : Config) (generator : Random.Generator) : Machine where
  config
  registers := Vector.replicate 16 0
  index := 0
  pc := 0
  stack := []
  timers := {}
  memory := .image config.font []
  display := Display.clear {}
  keypad := .released
  keyWait := .idle
  status := .reset
  generator

/-- A machine as it is built; `entropy` is the key of its random numbers if it has no seed. -/
def build (config : Config) (entropy : Random.Key) : Machine :=
  initial config (config.generator { key := entropy })

/-- The machine with everything but its configuration and an unseeded generator as it was built. -/
def reset (m : Machine) : Machine :=
  initial m.config (m.config.generator m.generator)

def register (m : Machine) (x : Register) : UInt8 :=
  m.registers.read x

def setRegister (m : Machine) (x : Register) (v : UInt8) : Machine :=
  { m with registers := m.registers.write x v }

def keyDown (m : Machine) (key : UInt8) : Machine :=
  { m with keypad := m.keypad.press key }

def keyUp (m : Machine) (key : UInt8) : Machine :=
  { m with keypad := m.keypad.release key }

/-- Whether the screen was drawn on since this was last asked, and the machine with that forgotten. -/
def takeDirty (m : Machine) : Bool × Machine :=
  let (dirty, display) := m.display.takeDirty
  (dirty, { m with display })

end Machine

end Chip8
