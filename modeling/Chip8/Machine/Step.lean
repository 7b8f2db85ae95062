import Chip8.Instruction.Decode
import Chip8.Machine.Event
import Chip8.Machine.Execute
/-!
# Step — loading a program and executing it, with what is told on the way

Loading resets the machine, also when the program turns out too big.  A step lets the timers run and then executes one
instruction; on a machine that does not run it does nothing.  Each gives the machine after it and the events of it, in
their order.
-/
namespace Chip8

/-- A machine after an operation, and what happened on the way. -/
structure Transition where
  machine : Machine
  events : List Event := []
  deriving DecidableEq

/-- The transition with an earlier event before its own. -/
def Transition.after (t : Transition) (e : Event) : Transition :=
  { t with events := e :: t.events }

namespace Machine

def halt (m : Machine) (fault : Fault) : Transition where
  machine := { m with status := .halted fault }
  events := [.halted m.pc fault]

/-- The transition of an instruction that was executed: a fault stops the machine. -/
def conclude (o : Outcome) : Transition :=
  match o.fault with
  | none => { machine := o.machine }
  | some fault => o.machine.halt fault

/-- Executes the word at the program counter. -/
def executeWord (m : Machine) (word : UInt16) : Transition :=
  match Instruction.decode? word with
  | none => m.halt (.notRecognized word)
  | some i => (conclude (m.execute i)).after (.executing m.pc word i)

/-- Reads the word at the program counter and executes it. -/
def cycle (m : Machine) : Transition :=
  match firstOutside? m.pc.toNat 2 with
  | some address => m.halt (.outOfBounds address)
  | none => m.executeWord (m.memory.word m.pc.toNat)

def elapse (m : Machine) (ticks : Nat) : Machine :=
  { m with timers := m.timers.elapse ticks }

/-- A step with its events: some timer ticks, and one instruction. -/
def stepTraced (m : Machine) (ticks : Nat) : Transition :=
  if m.status.isOk then (m.elapse ticks).cycle else { machine := m }

def step (m : Machine) (ticks : Nat) : Machine :=
  (m.stepTraced ticks).machine

def install (m : Machine) (program : List UInt8) : Machine :=
  { m with memory := .image m.config.font program, status := .ok }

/-- The machine at the start of the program area. -/
def atProgramStart (m : Machine) : Machine :=
  { m with pc := UInt16.ofNat programStart }

/-- Loading a program, with its events.  The machine is reset in any case, and a program that is too big stops it. -/
def loadTraced (m : Machine) (program : List UInt8) : Transition :=
  let m := m.reset
  let t : Transition :=
    if program.length ≤ programCapacity then { machine := m.install program, events := [.loaded program.length] }
    else m.halt (.programTooBig program.length)
  { machine := t.machine.atProgramStart, events := .reset :: t.events }

def load (m : Machine) (program : List UInt8) : Machine :=
  (m.loadTraced program).machine

/-- What building a machine tells: it is reset. -/
def buildEvents : List Event :=
  [.reset]

end Machine

end Chip8
