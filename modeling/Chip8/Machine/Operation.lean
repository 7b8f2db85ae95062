import Chip8.Machine.Step
/-!
# Operation — everything that can be done to a machine

A machine's history is a list of operations.  Asking for a part of its state is none: it changes nothing.
-/
namespace Chip8

/-- Something done to a machine from outside; a step comes after a number of timer ticks. -/
inductive Operation where
  | load (program : List UInt8)
  | step (ticks : Nat)
  | keyDown (key : UInt8)
  | keyUp (key : UInt8)
  | takeDirty
  deriving DecidableEq, Repr

namespace Machine

def performTraced (m : Machine) : Operation → Transition
  | .load program => m.loadTraced program
  | .step ticks => m.stepTraced ticks
  | .keyDown key => { machine := m.keyDown key }
  | .keyUp key => { machine := m.keyUp key }
  | .takeDirty => { machine := m.takeDirty.2 }

def perform (m : Machine) (o : Operation) : Machine :=
  (m.performTraced o).machine

def run (m : Machine) (history : List Operation) : Machine :=
  history.foldl perform m

end Machine

end Chip8
