import Chip8.Machine.Step
import Chip8.Session.KeyPress
import Chip8.Session.Notice
import Chip8.Session.TickClock
/-!
# Progress — a session between two steps

Before each step the keys move that the script moves there.  After a step that did not stop the machine the session
looks twice: whether the tone began or ended, and whether the screen was drawn on.
-/
namespace Chip8

/-- A session between two steps. -/
structure Progress where
  machine : Machine
  clock : TickClock
  /-- whether the tone was last seen to play -/
  playing : Bool := false
  /-- the steps in which the screen was drawn on -/
  updates : Nat := 0
  /-- what was told and is shown, the latest first -/
  told : List Notice := []

namespace Progress

/-- Keeps the notices that are shown, the first of them first. -/
def tell (p : Progress) (shown : Notice → Bool) (notices : List Notice) : Progress :=
  { p with told := (notices.filter shown).reverse ++ p.told }

/-- Looks whether the tone began or ended, after a step that did not stop the machine. -/
def watchTone (p : Progress) (shown : Notice → Bool) (step : Nat) : Progress :=
  if p.machine.timers.tone = p.playing then p
  else
    let p := { p with playing := p.machine.timers.tone }
    p.tell shown [.sound p.playing step]

/-- Looks whether the screen was drawn on, after a step that did not stop the machine. -/
def watchScreen (p : Progress) : Progress :=
  let (dirty, machine) := p.machine.takeDirty
  { p with machine, updates := p.updates + dirty.toNat }

/-- Moves the keys that go down or up before a step, and takes the step. -/
def takeStep (p : Progress) (script : List KeyPress) (shown : Notice → Bool) (step : Nat) : Progress :=
  let (ticks, clock) := p.clock.tick
  let t := (p.machine.moveKeys script step).stepTraced ticks
  let moved := (keyChangesAt script step).map fun c => Notice.key c.key c.down step
  { p with machine := t.machine, clock }.tell shown (moved ++ t.events.map Notice.machine)

/-- One step, and a look at what it changed if the machine goes on. -/
def advance (p : Progress) (script : List KeyPress) (shown : Notice → Bool) (step : Nat) : Progress :=
  let p := p.takeStep script shown step
  if p.machine.status.isOk then (p.watchTone shown step).watchScreen else p

/-- Up to `count` steps from the one with this number on, until the machine stops. -/
def play (script : List KeyPress) (shown : Notice → Bool) : (count step : Nat) → Progress → Progress
  | 0, _, p => p
  | count + 1, step, p =>
    let p := p.advance script shown step
    if p.machine.status.isOk then play script shown count (step + 1) p else p

end Progress

end Chip8
