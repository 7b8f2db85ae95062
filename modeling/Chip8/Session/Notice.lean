import Chip8.Machine.Event
import Chip8.Dialect
import Chip8.Keypad
/-!
# Notice — what a run tells while it goes on

A run passes on what its machine tells, and adds what it does itself.  Each notice has a level and a source, and
becomes one line; further lines of a long one are set in.  The time at which it was written, which stands before the
level, is left out here.
-/
namespace Chip8

/-- Something that happened in a run.  A key moves before a step, the tone begins or ends with one, and at the end of a
run the steps that drew on the screen are counted. -/
inductive Notice where
  | machine (event : Event)
  | key (key : Fin keyCount) (down : Bool) (step : Nat)
  | loaded (path : String) (size : Nat) (dialect : Dialect)
  | running (steps rate : Nat)
  | sound (playing : Bool) (step : Nat)
  | updates (count : Nat)
  | snapshot (path : String)
  deriving DecidableEq, Repr

namespace Notice

def level : Notice → Level
  | machine event => event.level
  | key _ _ _ => .debug
  | _ => .info

def source : Notice → String
  | machine _ => "chip_8_core::chip8"
  | key _ _ _ => "chip_8_frontend::input"
  | _ => "chip_8_frontend"

def message : Notice → String
  | machine event => event.message
  | key k down step =>
    let direction := if down then "down" else "up"
    s!"Key 0x{Text.hex 1 k.val} {direction} at step {step}"
  | loaded path size dialect => s!"Loaded {path} ({size} bytes), {dialect.summary}"
  | running steps rate => s!"Running {steps} steps at {rate} instructions per second"
  | sound playing step =>
    let state := if playing then "on" else "off"
    s!"Sound {state} at step {step}"
  | updates count => s!"{count} screen updates"
  | snapshot path => s!"Wrote snapshot to {path}"

/-- How a character of a text stands in it when its further lines are set in. -/
def indent (c : Char) : List Char :=
  if c = '\n' then ['\n', ' ', ' ', ' ', ' '] else [c]

/-- A notice as it is written: its level filled to five characters, its source and its text. -/
def line (n : Notice) : String :=
  let level := String.ofList (n.level.name.toList.rightpad 5 ' ')
  "[" ++ level ++ " " ++ n.source ++ "] " ++ String.ofList (n.message.toList.flatMap indent)

end Notice

end Chip8
