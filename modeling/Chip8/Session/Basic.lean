import Chip8.Picture.Basic
import Chip8.Session.Failure
import Chip8.Session.LogFilter
import Chip8.Session.Options
import Chip8.Session.Progress
/-!
# Session — a program run from its load to its last step

A session loads a program, executes a number of steps at a steady rate while keys go down and up by script, and shows
the last screen.  It ends early when the machine stops.  All of it is a function of the options and of the files that
they name; what cannot be known before, whether the picture could be written, is given to its last part.
-/
namespace Chip8

/-- The bytes of each file that can be read. -/
abbrev FileReader := String → Except FileError (List UInt8)

namespace Options

/-- The configuration of the machine that the options ask for. -/
def config (o : Options) (read : FileReader) : Except Failure Config := do
  let font ← match o.font with
    | none => pure Font.standard
    | some path =>
      match read path with
      | .error e => throw (.fontFile path e)
      | .ok bytes => (Font.ofBytes? bytes).mapError .font
  return { font, dialect := o.interpreter.dialect, seed := o.seed }

/-- Builds a machine and loads the program; what is told until then comes with a failure too. -/
def start (o : Options) (read : FileReader) (entropy : Random.Key) : List Notice × Except Failure Machine :=
  if o.scale = 0 ∨ 100 < o.scale then ([], .error .scale)
  else
    match o.config read with
    | .error failure => ([], .error failure)
    | .ok config =>
      let built := Machine.buildEvents.map .machine
      match read o.rom with
      | .error e => (built, .error (.romFile o.rom e))
      | .ok program =>
        let t := (Machine.build config entropy).loadTraced program
        let told := built ++ t.events.map .machine
        match t.machine.status.fault? with
        | some fault => (told, .error (.rom fault))
        | none => (told ++ [.loaded o.rom program.length config.dialect], .ok t.machine)

end Options

/-- A session whose last step has been taken. -/
structure Session where
  options : Options
  filter : LogFilter
  machine : Machine
  /-- what was told and is shown, in order -/
  told : List Notice

namespace Session

def run (o : Options) (filter : LogFilter) (machine : Machine) (told : List Notice) : Session :=
  let clock := TickClock.ofRate o.rate
  let begun : Progress := { machine, clock }
  let p := begun.tell filter.shows (told ++ [.running o.steps.toNat clock.rate])
  let p := Progress.play o.presses filter.shows o.steps.toNat 0 p
  let p := p.tell filter.shows [.updates p.updates]
  { options := o, filter, machine := p.machine, told := p.told.reverse }

def screen (s : Session) : String :=
  s.machine.display.screen.text

/-- The picture that is asked for, as a file. -/
def pixmap (s : Session) : ByteArray :=
  s.machine.display.screen.pixmap s.options.foreground s.options.background s.options.scale

/-- The failure of a session whose machine stopped. -/
def halt? (s : Session) : Option Failure :=
  s.machine.status.fault?.map (.halted s.machine.pc)

/-- The session that the options ask for, or why it did not come to a step and what is shown of it. -/
def ofOptions (o : Options) (filter : LogFilter) (read : FileReader) (entropy : Random.Key) :
    Except (List Notice × Failure) Session :=
  match o.start read entropy with
  | (told, .error failure) => .error (told.filter filter.shows, failure)
  | (told, .ok machine) => .ok (run o filter machine told)

/-- What is shown after the last step, and the failure, when it is known whether the picture that was asked for got
written. -/
def conclude (s : Session) (written : Except WriteError Unit) : List Notice × Option Failure :=
  match s.options.snapshot with
  | none => ([], s.halt?)
  | some path =>
    match written with
    | .error e => ([], some (.ofWrite path e))
    | .ok () => ([Notice.snapshot path].filter s.filter.shows, s.halt?)

end Session

end Chip8
