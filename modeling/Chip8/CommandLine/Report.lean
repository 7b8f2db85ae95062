import Chip8.CommandLine.Arguments
import Chip8.Session.Basic
/-!
# Report — what a run leaves behind

A run ends with an exit code, with text on two channels and perhaps with a picture.  The report says what these are,
from the arguments and from what is around the run.  The messages are in two parts, because the picture is written
between them, and it may be written where the messages go.
-/
namespace Chip8

structure Report where
  exitCode : UInt32
  output : String := ""
  /-- the messages about the run up to its picture, each ended by a line feed -/
  messages : String := ""
  picture : Option ByteArray := none
  /-- the messages that come after the picture, each ended by a line feed -/
  closing : String := ""

namespace Report

def version : String :=
  "chip-8-frontend 0.1.0\n"

def usage : String :=
  "Usage: chip-8-frontend [OPTIONS] <ROM>\n\n" ++
  "Options: --font PATH, --mode cosmac-vip|chip48|super-chip, -i/--ips RATE, -s/--steps COUNT,\n" ++
  "         --press KEY@FROM[-UNTIL], --seed NUMBER, --snapshot PATH, --scale 1-100,\n" ++
  "         --background RRGGBB, --foreground RRGGBB, -d/--debug, -h/--help, -V/--version\n"

def failureText (f : Failure) : String :=
  let cause := match f.cause? with
    | some cause => "\n\nCaused by:\n    " ++ cause
    | none => ""
  "Error: " ++ f.message ++ cause ++ "\n"

def noticeText (notices : List Notice) : String :=
  String.join (notices.map fun n => n.line ++ "\n")

/-- The messages about a part of a run: what is shown of it, and then the failure. -/
def messagesOf (shown : List Notice) (failure : Option Failure) : String :=
  noticeText shown ++ (failure.map failureText).getD ""

def ofFailure (filter : LogFilter) (shown : List Notice) (failure : Failure) : Report where
  exitCode := 1
  messages := filter.warning ++ messagesOf shown (some failure)

/-- A run whose last step was taken, as far as its picture. -/
def opening (s : Session) : Report where
  exitCode := 0
  output := s.screen
  messages := s.filter.warning ++ messagesOf s.told none

/-- A run whose last step was taken, when it is known whether its picture got written. -/
def ofSession (s : Session) (written : Except WriteError Unit) : Report :=
  let (shown, failure) := s.conclude written
  { opening s with
    exitCode := if failure.isSome then 1 else 0
    picture := if s.options.snapshot.isSome && written.isOk then some s.pixmap else none
    closing := messagesOf shown failure }

/-- A command line that asks for no run. -/
def ofRefusal : Refusal → Report
  | .usage => { exitCode := 2, messages := "error: the arguments are not understood\n\n" ++ usage }
  | .help => { exitCode := 0, output := usage }
  | .version => { exitCode := 0, output := version }

end Report

/-- What a run finds around it. -/
structure Surroundings where
  read : FileReader
  /-- whether a file can be made and filled -/
  write : String → Except WriteError Unit
  filter : LogFilter := {}

def Options.report (o : Options) (around : Surroundings) (entropy : Random.Key) : Report :=
  let filter := around.filter.withDebug o.debug
  match Session.ofOptions o filter around.read entropy with
  | .error (shown, failure) => .ofFailure filter shown failure
  | .ok session => .ofSession session (o.snapshot.elim (.ok ()) around.write)

def Report.ofArguments (args : List String) (around : Surroundings) (entropy : Random.Key) : Report :=
  match Options.ofArguments args with
  | .error refusal => .ofRefusal refusal
  | .ok o => o.report around entropy

end Chip8
