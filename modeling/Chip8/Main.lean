import Chip8.CommandLine.Report
/-!
# Main — the program

Reads the files that the command line names, lets the session run, writes the picture and the texts.  Everything that
is written is decided in `Report`.  What the run's notices are filtered by is a variable of the environment; of its
pattern only plain text is understood.
-/
namespace Chip8

/-- The system's words for the errors that files commonly meet. -/
def FileError.ofNumber (code : Nat) : FileError :=
  let reason := match code with
    | 1 => "Operation not permitted"
    | 2 => "No such file or directory"
    | 6 => "No such device or address"
    | 13 => "Permission denied"
    | 20 => "Not a directory"
    | 21 => "Is a directory"
    | 22 => "Invalid argument"
    | 26 => "Text file busy"
    | 28 => "No space left on device"
    | 30 => "Read-only file system"
    | 36 => "File name too long"
    | 40 => "Too many levels of symbolic links"
    | _ => "Input/output error"
  ⟨reason, code⟩

/-- The number of an error; some calls give its negative, as a word. -/
def errorNumber (code : UInt32) : Nat :=
  if code < 0x80000000 then code.toNat else (0 - code).toNat

/-- An error of the system as a reason and a number. -/
def FileError.ofSystem : IO.Error → FileError
  | .noFileOrDirectory _ code _ => .ofNumber (errorNumber code)
  | .permissionDenied _ code _ => .ofNumber (errorNumber code)
  | .inappropriateType _ code _ => .ofNumber (errorNumber code)
  | .resourceExhausted _ code _ => .ofNumber (errorNumber code)
  | .invalidArgument _ code _ => .ofNumber (errorNumber code)
  | .noSuchThing _ code _ => .ofNumber (errorNumber code)
  | .resourceBusy code _ => .ofNumber (errorNumber code)
  | .otherError code _ => .ofNumber (errorNumber code)
  | _ => .ofNumber 5

/-- Runs an action on a file, and gives its error as a value. -/
def attempt {α : Type} (act : IO α) : IO (Except FileError α) := do
  match ← act.toBaseIO with
  | .ok a => return .ok a
  | .error e => return .error (.ofSystem e)

def readFiles (paths : List String) : IO FileReader := do
  let contents ← paths.mapM fun (path : String) =>
    return (path, ← attempt (ByteArray.toList <$> IO.FS.readBinFile path))
  return fun path => (contents.lookup path).getD (.error (.ofNumber 2))

/-- A key for the random numbers of a machine without a seed. -/
def drawKey : IO Random.Key := do
  let bytes ← IO.getRandomBytes 32
  return Vector.ofFn fun i =>
    (bytes.toList.drop (4 * i)).take 4 |>.foldl (fun word b => word * 256 + b.toUInt32) 0

def isPartOf (part text : String) : Bool :=
  part.isEmpty || 1 < (text.splitOn part).length

def readFilter : IO LogFilter := do
  return ((← IO.getEnv "RUST_LOG").map (LogFilter.ofText isPartOf)).getD {}

def writeFile (path : String) (bytes : ByteArray) : IO (Except WriteError Unit) := do
  match ← attempt (IO.FS.Handle.mk path .write) with
  | .error e => return .error (.create e)
  | .ok file => return (← attempt (file.write bytes *> file.flush)).mapError .fill

/-- Writes a report's texts up to its picture. -/
def Report.emitOpening (r : Report) : IO Unit := do
  let out ← IO.getStdout
  out.putStr r.output
  out.flush
  IO.eprint r.messages

/-- Writes the messages after the picture, and gives the exit code. -/
def Report.emitClosing (r : Report) : IO UInt32 := do
  IO.eprint r.closing
  return r.exitCode

/-- Writes the texts of a report without a picture, and gives its exit code. -/
def Report.emit (r : Report) : IO UInt32 := do
  r.emitOpening
  r.emitClosing

/-- Runs a session, and writes the picture that it is asked for. -/
def Options.run (o : Options) : IO UInt32 := do
  let filter := (← readFilter).withDebug o.debug
  let read ← readFiles (o.font.toList ++ [o.rom])
  match Session.ofOptions o filter read (← drawKey) with
  | .error (shown, failure) => (Report.ofFailure filter shown failure).emit
  | .ok session =>
    (Report.opening session).emitOpening
    let written ← match o.snapshot with
      | none => pure (.ok ())
      | some path => writeFile path session.pixmap
    (Report.ofSession session written).emitClosing

end Chip8

/-- The program: options from the command line, and the exit code of what they ask for. -/
def main (args : List String) : IO UInt32 :=
  match Chip8.Options.ofArguments args with
  | .error refusal => (Chip8.Report.ofRefusal refusal).emit
  | .ok options => options.run
