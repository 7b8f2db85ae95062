import Chip8.CommandLine.Choices
/-!
# Arguments — options read from a command line

Arguments are read from the left, one at a time.  An option has a long name after two dashes and perhaps a letter after
one; letters of options without a value can be run together.  A value follows in the same argument, after an equals
sign or, behind a letter, without one, or it is the next argument, which then must not look like an option.  What is
not an option is the path of the program, and after two dashes alone nothing is an option any more.

The first argument that cannot be accepted ends the reading, as does a question for help or for the version.
-/
namespace Chip8

/-- The arguments read so far. -/
structure Reading where
  choices : Choices := {}
  /-- the option whose value is the next argument -/
  pending : Option ValueOption := none
  /-- whether no further argument is an option -/
  closed : Bool := false

namespace Reading

/-- An argument that begins with two dashes, which are left out. -/
def readLong (r : Reading) (arg : List Char) : Except Refusal Reading :=
  match Text.splitFirst? '=' arg with
  | some (name, value) =>
    match ValueOption.ofName? (String.ofList name) with
    | some o => return { r with choices := ← r.choices.set o (String.ofList value) }
    | none => .error .usage
  | none =>
    match String.ofList arg with
    | "debug" => return { r with choices := ← r.choices.setDebug }
    | "help" => .error .help
    | "version" => .error .version
    | name =>
      match ValueOption.ofName? name with
      | some o => .ok { r with pending := some o }
      | none => .error .usage

/-- The letters of an argument that begins with one dash, which is left out. -/
def readLetters (r : Reading) : List Char → Except Refusal Reading
  | [] => .ok r
  | 'd' :: rest => do
    let choices ← r.choices.setDebug
    readLetters { r with choices } rest
  | 'h' :: _ => .error .help
  | 'V' :: _ => .error .version
  | letter :: value =>
    match ValueOption.ofLetter? letter with
    | none => .error .usage
    | some o =>
      match value with
      | [] => .ok { r with pending := some o }
      | '=' :: value => return { r with choices := ← r.choices.set o (String.ofList value) }
      | value => return { r with choices := ← r.choices.set o (String.ofList value) }

/-- An argument that is no option: a value that was asked for, or the path of the program. -/
def readPlain (r : Reading) (arg : String) : Except Refusal Reading :=
  match r.pending with
  | some o => return { r with choices := ← r.choices.set o arg, pending := none }
  | none => return { r with choices := ← r.choices.setRom arg }

def read (r : Reading) (arg : String) : Except Refusal Reading :=
  if r.closed then r.readPlain arg
  else
    match arg.toList with
    | '-' :: rest =>
      if rest.isEmpty then r.readPlain arg
      else if r.pending.isSome then .error .usage
      else
        match rest with
        | ['-'] => .ok { r with closed := true }
        | '-' :: name => r.readLong name
        | letters => r.readLetters letters
    | _ => r.readPlain arg

/-- The options of a command line that has been read; no value may be left to come. -/
def finish (r : Reading) : Except Refusal Options :=
  if r.pending.isSome then .error .usage else r.choices.options

end Reading

def Options.ofArguments (args : List String) : Except Refusal Options := do
  (← args.foldlM Reading.read {}).finish

end Chip8
