import Chip8.Session.Options
/-!
# Choices — options chosen one by one

Each option that takes a value has a name, some have a letter too, and each reads its value in its own way.  An option
can be chosen once, except for key presses; what was not chosen has its default in the end.
-/
namespace Chip8

inductive ValueOption where
  | font
  | mode
  | ips
  | steps
  | press
  | seed
  | snapshot
  | scale
  | background
  | foreground
  deriving DecidableEq, Repr

namespace ValueOption

def ofName? : String → Option ValueOption
  | "font" => some .font
  | "mode" => some .mode
  | "ips" => some .ips
  | "steps" => some .steps
  | "press" => some .press
  | "seed" => some .seed
  | "snapshot" => some .snapshot
  | "scale" => some .scale
  | "background" => some .background
  | "foreground" => some .foreground
  | _ => none

def ofLetter? : Char → Option ValueOption
  | 'i' => some .ips
  | 's' => some .steps
  | _ => none

end ValueOption

/-- Why no run is asked for: an argument, or the lack of one, is an error, or there is a question. -/
inductive Refusal where
  | usage
  | help
  | version
  deriving DecidableEq, Repr

/-- What the arguments read so far have chosen. -/
structure Choices where
  rom : Option String := none
  font : Option String := none
  interpreter : Option Interpreter := none
  rate : Option Nat := none
  steps : Option UInt64 := none
  presses : List KeyPress := []
  seed : Option UInt64 := none
  snapshot : Option String := none
  scale : Option Nat := none
  background : Option Color := none
  foreground : Option Color := none
  debug : Bool := false

def Interpreter.ofName? : String → Option Interpreter
  | "cosmac-vip" => some .cosmacVip
  | "chip48" => some .chip48
  | "super-chip" => some .superChip
  | _ => none

namespace Choices

/-- A path, which must not be empty. -/
def readPath (s : String) : Except Refusal String :=
  if s.isEmpty then .error .usage else .ok s

/-- A decimal numeral below `limit`. -/
def readBelow (limit : Nat) (s : String) : Except Refusal Nat :=
  (Text.readNumeral 10 limit s.toList).mapError fun _ => .usage

/-- A rate of 32 bits.  Rates are read as numbers with a sign, so zero may have a minus sign before it. -/
def readRate (s : String) : Except Refusal Nat :=
  match s.toList with
  | '-' :: digit :: digits => (Text.readDigits 10 1 0 (digit :: digits)).mapError fun _ => .usage
  | _ => readBelow 0x100000000 s

/-- A choice that has not been made yet. -/
def once {α : Type} (current : Option α) (value : Except Refusal α) : Except Refusal (Option α) :=
  match current with
  | some _ => .error .usage
  | none => value.map some

/-- The choices with the value of an option; only key presses can be given more than once. -/
def set (c : Choices) (o : ValueOption) (value : String) : Except Refusal Choices :=
  match o with
  | .font => return { c with font := ← once c.font (readPath value) }
  | .mode =>
    return { c with interpreter := ← once c.interpreter ((Interpreter.ofName? value).elim (.error .usage) .ok) }
  | .ips => return { c with rate := ← once c.rate (readRate value) }
  | .steps => return { c with steps := ← once c.steps ((readBelow 0x10000000000000000 value).map UInt64.ofNat) }
  | .press =>
    return { c with presses := c.presses ++ [← (KeyPress.parse value).mapError fun _ => .usage] }
  | .seed => return { c with seed := ← once c.seed ((readBelow 0x10000000000000000 value).map UInt64.ofNat) }
  | .snapshot => return { c with snapshot := ← once c.snapshot (readPath value) }
  | .scale => return { c with scale := ← once c.scale (readBelow 0x10000000000000000 value) }
  | .background => return { c with background := ← once c.background ((Color.parse value).mapError fun _ => .usage) }
  | .foreground => return { c with foreground := ← once c.foreground ((Color.parse value).mapError fun _ => .usage) }

def setRom (c : Choices) (path : String) : Except Refusal Choices :=
  return { c with rom := ← once c.rom (readPath path) }

def setDebug (c : Choices) : Except Refusal Choices :=
  if c.debug then .error .usage else .ok { c with debug := true }

/-- The options that were chosen; the path of the program must be among them. -/
def options (c : Choices) : Except Refusal Options :=
  match c.rom with
  | none => .error .usage
  | some rom =>
    let d : Options := { rom }
    .ok { d with
      font := c.font
      interpreter := c.interpreter.getD d.interpreter
      rate := c.rate.getD d.rate
      steps := c.steps.getD d.steps
      presses := c.presses
      seed := c.seed
      snapshot := c.snapshot
      scale := c.scale.getD d.scale
      background := c.background.getD d.background
      foreground := c.foreground.getD d.foreground
      debug := c.debug }

end Choices

end Chip8
