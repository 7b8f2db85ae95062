import Chip8.Machine.Basic
import Chip8.Text.Numeral
import Chip8.Text.Quoted
import Chip8.Text.Split
/-!
# KeyPress — keys that are pressed at given steps

A key press says which key goes down before which step, and before which later step it goes up again, if it does.  It
is written `K@S` or `K@S-E`: the key in hexadecimal, the steps in decimal.
-/
namespace Chip8

/-- One key, held from one step on and perhaps until another. -/
structure KeyPress where
  key : Fin keyCount
  start : UInt64
  stop : Option UInt64
  /-- a key goes up after it went down -/
  start_lt_stop : ∀ s ∈ stop, start < s
  deriving DecidableEq

/-- Why a text is not a key press: nothing separates the key from the steps, or one of them is not a number that fits,
or there is no such key, or it does not go up after it went down. -/
inductive KeyPressError where
  | noSeparator (text : List Char)
  | invalidKey (text : List Char) (cause : Text.NumeralError)
  | notOnKeypad (key : Nat)
  | invalidStep (cause : Text.NumeralError)
  | releaseNotAfter (start stop : UInt64)
  deriving DecidableEq, Repr

namespace KeyPressError

def message : KeyPressError → String
  | noSeparator text => "expected KEY@STEP[-STEP], got " ++ Text.quoted text
  | invalidKey text _ => "invalid key " ++ Text.quoted text
  | notOnKeypad key => "key 0x" ++ Text.hex 1 key ++ " is not on the keypad"
  | invalidStep cause => cause.message
  | releaseNotAfter start stop => s!"key release at step {stop} is not after press at {start}"

/-- What led to the failure, where the message does not say it. -/
def cause? : KeyPressError → Option String
  | invalidKey _ cause => some cause.message
  | _ => none

end KeyPressError

namespace KeyPress

def readKey (s : List Char) : Except KeyPressError (Fin keyCount) :=
  match Text.readNumeral 16 0x100 s with
  | .error cause => .error (.invalidKey s cause)
  | .ok key => if h : key < keyCount then .ok ⟨key, h⟩ else .error (.notOnKeypad key)

def readStep (s : List Char) : Except KeyPressError UInt64 :=
  match Text.readNumeral 10 0x10000000000000000 s with
  | .error cause => .error (.invalidStep cause)
  | .ok step => .ok (UInt64.ofNat step)

/-- Reads a key press.  The key is looked at first, and the last step before the first. -/
def ofChars (s : List Char) : Except KeyPressError KeyPress := do
  let some (key, steps) := Text.splitFirst? '@' s | throw (.noSeparator s)
  let key ← readKey key
  match Text.splitFirst? '-' steps with
  | none =>
    let start ← readStep steps
    return { key, start, stop := none, start_lt_stop := nofun }
  | some (start, stop) =>
    let stop ← readStep stop
    let start ← readStep start
    if h : start < stop then
      return { key, start, stop := some stop, start_lt_stop := fun _ hs => Option.some.inj hs ▸ h }
    else throw (.releaseNotAfter start stop)

def parse (s : String) : Except KeyPressError KeyPress :=
  ofChars s.toList

end KeyPress

/-- A key that goes down or up. -/
structure KeyChange where
  key : Fin keyCount
  down : Bool
  deriving DecidableEq, Repr

/-- What a key press does before a step. -/
def KeyPress.changesAt (p : KeyPress) (step : Nat) : List KeyChange :=
  (if p.start.toNat = step then [{ key := p.key, down := true }] else []) ++
    if p.stop.any (·.toNat = step) then [{ key := p.key, down := false }] else []

/-- What a list of key presses does before a step, in the order of the list. -/
def keyChangesAt (script : List KeyPress) (step : Nat) : List KeyChange :=
  script.flatMap (·.changesAt step)

def Machine.moveKey (m : Machine) (c : KeyChange) : Machine :=
  if c.down then m.keyDown (UInt8.ofNat c.key.val) else m.keyUp (UInt8.ofNat c.key.val)

/-- The machine with the keys moved that a list of key presses moves before a step. -/
def Machine.moveKeys (m : Machine) (script : List KeyPress) (step : Nat) : Machine :=
  (keyChangesAt script step).foldl moveKey m

end Chip8
