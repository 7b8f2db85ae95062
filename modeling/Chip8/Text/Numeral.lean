import Chip8.Text.Hexadecimal
/-!
# Numeral — unsigned numbers read from text

A numeral is one or more digits, after at most one plus sign.  It is read from the left, and the first character that
is no digit or that takes the value to the limit decides how it fails.  A minus sign is no digit.
-/
namespace Chip8.Text

/-- There is nothing to read, or a character is no digit, or the value reaches the limit. -/
inductive NumeralError where
  | empty
  | invalidDigit
  | tooLarge
  deriving DecidableEq, Repr

def NumeralError.message : NumeralError → String
  | .empty => "cannot parse integer from empty string"
  | .invalidDigit => "invalid digit found in string"
  | .tooLarge => "number too large to fit in target type"

/-- Reads digits onto the value `acc`; of two faults in one character the digit's comes first. -/
def readDigits (radix limit : Nat) (acc : Nat) : List Char → Except NumeralError Nat
  | [] => .ok acc
  | c :: cs =>
    match digitValue? radix c with
    | none => .error .invalidDigit
    | some d => if acc * radix + d < limit then readDigits radix limit (acc * radix + d) cs else .error .tooLarge

/-- The value of a numeral of base `radix` below `limit`. -/
def readNumeral (radix limit : Nat) (s : List Char) : Except NumeralError Nat :=
  match s with
  | [] => .error .empty
  | ['+'] => .error .invalidDigit
  | '+' :: digits => readDigits radix limit 0 digits
  | digits => readDigits radix limit 0 digits

end Chip8.Text
