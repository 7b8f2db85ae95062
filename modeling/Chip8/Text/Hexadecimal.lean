/-!
# Hexadecimal — numbers written and read in base sixteen

Addresses, words and operands are shown in lower-case hexadecimal, filled with zeros on the left to a least width and
never cut.  Single digits are read in either case.
-/
namespace Chip8.Text

/-- The digits of `n` in base sixteen, lower case, at least `width` of them. -/
def hexDigits (width n : Nat) : List Char :=
  (Nat.toDigits 16 n).leftpad width '0'

/-- `hexDigits` as a string: `hex 4 0x2a0` is `02a0`. -/
def hex (width n : Nat) : String :=
  String.ofList (hexDigits width n)

/-- The value of a digit of base `radix` (at most sixteen), letters in either case; nothing else is a digit. -/
def digitValue? (radix : Nat) (c : Char) : Option Nat :=
  let v :=
    if '0' ≤ c ∧ c ≤ '9' then some (c.toNat - '0'.toNat)
    else if 'a' ≤ c ∧ c ≤ 'f' then some (c.toNat - 'a'.toNat + 10)
    else if 'A' ≤ c ∧ c ≤ 'F' then some (c.toNat - 'A'.toNat + 10)
    else none
  v.filter (· < radix)

end Chip8.Text
