import Chip8.Text.Hexadecimal
/-!
# Quoted — a text shown between double quotes

Messages quote what they could not read.  A quote and a backslash get a backslash before them, the four common control
characters have a letter each, and the other control characters are written as their code in braces.
-/
namespace Chip8.Text

/-- Whether a character is a control character: the codes below a blank, the delete character and the 32 after it. -/
def isControl (c : Char) : Bool :=
  c.toNat < 0x20 || (0x7f ≤ c.toNat && c.toNat < 0xa0)

/-- How one character stands between quotes. -/
def escape (c : Char) : List Char :=
  match c with
  | '"' => ['\\', '"']
  | '\\' => ['\\', '\\']
  | '\t' => ['\\', 't']
  | '\r' => ['\\', 'r']
  | '\n' => ['\\', 'n']
  | '\x00' => ['\\', '0']
  | c => if isControl c then ['\\', 'u', '\x7b'] ++ hexDigits 1 c.toNat ++ ['\x7d'] else [c]

def quoted (s : List Char) : String :=
  String.ofList ('"' :: s.flatMap escape ++ ['"'])

end Chip8.Text
