/-!
# Level — how much a message matters

Every message that a machine or a run gives has one of four levels.
-/
namespace Chip8

/-- How much a message matters, from the least. -/
inductive Level where
  | trace
  | debug
  | info
  | warn
  deriving DecidableEq, Repr

def Level.name : Level → String
  | trace => "TRACE"
  | debug => "DEBUG"
  | info => "INFO"
  | warn => "WARN"

def Level.rank : Level → Nat
  | trace => 0
  | debug => 1
  | info => 2
  | warn => 3

end Chip8
