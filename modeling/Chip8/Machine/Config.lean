import Chip8.Dialect
import Chip8.Font
import Chip8.Random.Generator
/-!
# Config — what is fixed when a machine is built

A machine is built with a font, a dialect and perhaps a seed, and keeps all three through every load.  Settings are
given one after the other, and a later one replaces an earlier one of its kind.
-/
namespace Chip8

/-- What a machine is built with. -/
structure Config where
  font : Font := .standard
  dialect : Dialect := {}
  /-- where the random numbers start, at every load; without one they go on from load to load -/
  seed : Option UInt64 := none
  deriving DecidableEq, Repr

/-- One choice for a machine that is to be built. -/
inductive Setting where
  | interpreter (i : Interpreter)
  | dialect (d : Dialect)
  | seed (s : UInt64)
  | font (bytes : List UInt8)
  deriving DecidableEq, Repr

namespace Config

/-- The configuration with one setting made; a font of the wrong size is refused. -/
def set (c : Config) : Setting → Except FontError Config
  | .interpreter i => .ok { c with dialect := i.dialect }
  | .dialect d => .ok { c with dialect := d }
  | .seed s => .ok { c with seed := some s }
  | .font bytes => (Font.ofBytes? bytes).map fun font => { c with font }

/-- The configuration that a list of settings makes of the default one. -/
def ofSettings (settings : List Setting) : Except FontError Config :=
  settings.foldlM set {}

/-- The generator of a machine that has been reset: the seed's from its start, or the one it had. -/
def generator (c : Config) (current : Random.Generator) : Random.Generator :=
  c.seed.elim current .ofSeed

theorem generator_of_seed {c : Config} {seed : UInt64} (h : c.seed = some seed) (current : Random.Generator) :
    c.generator current = .ofSeed seed := by
  rw [generator, h, Option.elim_some]

end Config

end Chip8
