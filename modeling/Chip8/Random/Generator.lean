import Chip8.Random.Seed
/-!
# Generator — a place in a stream of words

A generator is a key and the number of words drawn from its stream so far.  Drawing gives the word at that place and
moves on by one, so what a generator gives does not depend on when or why it was asked.
-/
namespace Chip8.Random

/-- A stream of words, and how many of them have been drawn. -/
structure Generator where
  key : Key
  drawn : Nat := 0
  deriving DecidableEq, Repr

namespace Generator

/-- The generator of a seed, at the start of its stream. -/
def ofSeed (seed : UInt64) : Generator :=
  { key := .ofSeed seed }

def next (g : Generator) : UInt32 × Generator :=
  (streamWord g.key g.drawn, { g with drawn := g.drawn + 1 })

end Generator

end Chip8.Random
