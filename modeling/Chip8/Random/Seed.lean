import Chip8.Random.ChaCha
/-!
# Seed — a key from one number

A seed of 64 bits is spread over the eight words of a key.  A linear congruential generator runs on the seed; each of
its states gives one word, by shifts and a rotation whose amount comes from the state itself.
-/
namespace Chip8.Random

/-- The state after a state of the generator that spreads a seed. -/
def nextState (state : UInt64) : UInt64 :=
  state * 6364136223846793005 + 11634580027462260723

/-- The word that a state gives: bits folded from its upper half, turned right by its five highest bits. -/
def outputWord (state : UInt64) : UInt32 :=
  let folded := (((state >>> 18) ^^^ state) >>> 27).toUInt32
  let turn := (state >>> 59).toUInt32
  folded >>> turn ||| folded <<< (32 - turn)

def Key.ofSeed (seed : UInt64) : Key :=
  Vector.ofFn fun i => outputWord (Nat.repeat nextState (i + 1) seed)

end Chip8.Random
