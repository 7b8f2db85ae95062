/-!
# ChaCha — a stream of words from a key

The stream cipher ChaCha with twelve rounds, used as a source of random words.  A block is sixteen words, and it
depends on the key and on the block's number only; so any word of the stream can be had without those before it.

The words stand in four rows of four.  A round mixes the four columns, each by itself, and the next one the diagonals:
turning the rows against each other makes columns of them, and turning them back puts the words where they were.
-/
namespace Chip8.Random

abbrev Key := Vector UInt32 8

/-- A word turned left by `n` bits, for `n` from 1 to 31. -/
def turnLeft (w n : UInt32) : UInt32 :=
  w <<< n ||| w >>> (32 - n)

structure Row where
  first : UInt32
  second : UInt32
  third : UInt32
  fourth : UInt32
  deriving DecidableEq, Repr

namespace Row

def zipWith (f : UInt32 → UInt32 → UInt32) (r s : Row) : Row :=
  ⟨f r.first s.first, f r.second s.second, f r.third s.third, f r.fourth s.fourth⟩

def map (f : UInt32 → UInt32) (r : Row) : Row :=
  ⟨f r.first, f r.second, f r.third, f r.fourth⟩

def word (r : Row) : Nat → UInt32
  | 0 => r.first
  | 1 => r.second
  | 2 => r.third
  | _ => r.fourth

def turn (r : Row) : Row :=
  ⟨r.second, r.third, r.fourth, r.first⟩

end Row

/-- The sixteen words of a block, in rows. -/
structure Block where
  top : Row
  upper : Row
  lower : Row
  bottom : Row
  deriving DecidableEq, Repr

namespace Block

/-- A row is added to another, and a third takes the bits in which it differs from the sum, turned left by `n`. -/
def addAndTurn (r s t : Row) (n : UInt32) : Row × Row :=
  let sum := r.zipWith (· + ·) s
  (sum, (t.zipWith (· ^^^ ·) sum).map (turnLeft · n))

def mixColumns (b : Block) : Block :=
  let (top, bottom) := addAndTurn b.top b.upper b.bottom 16
  let (lower, upper) := addAndTurn b.lower bottom b.upper 12
  let (top, bottom) := addAndTurn top upper bottom 8
  let (lower, upper) := addAndTurn lower bottom upper 7
  { top, upper, lower, bottom }

def skew (b : Block) : Block :=
  { b with upper := b.upper.turn, lower := b.lower.turn.turn, bottom := b.bottom.turn.turn.turn }

def unskew (b : Block) : Block :=
  { b with upper := b.upper.turn.turn.turn, lower := b.lower.turn.turn, bottom := b.bottom.turn }

/-- A round on the columns and one on the diagonals. -/
def doubleRound (b : Block) : Block :=
  b.mixColumns.skew.mixColumns.unskew

def add (b c : Block) : Block where
  top := b.top.zipWith (· + ·) c.top
  upper := b.upper.zipWith (· + ·) c.upper
  lower := b.lower.zipWith (· + ·) c.lower
  bottom := b.bottom.zipWith (· + ·) c.bottom

def row (b : Block) : Nat → Row
  | 0 => b.top
  | 1 => b.upper
  | 2 => b.lower
  | _ => b.bottom

def word (b : Block) (i : Nat) : UInt32 :=
  (b.row (i / 4)).word (i % 4)

end Block

/-- The block that is mixed: four fixed words, the key, the number of the block in two words, and an empty nonce. -/
def initialBlock (key : Key) (number : UInt64) : Block where
  top := ⟨0x61707865, 0x3320646e, 0x79622d32, 0x6b206574⟩
  upper := ⟨key[0], key[1], key[2], key[3]⟩
  lower := ⟨key[4], key[5], key[6], key[7]⟩
  bottom := ⟨number.toUInt32, (number >>> 32).toUInt32, 0, 0⟩

/-- Twelve rounds, and the block that went in added to what came out. -/
def block (key : Key) (number : UInt64) : Block :=
  (Nat.repeat Block.doubleRound 6 (initialBlock key number)).add (initialBlock key number)

/-- The word at a position of the stream. -/
def streamWord (key : Key) (position : Nat) : UInt32 :=
  (block key (UInt64.ofNat (position / 16))).word (position % 16)

end Chip8.Random
