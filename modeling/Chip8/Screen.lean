/-!
# Screen — 64 by 32 pixels that are drawn by inverting

A screen is its rows, and a row is its 64 pixels as a number, the leftmost in the highest bit.  All drawing is one
operation: a second screen, the *mask*, says which pixels to invert.  So drawings commute and undo themselves, and a
drawing erases something exactly when its mask meets a pixel that is on.
-/
namespace Chip8

abbrev screenWidth : Nat := 64

abbrev screenHeight : Nat := 32

/-- The pixels of one row, the leftmost in the highest bit. -/
abbrev PixelRow := BitVec screenWidth

abbrev Screen := Vector PixelRow screenHeight

namespace Screen

def blank : Screen := Vector.replicate screenHeight 0

/-- Whether the pixel at column `x` of row `y` is on; off the screen none is. -/
def pixel (s : Screen) (x y : Nat) : Bool :=
  (s[y]?.getD 0).getMsbD x

def invert (s mask : Screen) : Screen :=
  s.zipWith (· ^^^ ·) mask

theorem pixel_blank (x y : Nat) : blank.pixel x y = false := by
  unfold pixel blank
  by_cases h : y < screenHeight <;> simp [h]

theorem pixel_invert (s mask : Screen) (x y : Nat) :
    (s.invert mask).pixel x y = (s.pixel x y ^^ mask.pixel x y) := by
  unfold pixel invert
  by_cases h : y < screenHeight <;> simp [h]

/-- Whether some pixel is on in both. -/
def meets (s mask : Screen) : Bool :=
  (s.zipWith (· &&& ·) mask).any (· != 0)

/-- The mask of a single pixel. -/
def dot (x : Fin screenWidth) (y : Fin screenHeight) : Screen :=
  blank.set y (BitVec.twoPow screenWidth (screenWidth - 1 - x))

/-- Eight pixels in a row that is otherwise off, the first of them in column `x`; what passes the right edge is lost. -/
def spriteRow (x : Nat) (byte : UInt8) : PixelRow :=
  (byte.toBitVec ++ (0 : BitVec 56)) >>> x

/-- The mask of a sprite with its upper left corner in column `x` of row `y`; what passes an edge is lost. -/
def sprite (x y : Nat) (bytes : List UInt8) : Screen :=
  Vector.ofFn fun row => if y ≤ row then spriteRow x (bytes[row - y]?.getD 0) else 0

/-- The pixels from the left, row by row from the top. -/
def pixels (s : Screen) : List (List Bool) :=
  s.toList.map fun row => (List.range screenWidth).map row.getMsbD

end Screen

end Chip8
