import Chip8.Picture.Color
import Chip8.Screen
/-!
# Picture — a screen in characters, in colors, and as a file

A screen is shown in three ways, all from `Screen.pixels`: as lines of text, as rows of colors, and as a file in the
binary portable pixmap format, where each pixel may become a square of several.
-/
namespace Chip8

/-- Rows of colors from the top, each from the left. -/
abbrev Picture := List (List Color)

namespace Screen

def character (on : Bool) : Char :=
  if on then '█' else ' '

/-- A line for each row, each ended by a line feed. -/
def text (s : Screen) : String :=
  String.ofList (s.pixels.flatMap fun row => row.map character ++ ['\n'])

def picture (s : Screen) (foreground background : Color) : Picture :=
  s.pixels.map fun row => row.map fun on => if on then foreground else background

end Screen

namespace Picture

/-- The picture with a square of `scale` by `scale` for each of its pixels. -/
def enlarge (p : Picture) (scale : Nat) : Picture :=
  p.flatMap fun row => List.replicate scale (row.flatMap (List.replicate scale))

/-- The lines before the pixels of a file: the format, the size, and the greatest value of a channel. -/
def header (width height : Nat) : String :=
  s!"P6\n{width} {height}\n255\n"

/-- Appends the channels of a row's pixels. -/
def appendRow (file : ByteArray) (row : List Color) : ByteArray :=
  row.foldl (fun file c => c.bytes.foldl ByteArray.push file) file

end Picture

/-- The file of a screen in two colors, with squares of `scale` by `scale`. -/
def Screen.pixmap (s : Screen) (foreground background : Color) (scale : Nat) : ByteArray :=
  ((s.picture foreground background).enlarge scale).foldl Picture.appendRow
    (Picture.header (screenWidth * scale) (screenHeight * scale)).toUTF8

end Chip8
