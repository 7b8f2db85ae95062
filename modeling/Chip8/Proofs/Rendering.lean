import Mathlib
import Chip8.Picture.Basic
/-!
# Rendering — one screen as text, in colors and as a file

A screen is shown as lines of characters, as rows of colors, and as a file of bytes in which each pixel is a square.
All three lay out blocks of one length, row after row, so what stands at an offset is known from the row and the place
in it (`getElem?_flatMap_block`).  With that every pixel has its character, its entry and its bytes, and is read back
from each of the three (`renderings_of_screen`).
-/
namespace Chip8

/-! ## Blocks of one length -/

section

variable {α β : Type} {l : List α} {f : α → List β} {n : Nat} (h : ∀ a ∈ l, (f a).length = n)
include h

theorem length_flatMap_block : (l.flatMap f).length = n * l.length := by
  rw [List.length_flatMap, List.map_congr_left h, List.map_const', List.sum_replicate, smul_eq_mul, Nat.mul_comm]

/-- **Blocks of one length are found by their number**, and what is in them by its place. -/
theorem getElem?_flatMap_block (j : Nat) {k : Nat} (hk : k < n) :
    (l.flatMap f)[n * j + k]? = l[j]?.bind fun a => (f a)[k]? := by
  induction l generalizing j with
  | nil => rfl
  | cons a l ih =>
    obtain ⟨ha, hl⟩ := List.forall_mem_cons.1 h
    rw [List.flatMap_cons]
    cases j with
    | zero => rw [Nat.mul_zero, Nat.zero_add, List.getElem?_append_left (ha ▸ hk), List.getElem?_cons_zero,
        Option.bind_some]
    | succ j =>
      rw [Nat.mul_succ, Nat.add_right_comm, List.getElem?_append_right (ha ▸ Nat.le_add_left ..), ha,
        Nat.add_sub_cancel, ih hl, List.getElem?_cons_succ]

end

/-- What is repeated is found by dividing. -/
theorem getElem?_flatMap_replicate {α : Type} (l : List α) {n : Nat} (hn : 1 ≤ n) (i : Nat) :
    (l.flatMap (List.replicate n))[i]? = l[i / n]? := by
  have hmod : i % n < n := Nat.mod_lt i hn
  conv => lhs; rw [← Nat.div_add_mod i n]
  rw [getElem?_flatMap_block (fun a _ => List.length_replicate) (i / n) hmod]
  simp only [List.getElem?_replicate, if_pos hmod, Option.bind_fun_some]

theorem flatMap_replicate_range {α : Type} (f : Nat → α) (n : Nat) {k : Nat} (hk : 1 ≤ k) :
    ((List.range n).map f).flatMap (List.replicate k) = (List.range (n * k)).map fun i => f (i / k) := by
  refine List.ext_getElem? fun i => ?_
  rw [getElem?_flatMap_replicate _ hk, List.getElem?_map, List.getElem?_map]
  by_cases hi : i < n * k
  · rw [List.getElem?_range (Nat.div_lt_of_lt_mul (by rwa [Nat.mul_comm])), List.getElem?_range hi]
    rfl
  · rw [List.getElem?_eq_none (by simpa using (Nat.le_div_iff_mul_le hk).2 (Nat.not_lt.1 hi)),
      List.getElem?_eq_none (by simpa using hi)]
    rfl

/-! ## The three renderings, pixel by pixel -/

namespace Screen

theorem pixels_eq (s : Screen) :
    s.pixels = (List.range 32).map fun y => (List.range 64).map fun x => s.pixel x y := by
  refine List.ext_getElem (by simp [pixels]) fun y hy _ => ?_
  have hy' : y < 32 := by simpa [pixels] using hy
  simp [pixels, pixel, hy']

/-- The colors of a screen, one after the other. -/
def entries (s : Screen) (foreground background : Color) : List Color :=
  (s.picture foreground background).flatten

variable (s : Screen) (foreground background : Color)

theorem text_eq :
    s.text.toList = (List.range 32).flatMap fun y =>
      ((List.range 64).map fun x => character (s.pixel x y)) ++ ['\n'] := by
  unfold text
  rw [String.toList_ofList, pixels_eq, List.flatMap_map]
  simp only [List.map_map, Function.comp_def]

theorem picture_eq :
    s.picture foreground background = (List.range 32).map fun y => (List.range 64).map fun x =>
      if s.pixel x y then foreground else background := by
  unfold picture
  rw [pixels_eq, List.map_map]
  simp only [List.map_map, Function.comp_def]

theorem length_text : s.text.toList.length = 65 * 32 := by
  rw [text_eq, length_flatMap_block (n := 65) (fun y _ => by simp), List.length_range]

theorem length_entries : (s.entries foreground background).length = 64 * 32 := by
  rw [entries, picture_eq, ← List.flatMap_def, length_flatMap_block (n := 64) (fun y _ => by simp), List.length_range]

section

variable {x y : Nat} (hy : y < 32)
include hy

/-- **A pixel's character** is in its line. -/
theorem getElem?_text (hx : x < 64) : s.text.toList[65 * y + x]? = some (character (s.pixel x y)) := by
  rw [text_eq, getElem?_flatMap_block (fun y _ => by simp) y (by omega), List.getElem?_range hy, Option.bind_some,
    List.getElem?_append_left (by simpa using hx), List.getElem?_map, List.getElem?_range hx, Option.map_some]

theorem getElem?_text_end : s.text.toList[65 * y + 64]? = some '\n' := by
  rw [text_eq, getElem?_flatMap_block (fun y _ => by simp) y (by omega), List.getElem?_range hy, Option.bind_some,
    List.getElem?_append_right (by simp)]
  simp

/-- **A pixel's entry** is its color. -/
theorem getElem?_entries (hx : x < 64) :
    (s.entries foreground background)[64 * y + x]? = some (if s.pixel x y then foreground else background) := by
  rw [entries, picture_eq, ← List.flatMap_def, getElem?_flatMap_block (fun y _ => by simp) y hx,
    List.getElem?_range hy, Option.bind_some, List.getElem?_map, List.getElem?_range hx, Option.map_some]

end

end Screen

/-! ## The bytes of a file -/

namespace Picture

def widen (row : List Color) (scale : Nat) : List Color :=
  row.flatMap (List.replicate scale)

def channels (rows : Picture) : List UInt8 :=
  rows.flatMap fun row => row.flatMap Color.bytes

theorem data_push_bytes (bytes : List UInt8) (file : ByteArray) :
    (bytes.foldl ByteArray.push file).data.toList = file.data.toList ++ bytes := by
  induction bytes generalizing file with
  | nil => exact (List.append_nil _).symm
  | cons b bytes ih =>
    rw [List.foldl_cons, ih, ByteArray.data_push, Array.toList_push, List.append_assoc, List.singleton_append]

theorem data_appendRow (row : List Color) (file : ByteArray) :
    (appendRow file row).data.toList = file.data.toList ++ row.flatMap Color.bytes := by
  unfold appendRow
  induction row generalizing file with
  | nil => exact (List.append_nil _).symm
  | cons c row ih => rw [List.foldl_cons, ih, data_push_bytes, List.append_assoc, List.flatMap_cons]

theorem data_appendRows (rows : Picture) (file : ByteArray) :
    (rows.foldl appendRow file).data.toList = file.data.toList ++ rows.channels := by
  unfold channels
  induction rows generalizing file with
  | nil => exact (List.append_nil _).symm
  | cons row rows ih => rw [List.foldl_cons, ih, data_appendRow, List.append_assoc, List.flatMap_cons]

theorem enlarge_eq (p : Picture) (scale : Nat) :
    p.enlarge scale = (p.map (widen · scale)).flatMap (List.replicate scale) := by
  rw [enlarge, List.flatMap_map]
  rfl

theorem getElem?_enlarge (p : Picture) {scale : Nat} (hscale : 1 ≤ scale) (v : Nat) :
    (p.enlarge scale)[v]? = p[v / scale]?.map (widen · scale) := by
  rw [enlarge_eq, getElem?_flatMap_replicate _ hscale, List.getElem?_map]

section

variable {p : Picture} {width : Nat} (hwidth : ∀ row ∈ p, row.length = width)
include hwidth

theorem getElem?_flatten (y : Nat) {x : Nat} (hx : x < width) : p.flatten[width * y + x]? = p[y]?.bind (·[x]?) := by
  rw [← List.flatMap_id]
  exact getElem?_flatMap_block (f := id) hwidth y hx

theorem length_of_enlarge (scale : Nat) : ∀ row ∈ p.enlarge scale, row.length = width * scale := by
  intro row hrow
  obtain ⟨small, hsmall, hrow⟩ := List.mem_flatMap.1 hrow
  rw [List.eq_of_mem_replicate hrow, length_flatMap_block (fun _ _ => List.length_replicate), hwidth small hsmall,
    Nat.mul_comm]

theorem length_bytes_row : ∀ row ∈ p, (row.flatMap Color.bytes).length = 3 * width := by
  intro row hrow
  rw [length_flatMap_block (n := 3) (fun c _ => rfl), hwidth row hrow]

theorem length_channels : p.channels.length = 3 * width * p.length :=
  length_flatMap_block (length_bytes_row hwidth)

/-- **A pixel's bytes** are found by its row, its column and the channel. -/
theorem getElem?_channels (v : Nat) {u k : Nat} (hu : u < width) (hk : k < 3) :
    p.channels[3 * (width * v + u) + k]? = (p[v]?.bind (·[u]?)).bind (·.bytes[k]?) := by
  have hplace : 3 * u + k < 3 * width := by omega
  have hoffset : 3 * (width * v + u) + k = 3 * width * v + (3 * u + k) := by ring
  rw [hoffset, channels, getElem?_flatMap_block (length_bytes_row hwidth) v hplace, Option.bind_assoc]
  refine congrArg (p[v]?.bind ·) (funext fun row => ?_)
  exact getElem?_flatMap_block (n := 3) (fun c _ => rfl) u hk

end

end Picture

namespace Screen

variable (s : Screen) (foreground background : Color)

theorem length_of_picture : ∀ row ∈ s.picture foreground background, row.length = 64 := by
  intro row hrow
  rw [picture_eq] at hrow
  obtain ⟨y, -, rfl⟩ := List.mem_map.1 hrow
  rw [List.length_map, List.length_range]

/-- The bytes of a file behind its header. -/
def body (scale : Nat) : List UInt8 :=
  ((s.picture foreground background).enlarge scale).channels

theorem data_pixmap (scale : Nat) :
    (s.pixmap foreground background scale).data.toList =
      (Picture.header (64 * scale) (32 * scale)).toUTF8.data.toList ++ s.body foreground background scale :=
  Picture.data_appendRows _ _

theorem enlarge_picture_eq {scale : Nat} (hscale : 1 ≤ scale) :
    (s.picture foreground background).enlarge scale =
      (List.range (32 * scale)).map fun v => (List.range (64 * scale)).map fun u =>
        if s.pixel (u / scale) (v / scale) then foreground else background := by
  rw [Picture.enlarge_eq, picture_eq, List.map_map, flatMap_replicate_range _ _ hscale]
  refine List.map_congr_left fun v _ => ?_
  exact flatMap_replicate_range _ _ hscale

/-- The bytes row after row, and pixel after pixel. -/
theorem body_eq {scale : Nat} (hscale : 1 ≤ scale) :
    s.body foreground background scale =
      (List.range (32 * scale)).flatMap fun v => (List.range (64 * scale)).flatMap fun u =>
        (if s.pixel (u / scale) (v / scale) then foreground else background).bytes := by
  rw [body, enlarge_picture_eq _ _ _ hscale, Picture.channels, List.flatMap_map]
  simp only [List.flatMap_map]

theorem length_body (scale : Nat) : (s.body foreground background scale).length = 3 * 2048 * scale ^ 2 := by
  have hrows : ((s.picture foreground background).enlarge scale).length = scale * 32 := by
    rw [Picture.enlarge, length_flatMap_block (fun _ _ => List.length_replicate), picture_eq, List.length_map,
      List.length_range]
  have hwidth := length_of_picture s foreground background
  rw [body, Picture.length_channels (Picture.length_of_enlarge hwidth scale), hrows]
  ring

/-- **The square of a pixel**: its bytes are those of the entry that the quotients by the scale lead to. -/
theorem getElem?_body {scale : Nat} (hscale : 1 ≤ scale) {u k : Nat} (hu : u < 64 * scale) (hk : k < 3) (v : Nat) :
    (s.body foreground background scale)[3 * (64 * scale * v + u) + k]? =
      (s.entries foreground background)[64 * (v / scale) + u / scale]?.bind (·.bytes[k]?) := by
  have hwidth := length_of_picture s foreground background
  rw [body, Picture.getElem?_channels (Picture.length_of_enlarge hwidth scale) v hu hk,
    Picture.getElem?_enlarge _ hscale, entries,
    Picture.getElem?_flatten hwidth _ (Nat.div_lt_of_lt_mul (by rwa [Nat.mul_comm] at hu)), Option.bind_map]
  simp only [Function.comp_def, Picture.widen, getElem?_flatMap_replicate _ hscale]

end Screen

/-! ## Reading a screen back

Each of these knows the output, and the color of the pixels that are on.  A file tells its scale itself. -/

def pixelOfText (text : String) (x y : Nat) : Bool :=
  text.toList[65 * y + x]? == some '█'

def pixelOfEntries (foreground : Color) (entries : List Color) (x y : Nat) : Bool :=
  entries[64 * y + x]? == some foreground

/-- The number behind the first line of a file. -/
def widthOfFile (bytes : List UInt8) : Nat :=
  Nat.ofDigitChars 10 (((bytes.map Char.ofUInt8).drop 3).takeWhile (· ≠ ' ')) 0

def colorAt? (bytes : List UInt8) (i : Nat) : Option Color := do
  return ⟨← bytes[i]?, ← bytes[i + 1]?, ← bytes[i + 2]?⟩

/-- The color in the corner of a pixel's square; the squares are at the end of the file. -/
def pixelOfFile (foreground : Color) (file : ByteArray) (x y : Nat) : Bool :=
  let bytes := file.data.toList
  let scale := widthOfFile bytes / 64
  let start := bytes.length - 3 * 2048 * scale ^ 2
  colorAt? bytes (start + 3 * (64 * scale * (scale * y) + scale * x)) == some foreground

theorem beq_foreground {α : Type} [DecidableEq α] {a b : α} (h : a ≠ b) (on : Bool) :
    (some (if on then a else b) == some a) = on := by
  cases on with
  | true => exact beq_self_eq_true _
  | false => exact beq_eq_false_iff_ne.2 fun heq => h (Option.some.inj heq).symm

theorem ofUInt8_utf8EncodeChar {c : Char} (h : c.toNat < 128) : (String.utf8EncodeChar c).map Char.ofUInt8 = [c] := by
  have hbyte : c.val.toUInt8.toUInt32 = c.val := by
    have hval : c.val.toNat < 2 ^ 8 := Nat.lt_trans h (by decide)
    rw [← UInt32.toNat_inj, UInt8.toNat_toUInt32, UInt32.toNat_toUInt8, Nat.mod_eq_of_lt hval]
  rw [String.utf8EncodeChar_eq_singleton (Char.utf8Size_eq_one_iff.2 (Nat.le_of_lt_succ h)), List.map_singleton]
  exact congrArg (fun c => [c]) (Char.ext hbyte)

/-- The bytes of an ASCII text are its characters. -/
theorem ofUInt8_toUTF8 {text : String} (h : ∀ c ∈ text.toList, c.toNat < 128) :
    text.toUTF8.data.toList.map Char.ofUInt8 = text.toList := by
  conv => lhs; rw [← String.ofList_toList (s := text)]
  rw [String.toUTF8, String.toByteArray_ofList, List.utf8Encode, List.data_toByteArray, List.map_flatMap,
    List.flatMap_congr fun c hc => ofUInt8_utf8EncodeChar (h c hc), List.flatMap_singleton']

theorem toList_header (width height : Nat) :
    (Picture.header width height).toList =
      ['P', '6', '\n'] ++ Nat.toDigits 10 width ++ [' '] ++ Nat.toDigits 10 height ++ ['\n', '2', '5', '5', '\n'] := by
  have htoString : ∀ n : Nat, (toString n).toList = Nat.toDigits 10 n := fun n => String.toList_ofList
  show ("P6\n" ++ toString width ++ " " ++ toString height ++ "\n255\n").toList = _
  simp only [String.toList_append, htoString]
  rfl

theorem ascii_header (width height : Nat) : ∀ c ∈ (Picture.header width height).toList, c.toNat < 128 := by
  have hdigits : ∀ n : Nat, ∀ c ∈ Nat.toDigits 10 n, c.toNat < 128 := fun n c hc =>
    Nat.lt_of_le_of_lt (Char.isDigit_iff_toNat.1 (Nat.isDigit_of_mem_toDigits (by decide) (by decide) hc)).2 (by decide)
  rw [toList_header]
  simp only [List.forall_mem_append]
  exact ⟨⟨⟨⟨by simp, hdigits width⟩, by simp⟩, hdigits height⟩, by simp⟩

/-- **A file tells its width.** -/
theorem widthOfFile_append (width height : Nat) (body : List UInt8) :
    widthOfFile ((Picture.header width height).toUTF8.data.toList ++ body) = width := by
  have hdigits : ∀ c ∈ Nat.toDigits 10 width, decide (c ≠ ' ') = true := fun c hc => by
    have hc := Nat.isDigit_of_mem_toDigits (by decide) (by decide) hc
    refine decide_eq_true fun heq => ?_
    rw [heq] at hc
    exact nomatch hc
  have hdrop : ∀ l : List Char, (['P', '6', '\n'] ++ l).drop 3 = l := fun _ => rfl
  unfold widthOfFile
  rw [List.map_append, ofUInt8_toUTF8 (ascii_header width height), toList_header]
  simp only [List.append_assoc]
  rw [hdrop, List.takeWhile_append_of_pos hdigits, List.cons_append, List.takeWhile_cons_of_neg (by decide),
    List.append_nil, Nat.ofDigitChars_toDigits (by decide) (by decide)]

theorem colorAt?_eq {bytes : List UInt8} {i : Nat} {c : Color} (h : ∀ k < 3, bytes[i + k]? = c.bytes[k]?) :
    colorAt? bytes i = some c := by
  have hred := h 0 (by decide)
  have hgreen := h 1 (by decide)
  have hblue := h 2 (by decide)
  unfold colorAt?
  rw [Nat.add_zero] at hred
  rw [hred, hgreen, hblue]
  rfl

/-! ## The three agree -/

section

variable {s : Screen} {foreground background : Color} {x y : Nat} (hy : y < 32) (hx : x < 64)
include hy hx

theorem pixelOfText_text : pixelOfText s.text x y = s.pixel x y := by
  rw [pixelOfText, s.getElem?_text hy hx]
  exact beq_foreground (by decide) _

theorem pixelOfEntries_entries (hne : foreground ≠ background) :
    pixelOfEntries foreground (s.entries foreground background) x y = s.pixel x y := by
  rw [pixelOfEntries, s.getElem?_entries _ _ hy hx]
  exact beq_foreground hne _

theorem pixelOfFile_pixmap (hne : foreground ≠ background) {scale : Nat} (hscale : 1 ≤ scale) :
    pixelOfFile foreground (s.pixmap foreground background scale) x y = s.pixel x y := by
  let color := if s.pixel x y then foreground else background
  let head := (Picture.header (64 * scale) (32 * scale)).toUTF8.data.toList
  let body := s.body foreground background scale
  have hdata : (s.pixmap foreground background scale).data.toList = head ++ body := s.data_pixmap _ _ _
  have hwidth : widthOfFile (head ++ body) / 64 = scale := by
    rw [widthOfFile_append, Nat.mul_div_cancel_left _ (by decide)]
  have hstart : (head ++ body).length - 3 * 2048 * scale ^ 2 = head.length := by
    rw [List.length_append, show body.length = _ from s.length_body _ _ _, Nat.add_sub_cancel]
  have hcolor : ∀ k < 3,
      (head ++ body)[head.length + 3 * (64 * scale * (scale * y) + scale * x) + k]? = color.bytes[k]? := fun k hk => by
    have hu : scale * x < 64 * scale := by
      rw [Nat.mul_comm]
      exact Nat.mul_lt_mul_of_pos_right hx hscale
    rw [Nat.add_assoc, List.getElem?_append_right (Nat.le_add_right ..), Nat.add_sub_cancel_left,
      s.getElem?_body _ _ hscale hu hk, Nat.mul_div_cancel_left _ hscale, Nat.mul_div_cancel_left _ hscale,
      s.getElem?_entries _ _ hy hx, Option.bind_some]
  unfold pixelOfFile
  simp only [hdata, hwidth, hstart, colorAt?_eq hcolor]
  exact beq_foreground hne _

end

/-- **Every rendering shows the same screen.**  The text has 32 lines of 64 characters, each with a line feed behind it,
and a character is a full block where the pixel is on and a blank where it is off.  In colors there are 2048 entries,
and that of a pixel is the foreground or the background.  A file at some scale has a header, with its width and height,
and behind that three bytes for each of its pixels and no more; those at a column and a row are of the entry at their
quotients by the scale.  So, with two colors that are different, every pixel can be read back from each of the three,
and they agree. -/
theorem renderings_of_screen (s : Screen) (foreground background : Color) {scale : Nat} (hscale : 1 ≤ scale) :
    let entries := s.entries foreground background
    let file := s.pixmap foreground background scale
    (s.text.toList.length = 65 * 32 ∧ ∀ y < 32, s.text.toList[65 * y + 64]? = some '\n' ∧
      ∀ x < 64, s.text.toList[65 * y + x]? = some (if s.pixel x y then '█' else ' ')) ∧
    (entries.length = 64 * 32 ∧
      ∀ y < 32, ∀ x < 64, entries[64 * y + x]? = some (if s.pixel x y then foreground else background)) ∧
    (∃ body : List UInt8,
      file.data.toList =
        ("P6\n" ++ toString (64 * scale) ++ " " ++ toString (32 * scale) ++ "\n255\n").toUTF8.data.toList ++ body ∧
      body.length = 3 * 2048 * scale ^ 2 ∧
      ∀ v < 32 * scale, ∀ u < 64 * scale, ∃ c, entries[64 * (v / scale) + u / scale]? = some c ∧
        ∀ k < 3, body[3 * (64 * scale * v + u) + k]? = c.bytes[k]?) ∧
    (foreground ≠ background → ∀ y < 32, ∀ x < 64,
      pixelOfText s.text x y = s.pixel x y ∧ pixelOfEntries foreground entries x y = s.pixel x y ∧
      pixelOfFile foreground file x y = s.pixel x y) := by
  intro entries file
  refine ⟨⟨s.length_text, fun y hy => ⟨s.getElem?_text_end hy, fun x hx => s.getElem?_text hy hx⟩⟩,
    ⟨s.length_entries _ _, fun y hy x hx => s.getElem?_entries _ _ hy hx⟩,
    ⟨s.body foreground background scale, s.data_pixmap _ _ _, s.length_body _ _ _, fun v hv u hu => ?_⟩,
    fun hne y hy x hx =>
      ⟨pixelOfText_text hy hx, pixelOfEntries_entries hy hx hne, pixelOfFile_pixmap hy hx hne hscale⟩⟩
  have hrow : v / scale < 32 := Nat.div_lt_of_lt_mul (by rwa [Nat.mul_comm] at hv)
  have hcolumn : u / scale < 64 := Nat.div_lt_of_lt_mul (by rwa [Nat.mul_comm] at hu)
  have hentry := s.getElem?_entries foreground background hrow hcolumn
  refine ⟨_, hentry, fun k hk => ?_⟩
  rw [s.getElem?_body _ _ hscale hu hk, hentry, Option.bind_some]

/-- One pixel on a blank screen, far from where it would be with its column and row exchanged, in a file with squares of
three by three. -/
theorem renderings_of_screen_dot :
    1 ≤ 3 ∧ Color.white ≠ Color.black ∧
    pixelOfFile .white ((Screen.dot 29 4).pixmap .white .black 3) 29 4 = true ∧
    pixelOfFile .white ((Screen.dot 29 4).pixmap .white .black 3) 4 29 = false := by
  have hscale : 1 ≤ 3 := by decide
  have hne : Color.white ≠ Color.black := by decide
  have hpixels : (Screen.dot 29 4).pixel 29 4 = true ∧ (Screen.dot 29 4).pixel 4 29 = false := by decide +kernel
  obtain ⟨-, -, -, hread⟩ := renderings_of_screen (Screen.dot 29 4) .white .black hscale
  obtain ⟨-, -, hon⟩ := hread hne 4 (by decide) 29 (by decide)
  obtain ⟨-, -, hoff⟩ := hread hne 29 (by decide) 4 (by decide)
  exact ⟨hscale, hne, hon.trans hpixels.1, hoff.trans hpixels.2⟩

end Chip8
