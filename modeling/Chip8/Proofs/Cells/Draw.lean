import Mathlib
import Chip8.Proofs.Cells.Blocks
import Chip8.Proofs.Sprite
/-!
# Draw — inverting one pixel after the other

`Machine.draw` makes a mask of the whole sprite and inverts its pixels at once.  Cells go through the sprite row by row
and column by column, and may have to stop between two rows.  At every moment what has been inverted is a *part* of the
mask: the rows above the one it stands in, and of that one the columns to the left.  A pixel is not inverted twice, so a
cell still holds the pixel of the picture when its turn comes, and what has been erased is what the mask meets
(`Drawn`).
-/
namespace Chip8
namespace Cells

/-- The pixels of a mask above a row, and in that row to the left of a column. -/
def part (mask : Nat → Nat → Bool) (row column : Nat) : Nat → Nat → Bool :=
  fun x y => mask x y && decide (y < row ∨ (y = row ∧ x < column))

/-- A mask was drawn on a picture: its pixels are inverted, and whether one of them was on is known. -/
structure Drawn (picture mask : Nat → Nat → Bool) (pixels : Array Bool) (erased : Bool) : Prop where
  pixels : Shows pixels fun x y => picture x y ^^ mask x y
  erased : erased = true ↔ ∃ x y, picture x y = true ∧ mask x y = true

theorem part_congr {mask : Nat → Nat → Bool} {row column : Nat} (row' column' : Nat)
    (h : ∀ x y, mask x y = true →
      ((y < row ∨ (y = row ∧ x < column)) ↔ (y < row' ∨ (y = row' ∧ x < column')))) :
    part mask row column = part mask row' column' := by
  funext x y
  unfold part
  cases hm : mask x y with
  | false => rfl
  | true => rw [Bool.true_and, Bool.true_and]; exact decide_eq_decide.2 (h x y hm)

theorem part_eq {mask : Nat → Nat → Bool} {row column : Nat}
    (h : ∀ x y, mask x y = true → y < row ∨ (y = row ∧ x < column)) : part mask row column = mask := by
  funext x y
  unfold part
  cases hm : mask x y with
  | false => rfl
  | true => rw [Bool.true_and]; exact decide_eq_true (h x y hm)

theorem part_succ_of_off {mask : Nat → Nat → Bool} {row column : Nat} (h : mask column row = false) :
    part mask row (column + 1) = part mask row column := by
  apply part_congr
  intro x y hm
  have hne : ¬(x = column ∧ y = row) := by
    rintro ⟨rfl, rfl⟩
    rw [h] at hm
    exact Bool.false_ne_true hm
  omega

theorem part_succ_of_on {mask : Nat → Nat → Bool} {row column : Nat} (h : mask column row = true) (x y : Nat) :
    part mask row (column + 1) x y = (part mask row column x y || (decide (x = column) && decide (y = row))) := by
  unfold part
  by_cases hxy : x = column ∧ y = row
  · obtain ⟨rfl, rfl⟩ := hxy
    simp [h]
  · have hp : (y < row ∨ (y = row ∧ x < column + 1)) ↔ (y < row ∨ (y = row ∧ x < column)) := by omega
    rw [decide_eq_decide.2 hp, ← Bool.decide_and, decide_eq_false hxy, Bool.or_false]

theorem drawn_nothing {picture : Nat → Nat → Bool} {pixels : Array Bool} (h : Shows pixels picture)
    (mask : Nat → Nat → Bool) (row column : Nat) (hm : ∀ x y, mask x y = true → row ≤ y ∧ column ≤ x) :
    Drawn picture (part mask row column) pixels false := by
  have hnone : part mask row column = fun _ _ => false := by
    funext x y
    unfold part
    cases hxy : mask x y with
    | false => rfl
    | true =>
      have := hm x y hxy
      rw [Bool.true_and]
      exact decide_eq_false (by omega)
  rw [hnone]
  exact ⟨by simpa using h, by simp⟩

/-! ## One pixel -/

theorem shows_set {pixels : Array Bool} {picture : Nat → Nat → Bool} (h : Shows pixels picture) {x y : Nat}
    (hx : x < screenWidth) (hy : y < screenHeight) (on : Bool) :
    Shows (pixels.setIfInBounds (y * screenWidth + x) on)
      fun px py => if px = x ∧ py = y then on else picture px py := by
  constructor
  · rw [Array.size_setIfInBounds]; exact h.size
  · intro px py hpx hpy
    by_cases hp : px = x ∧ py = y
    · obtain ⟨rfl, rfl⟩ := hp
      rw [if_pos ⟨rfl, rfl⟩, Array.getElem?_setIfInBounds_self_of_lt]
      rw [h.size]
      exact pixelCell_lt hx hy
    · have hne : y * screenWidth + x ≠ py * screenWidth + px := fun he => by
        obtain ⟨rfl, rfl⟩ := (pixelCell_inj hx hpx).1 he
        exact hp ⟨rfl, rfl⟩
      rw [if_neg hp, Array.getElem?_setIfInBounds_ne hne, h.pixel px py hpx hpy]

theorem toggle?_eq {pixels : Array Bool} {picture : Nat → Nat → Bool} (h : Shows pixels picture) {x y : Nat}
    (hx : x < screenWidth) (hy : y < screenHeight) :
    toggle? pixels x y =
      some (pixels.setIfInBounds (y * screenWidth + x) !picture x y, picture x y) := by
  have hi : y * screenWidth + x < pixels.size := by
    rw [h.size]
    exact pixelCell_lt hx hy
  have hfit : y * screenWidth + x < indexLimit := Nat.lt_trans (pixelCell_lt hx hy) (by decide)
  unfold toggle?
  rw [fit?_eq hfit]
  simp only [Option.bind_eq_bind, Option.bind_some, h.pixel x y hx hy, put?_eq hi]

/-- **The next pixel of a mask is inverted**, and counts as erased if it was on in the picture. -/
theorem drawn_toggle {picture mask : Nat → Nat → Bool} {pixels : Array Bool} {erased : Bool} {x y : Nat}
    (h : Drawn picture (part mask y x) pixels erased) (hx : x < screenWidth) (hy : y < screenHeight)
    (hm : mask x y = true) :
    ∃ pixels' on, toggle? pixels x y = some (pixels', on) ∧
      Drawn picture (part mask y (x + 1)) pixels' (erased || on) := by
  have hnot : part mask y x x y = false := by
    unfold part
    rw [decide_eq_false (by omega), Bool.and_false]
  refine ⟨_, _, toggle?_eq h.pixels hx hy, ?_, ?_⟩
  · have hshows := shows_set h.pixels hx hy (!(picture x y ^^ part mask y x x y))
    refine ⟨hshows.size, fun px py hpx hpy => ?_⟩
    rw [hshows.pixel px py hpx hpy, part_succ_of_on hm]
    by_cases hp : px = x ∧ py = y
    · obtain ⟨rfl, rfl⟩ := hp
      simp [hnot]
    · rw [if_neg hp, ← Bool.decide_and, decide_eq_false hp, Bool.or_false]
  · rw [hnot, Bool.xor_false, Bool.or_eq_true, h.erased]
    constructor
    · rintro (⟨px, py, hp, hmask⟩ | hon)
      · exact ⟨px, py, hp, by rw [part_succ_of_on hm, hmask, Bool.true_or]⟩
      · exact ⟨x, y, hon, by rw [part_succ_of_on hm]; simp⟩
    · rintro ⟨px, py, hp, hmask⟩
      rw [part_succ_of_on hm, Bool.or_eq_true, Bool.and_eq_true, decide_eq_true_iff, decide_eq_true_iff] at hmask
      rcases hmask with hmask | ⟨rfl, rfl⟩
      · exact Or.inl ⟨px, py, hp, hmask⟩
      · exact Or.inr hp

/-! ## A row -/

/-- **A row draws the next eight columns of its mask**, or those of them that are on the screen. -/
theorem drawRow?_eq {picture mask : Nat → Nat → Bool} {data : UInt8} {x y : Nat} (hy : y < screenHeight)
    (hbits : ∀ k < 8, x + k < screenWidth → mask (x + k) y = data.toBitVec.getMsbD k)
    (hedge : ∀ px py, mask px py = true → px < screenWidth) (n : Nat) :
    ∀ (pixels : Array Bool) (erased : Bool) (column : Nat), column + n ≤ 8 →
      Drawn picture (part mask y (x + column)) pixels erased →
      ∃ pixels' erased', drawRow? data x y pixels erased column n = some (pixels', erased') ∧
        Drawn picture (part mask y (x + (column + n))) pixels' erased' := by
  induction n with
  | zero => exact fun pixels erased column _ h => ⟨pixels, erased, rfl, h⟩
  | succ n ih =>
    intro pixels erased column hc h
    unfold drawRow?
    by_cases hx : screenWidth ≤ x + column
    · rw [if_pos hx]
      refine ⟨pixels, erased, rfl, ?_⟩
      rwa [part_congr y (x + column) fun px py hm => by have := hedge px py hm; omega]
    · have hx := Nat.not_le.1 hx
      have hmask := hbits column (by omega) hx
      rw [if_neg (Nat.not_le.2 hx), ← Nat.add_assoc column n 1, Nat.add_right_comm column n 1]
      cases hb : data.toBitVec.getMsbD column with
      | true =>
        obtain ⟨pixels', on, ht, hd⟩ := drawn_toggle h hx hy (hmask.trans hb)
        obtain ⟨pixels'', erased'', hr, hd'⟩ := ih pixels' (erased || on) (column + 1) (by omega) hd
        exact ⟨pixels'', erased'', by simp [ht, hr], hd'⟩
      | false =>
        rw [← part_succ_of_off (hmask.trans hb)] at h
        exact ih pixels erased (column + 1) (by omega) h

/-! ## A sprite -/

section

variable {m : Memory} {x y start height : Nat}

theorem sprite_bounds {px py : Nat} (h : (Screen.sprite x y (m.load start height)).pixel px py = true) :
    y ≤ py ∧ py < y + height ∧ start + (py - y) < memorySize ∧ x ≤ px ∧ px < x + 8 ∧ px < screenWidth := by
  rw [Screen.pixel_sprite, Bool.and_eq_true, decide_eq_true_iff] at h
  obtain ⟨⟨hy, -, hx, hpx⟩, hbit⟩ := h
  have hlt : px - x < 8 := BitVec.lt_of_getMsbD hbit
  by_cases hin : py - y < height ∧ start + (py - y) < memorySize
  · exact ⟨hy, by omega, hin.2, hx, by omega, hpx⟩
  · rw [Memory.getElem?_load, if_neg hin, Option.getD_none] at hbit
    exact absurd hbit (by simp)

theorem pixel_sprite_load {row k : Nat} (hrow : row < height) (hy : y + row < screenHeight)
    (hm : start + row < memorySize) (hx : x + k < screenWidth) :
    (Screen.sprite x y (m.load start height)).pixel (x + k) (y + row) =
      m[start + row].toBitVec.getMsbD k := by
  rw [Screen.pixel_sprite, decide_eq_true ⟨Nat.le_add_right y row, hy, Nat.le_add_right x k, hx⟩, Bool.true_and,
    Nat.add_sub_cancel_left, Nat.add_sub_cancel_left, Memory.getElem?_load, if_pos ⟨hrow, hm⟩]
  unfold Memory.byte
  rw [Vector.getElem?_eq_getElem hm]
  rfl

end

/-- **Drawing row by row draws the mask of the sprite**, with the fault of its first byte that is not in memory. -/
theorem drawRows?_eq {picture : Nat → Nat → Bool} (m : Memory) {x y start : Nat} (size : Nat) (hy : y < screenHeight)
    (hstart : start < wordLimit) (n : Nat) :
    ∀ (r : Cells) (erased : Bool) (row : Nat), r.memory = m.toArray → row + n = size → size ≤ 16 →
      Drawn picture (part (Screen.sprite x y (m.load start (min size (screenHeight - y)))).pixel (y + row) x) r.pixels
        erased →
      ∃ pixels erased', drawRows? x y start r erased row n =
          some (⟨{ r with pixels },
            (firstOutside? (start + row) (min size (screenHeight - y) - row)).map .outOfBounds⟩, erased') ∧
        Drawn picture (Screen.sprite x y (m.load start (min size (screenHeight - y)))).pixel pixels erased' := by
  induction n with
  | zero =>
    intro r erased row _ hn _ h
    have hdone : min size (screenHeight - y) - row = 0 := by omega
    rw [part_eq fun px py hm => by have := sprite_bounds hm; omega] at h
    exact ⟨r.pixels, erased, by rw [hdone]; rfl, h⟩
  | succ n ih =>
    intro r erased row hmem hn hs h
    have hlimit : start + row < indexLimit := by
      have : start < 65536 := hstart
      show start + row < 18446744073709551616
      omega
    unfold drawRows?
    by_cases hrow : screenHeight ≤ y + row
    · have hdone : min size (screenHeight - y) - row = 0 := by omega
      rw [part_eq fun px py hm => by have := sprite_bounds hm; omega] at h
      rw [if_pos hrow, hdone]
      exact ⟨r.pixels, erased, rfl, h⟩
    · have hrow := Nat.not_le.1 hrow
      have hmore : min size (screenHeight - y) - row = min size (screenHeight - y) - (row + 1) + 1 := by omega
      rw [if_neg (Nat.not_le.2 hrow), fit?_eq hlimit, hmore]
      by_cases ha : start + row < memorySize
      · have hdata : r.memory[start + row]? = some m[start + row] := by
          rw [hmem, Vector.getElem?_toArray]
          exact Vector.getElem?_eq_getElem ha
        obtain ⟨pixels, erased', hd, hdrawn⟩ := drawRow?_eq hrow
          (fun k _ hk => pixel_sprite_load (by omega) hrow ha hk) (fun px py hm => (sprite_bounds hm).2.2.2.2.2) 8
          r.pixels erased 0 (Nat.le_refl 8) h
        rw [part_congr (y + (row + 1)) x fun px py hm => by
          have := sprite_bounds hm
          omega] at hdrawn
        obtain ⟨pixels', erased'', hr, hdrawn'⟩ := ih { r with pixels } erased' (row + 1) hmem (by omega) hs hdrawn
        rw [firstOutside?_succ_of_lt ha]
        exact ⟨pixels', erased'', by simp [ha, hdata, hd, hr, Nat.add_assoc], hdrawn'⟩
      · rw [part_eq fun px py hm => by have := sprite_bounds hm; omega] at h
        rw [firstOutside?_succ_of_le (Nat.not_lt.1 ha)]
        exact ⟨r.pixels, erased, by simp [ha], h⟩

end Cells

end Chip8
