import Mathlib
import Chip8.Screen
/-!
# Sprite — the pixels of a mask, one by one

Drawing inverts the pixels of a mask.  Here the mask of a sprite is read pixel by pixel (`pixel_sprite`), and so is that
of a single pixel (`pixel_dot`); that a mask meets a screen is that some pixel is on in both (`meets_iff`).
-/
namespace Chip8
namespace Screen

theorem getMsbD_spriteRow (x : Nat) (byte : UInt8) (px : Nat) :
    (spriteRow x byte).getMsbD px = (decide (x ≤ px ∧ px < screenWidth) && byte.toBitVec.getMsbD (px - x)) := by
  unfold spriteRow
  rw [BitVec.getMsbD_ushiftRight, BitVec.getMsbD_append, Bool.decide_and]
  by_cases hx : x ≤ px
  · by_cases hb : 8 ≤ px - x
    · rw [if_pos hb, BitVec.getMsbD_of_ge byte.toBitVec _ hb]
      simp
    · rw [if_neg hb]
      simp [hx, Nat.not_lt.2 hx]
  · simp [hx, Nat.lt_of_not_le hx]

/-- **A pixel of a sprite's mask** is on where the byte of its row has a bit and the screen has a pixel. -/
theorem pixel_sprite (x y : Nat) (bytes : List UInt8) (px py : Nat) :
    (sprite x y bytes).pixel px py = (decide (y ≤ py ∧ py < screenHeight ∧ x ≤ px ∧ px < screenWidth) &&
      (bytes[py - y]?.getD 0).toBitVec.getMsbD (px - x)) := by
  unfold pixel sprite
  by_cases hpy : py < screenHeight
  · rw [Vector.getElem?_ofFn, dif_pos hpy, Option.getD_some]
    by_cases hy : y ≤ py
    · rw [if_pos hy, getMsbD_spriteRow]
      simp [hy, hpy]
    · rw [if_neg hy]
      simp [hy]
  · rw [Vector.getElem?_eq_none (Nat.not_lt.1 hpy)]
    simp [hpy]

theorem pixel_of_off (s : Screen) {x y : Nat} (h : screenWidth ≤ x ∨ screenHeight ≤ y) : s.pixel x y = false := by
  unfold pixel
  rcases h with hx | hy
  · exact BitVec.getMsbD_of_ge _ _ hx
  · rw [Vector.getElem?_eq_none hy, Option.getD_none]
    exact BitVec.getMsbD_zero

theorem pixel_set (s : Screen) {y : Nat} (h : y < screenHeight) (row : PixelRow) (px py : Nat) :
    Screen.pixel (s.set y row h) px py = if py = y then row.getMsbD px else s.pixel px py := by
  unfold pixel
  rw [Vector.getElem?_set]
  by_cases hy : py = y
  · rw [if_pos hy.symm, if_pos hy, Option.getD_some]
  · rw [if_neg (Ne.symm hy), if_neg hy]

/-- **The mask of a single pixel** has that pixel and no other. -/
theorem pixel_dot (x : Fin screenWidth) (y : Fin screenHeight) (px py : Nat) :
    (dot x y).pixel px py = decide (px = x.val ∧ py = y.val) := by
  have hx : x.val < 64 := x.isLt
  have hbit : (BitVec.twoPow screenWidth (screenWidth - 1 - x.val)).getMsbD px = decide (px = x.val) := by
    rw [BitVec.getMsbD_twoPow, decide_eq_true (show 64 - 1 - x.val < 64 by omega), Bool.true_and]
    exact decide_eq_decide.2 (show px = 64 - (64 - 1 - x.val) - 1 ↔ px = x.val by omega)
  rw [dot, pixel_set, pixel_blank, hbit]
  by_cases hy : py = y.val <;> simp [hy]

theorem row_ne_zero_iff (row : PixelRow) : row ≠ 0 ↔ ∃ x, row.getMsbD x = true := by
  constructor
  · intro h
    by_contra hn
    exact h (BitVec.eq_of_getMsbD_eq fun i _ => by
      rw [show (0 : PixelRow) = BitVec.ofNat screenWidth 0 from rfl, BitVec.getMsbD_zero]
      exact Bool.eq_false_iff.2 fun hi => hn ⟨i, hi⟩)
  · rintro ⟨x, hx⟩ rfl
    rw [show (0 : PixelRow) = BitVec.ofNat screenWidth 0 from rfl, BitVec.getMsbD_zero] at hx
    exact Bool.false_ne_true hx

/-- **A mask meets a screen where some pixel is on in both.** -/
theorem meets_iff (s mask : Screen) :
    s.meets mask = true ↔ ∃ x y, s.pixel x y = true ∧ mask.pixel x y = true := by
  have hrow : ∀ (t : Screen) (x y : Nat) (hy : y < screenHeight), t.pixel x y = t[y].getMsbD x := fun t x y hy => by
    unfold pixel
    rw [Vector.getElem?_eq_getElem hy, Option.getD_some]
  unfold meets
  rw [Vector.any_eq_true]
  constructor
  · rintro ⟨y, hy, h⟩
    rw [Vector.getElem_zipWith, bne_iff_ne, row_ne_zero_iff] at h
    obtain ⟨x, hx⟩ := h
    rw [BitVec.getMsbD_and, Bool.and_eq_true] at hx
    exact ⟨x, y, by rw [hrow s x y hy]; exact hx.1, by rw [hrow mask x y hy]; exact hx.2⟩
  · rintro ⟨x, y, hs, hm⟩
    have hy : y < screenHeight := by
      by_contra hn
      unfold pixel at hs
      rw [Vector.getElem?_eq_none (Nat.not_lt.1 hn)] at hs
      simp at hs
    rw [hrow _ x y hy] at hs hm
    refine ⟨y, hy, ?_⟩
    rw [Vector.getElem_zipWith, bne_iff_ne, row_ne_zero_iff]
    exact ⟨x, by rw [BitVec.getMsbD_and, hs, hm]; rfl⟩

theorem meets_dot (s : Screen) (x : Fin screenWidth) (y : Fin screenHeight) :
    s.meets (dot x y) = s.pixel x y := by
  rw [Bool.eq_iff_iff, meets_iff]
  simp [pixel_dot]

end Screen

end Chip8
