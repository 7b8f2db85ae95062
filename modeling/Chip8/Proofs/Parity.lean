import Mathlib
import Chip8.Display
import Chip8.Proofs.Cells.Draw
import Chip8.Proofs.Overlay
/-!
# Parity — a pixel is on when it was toggled an odd number of times

A display by itself can be cleared, have a pixel toggled, be marked, and be asked for its mark.  Only the first two reach
the screen, and a toggle inverts it by the mask of a single pixel.  So the screen after any history is the blank one,
inverted by the pixels that were toggled since the last clearing (`Display.screen_run`), and a pixel is on when that
was done to it an odd number of times (`Display.parity_of_history`).

A display that is stored has its pixels in one array, row after row.  Two pixels of the screen never share a cell of it,
and one that is off the screen has none: no cell is looked at when it is asked for.
-/
namespace Chip8

namespace Display

/-! ## Histories -/

/-- Something done to a display. -/
inductive Change where
  | clear
  | toggle (x : Fin screenWidth) (y : Fin screenHeight)
  | markDirty
  | takeDirty
  deriving DecidableEq

def perform (d : Display) : Change → Display
  | .clear => d.clear
  | .toggle x y => (d.toggle x y).2
  | .markDirty => d.markDirty
  | .takeDirty => d.takeDirty.2

def run (d : Display) (history : List Change) : Display :=
  history.foldl perform d

/-- What a history did after its last clearing, or all that it did if there was none. -/
def sinceClear (history : List Change) : List Change :=
  history.rtakeWhile (· ≠ .clear)

def Change.inverts (x y : Nat) : Change → Bool
  | .toggle px py => px.val = x && py.val = y
  | _ => false

/-- How often a pixel was toggled since the last clearing. -/
def toggles (history : List Change) (x y : Nat) : Nat :=
  (sinceClear history).countP (·.inverts x y)

/-- The mask that a change inverts the screen by, if it does. -/
def Change.mask? : Change → Option Screen
  | .toggle x y => some (.dot x y)
  | _ => none

theorem run_concat (d : Display) (history : List Change) (c : Change) :
    d.run (history ++ [c]) = (d.run history).perform c :=
  List.foldl_concat ..

theorem sinceClear_concat_clear (history : List Change) : sinceClear (history ++ [.clear]) = [] :=
  List.rtakeWhile_concat_neg _ _ _ (by simp)

theorem sinceClear_concat {c : Change} (h : c ≠ .clear) (history : List Change) :
    sinceClear (history ++ [c]) = sinceClear history ++ [c] :=
  List.rtakeWhile_concat_pos _ _ _ (by simpa using h)

/-! ## One change -/

section

variable (d : Display) (x : Fin screenWidth) (y : Fin screenHeight)

theorem erased_toggle : (d.toggle x y).1 = d.screen.pixel x y :=
  Screen.meets_dot ..

theorem pixel_toggle (px py : Nat) :
    (d.toggle x y).2.screen.pixel px py =
      if px = x.val ∧ py = y.val then !d.screen.pixel px py else d.screen.pixel px py := by
  rw [toggle, Screen.pixel_invert, Screen.pixel_dot]
  by_cases h : px = x.val ∧ py = y.val <;> simp [h]

/-- **The answer tells that the pixel went off.** -/
theorem erased_toggle_iff :
    (d.toggle x y).1 = true ↔ d.screen.pixel x y = true ∧ (d.toggle x y).2.screen.pixel x y = false := by
  rw [erased_toggle, pixel_toggle, if_pos ⟨rfl, rfl⟩, Bool.not_eq_false', and_self]

end

theorem screen_perform (d : Display) {c : Change} (h : c ≠ .clear) :
    (d.perform c).screen = ([c].filterMap Change.mask?).foldl Screen.invert d.screen := by
  cases c with
  | clear => exact absurd rfl h
  | _ => rfl

/-! ## Any number of them -/

/-- **The screen after a history**: the blank one, or that of the beginning if nothing cleared it, inverted by the pixels
that were toggled since. -/
theorem screen_run (d : Display) (history : List Change) :
    (d.run history).screen =
      ((sinceClear history).filterMap Change.mask?).foldl Screen.invert
        (if .clear ∈ history then .blank else d.screen) := by
  -- from the end of the history, since it is there that a clearing empties what has been counted
  induction history using List.reverseRecOn with
  | nil => rfl
  | append_singleton history c ih =>
    rw [run_concat]
    by_cases hc : c = .clear
    · subst hc
      rw [sinceClear_concat_clear]
      simp [perform, clear]
    · have hmem : .clear ∈ history ++ [c] ↔ .clear ∈ history := by simp [Ne.symm hc]
      rw [screen_perform _ hc, ih, sinceClear_concat hc, List.filterMap_append, List.foldl_append]
      simp only [hmem]

theorem countP_masks (history : List Change) (x y : Nat) :
    ((sinceClear history).filterMap Change.mask?).countP (·.pixel x y) = toggles history x y := by
  have hmask (c : Change) : (c.mask?.map (·.pixel x y)).getD false = c.inverts x y := by
    cases c with
    | toggle px py => simp [Change.mask?, Change.inverts, Screen.pixel_dot, eq_comm]
    | _ => rfl
  simp only [List.countP_filterMap, hmask, toggles]

theorem pixel_run (d : Display) (history : List Change) (x y : Nat) :
    (d.run history).screen.pixel x y =
      ((!decide (.clear ∈ history) && d.screen.pixel x y) ^^ decide (Odd (toggles history x y))) := by
  rw [screen_run, Screen.pixel_foldl_invert, countP_masks]
  by_cases hc : Change.clear ∈ history <;> simp [hc, Screen.pixel_blank]

/-- What was toggled before the last clearing does not count. -/
example : toggles [.toggle 3 4, .clear, .toggle 3 4, .takeDirty, .toggle 63 31] 3 4 = 1 ∧
    (run {} [.toggle 3 4, .clear, .toggle 3 4, .takeDirty, .toggle 63 31]).screen.pixel 3 4 = true := by
  decide +kernel

theorem lt_of_odd_toggles {history : List Change} {x y : Nat} (h : Odd (toggles history x y)) :
    x < screenWidth ∧ y < screenHeight := by
  obtain ⟨c, -, hc⟩ := List.countP_pos_iff.1 h.pos
  cases c with
  | toggle px py =>
    simp only [Change.inverts, Bool.and_eq_true, decide_eq_true_eq] at hc
    obtain ⟨rfl, rfl⟩ := hc
    exact ⟨px.isLt, py.isLt⟩
  | _ => exact nomatch hc

end Display

/-! ## A display in cells -/

/-- A display that is stored: its pixels, row after row, and its mark. -/
structure DisplayCells where
  pixels : Array Bool := Array.replicate (screenWidth * screenHeight) false
  dirty : Bool := false

namespace DisplayCells

def pixel? (r : DisplayCells) (x y : Nat) : Option Bool :=
  if screenWidth ≤ x ∨ screenHeight ≤ y then some false
  else do
    let i ← fit? indexLimit (y * screenWidth + x)
    r.pixels[i]?

def toggle? (r : DisplayCells) (x y : Nat) : Option (Bool × DisplayCells) := do
  let (pixels, on) ← Cells.toggle? r.pixels x y
  some (on, { r with pixels })

def perform? (r : DisplayCells) : Display.Change → Option DisplayCells
  | .clear => some { pixels := r.pixels.map fun _ => false, dirty := true }
  | .toggle x y => do return (← r.toggle? x y).2
  | .markDirty => some { r with dirty := true }
  | .takeDirty => some { r with dirty := false }

def run? (r : DisplayCells) (history : List Display.Change) : Option DisplayCells :=
  history.foldlM perform? r

structure Stores (r : DisplayCells) (d : Display) : Prop where
  pixels : Cells.Shows r.pixels d.screen.pixel
  dirty : r.dirty = d.dirty

theorem stores_new : Stores {} {} where
  pixels := Cells.shows_blank
  dirty := rfl

section

variable {r : DisplayCells} {d : Display} (h : r.Stores d)
include h

theorem Stores.pixel (x y : Nat) : r.pixel? x y = some (d.screen.pixel x y) := by
  unfold pixel?
  by_cases hoff : screenWidth ≤ x ∨ screenHeight ≤ y
  · rw [if_pos hoff, Screen.pixel_of_off _ hoff]
  · obtain ⟨hx, hy⟩ := not_or.1 hoff
    have hcell := pixelCell_lt (Nat.not_le.1 hx) (Nat.not_le.1 hy)
    rw [if_neg hoff, fit?_eq (Nat.lt_trans hcell (by decide))]
    exact h.pixels.pixel x y (Nat.not_le.1 hx) (Nat.not_le.1 hy)

theorem Stores.toggle (x : Fin screenWidth) (y : Fin screenHeight) :
    ∃ r', r.toggle? x y = some ((d.toggle x y).1, r') ∧ r'.Stores (d.toggle x y).2 := by
  let pixels := r.pixels.setIfInBounds (y.val * screenWidth + x.val) !d.screen.pixel x y
  have hset : Cells.Shows pixels _ := Cells.shows_set h.pixels x.isLt y.isLt (!d.screen.pixel x y)
  refine ⟨{ r with pixels }, ?_, ⟨hset.size, fun px py hpx hpy => ?_⟩, h.dirty⟩
  · rw [toggle?, Cells.toggle?_eq h.pixels x.isLt y.isLt, d.erased_toggle]
    rfl
  · rw [hset.pixel px py hpx hpy, d.pixel_toggle]
    by_cases hp : px = x.val ∧ py = y.val
    · rw [if_pos hp, if_pos hp, hp.1, hp.2]
    · rw [if_neg hp, if_neg hp]

theorem Stores.perform (c : Display.Change) : ∃ r', r.perform? c = some r' ∧ r'.Stores (d.perform c) := by
  cases c with
  | clear => exact ⟨_, rfl, h.pixels.clear, rfl⟩
  | toggle x y =>
    obtain ⟨r', htoggle, h'⟩ := h.toggle x y
    exact ⟨r', by rw [perform?, htoggle]; rfl, h'⟩
  | markDirty => exact ⟨_, rfl, h.pixels, rfl⟩
  | takeDirty => exact ⟨_, rfl, h.pixels, rfl⟩

/-- **Any history of a stored display has a result**, and it is that of the display. -/
theorem Stores.run (history : List Display.Change) :
    ∃ r', r.run? history = some r' ∧ r'.Stores (d.run history) := by
  induction history generalizing r d with
  | nil => exact ⟨r, rfl, h⟩
  | cons c history ih =>
    obtain ⟨r₁, hperform, h₁⟩ := h.perform c
    obtain ⟨r', hrun, h'⟩ := ih h₁
    refine ⟨r', ?_, h'⟩
    rw [run?, List.foldlM_cons, hperform]
    exact hrun

end

end DisplayCells

namespace Display

/-- **A display is a map of parities.**  After any history of a new display a pixel is on exactly when it is on the screen
and was toggled an odd number of times since the last clearing.  Another toggle then tells that its pixel went off, if
it did, and inverts that pixel and no other; marking the display and taking the mark leave all of them.  The stored
display always has a result, which is the same for every pixel that can be asked for and for every toggle, and two
pixels of the screen have the same cell only if they are the same. -/
theorem parity_of_history (history : List Change) :
    let d := run {} history
    (∀ x y, d.screen.pixel x y = true ↔ x < 64 ∧ y < 32 ∧ Odd (toggles history x y)) ∧
    (∀ x y, ((d.toggle x y).1 = true ↔ d.screen.pixel x y = true ∧ (d.toggle x y).2.screen.pixel x y = false) ∧
      ∀ px py, (d.toggle x y).2.screen.pixel px py =
        if px = x.val ∧ py = y.val then !d.screen.pixel px py else d.screen.pixel px py) ∧
    (∀ x y, d.markDirty.screen.pixel x y = d.screen.pixel x y ∧
      d.takeDirty.2.screen.pixel x y = d.screen.pixel x y) ∧
    (∃ r, DisplayCells.run? {} history = some r ∧ (∀ x y, r.pixel? x y = some (d.screen.pixel x y)) ∧
      ∀ (x : Fin screenWidth) (y : Fin screenHeight), ∃ r', r.toggle? x y = some ((d.toggle x y).1, r') ∧
        ∀ px py, r'.pixel? px py = some ((d.toggle x y).2.screen.pixel px py)) ∧
    ∀ (x x' : Fin screenWidth) (y y' : Fin screenHeight),
      y.val * screenWidth + x.val = y'.val * screenWidth + x'.val ↔ x = x' ∧ y = y' := by
  intro d
  obtain ⟨r, hrun, hstores⟩ := DisplayCells.stores_new.run history
  refine ⟨fun x y => ?_, fun x y => ⟨d.erased_toggle_iff x y, d.pixel_toggle x y⟩, fun x y => ⟨rfl, rfl⟩,
    ⟨r, hrun, hstores.pixel, fun x y => ?_⟩, fun x x' y y' => ?_⟩
  · have hpixel : d.screen.pixel x y = decide (Odd (toggles history x y)) := by
      rw [pixel_run, Screen.pixel_blank, Bool.and_false, Bool.false_xor]
    rw [hpixel, decide_eq_true_eq]
    exact ⟨fun h => ⟨(lt_of_odd_toggles h).1, (lt_of_odd_toggles h).2, h⟩, fun h => h.2.2⟩
  · obtain ⟨r', htoggle, h'⟩ := hstores.toggle x y
    exact ⟨r', htoggle, h'.pixel⟩
  · rw [pixelCell_inj x.isLt x'.isLt, Fin.ext_iff, Fin.ext_iff]

end Display

end Chip8
