import Mathlib
import Chip8.Proofs.Drawing
/-!
# Overlay — sprites over sprites

Drawing a sprite inverts the screen by a mask, and which mask that is depends on memory and on the values that the
sprite is drawn with, but not on the screen.  So when sprites are drawn one after the other, a pixel is inverted as
often as one of them has a bit there (`DrawsAll.pixel`).  Their order does not matter, and two of them that are the same
cancel, whatever is drawn between (`draws_commute`).  The flag does see the order: it tells what one sprite has met.
-/
namespace Chip8

/-! ## Screens, inverted again and again -/

namespace Screen

theorem invert_right_comm (s a b : Screen) : (s.invert a).invert b = (s.invert b).invert a := by
  unfold invert
  ext i hi : 1
  simp only [Vector.getElem_zipWith, BitVec.xor_assoc, BitVec.xor_comm a[i]]

theorem invert_invert (s mask : Screen) : (s.invert mask).invert mask = s := by
  unfold invert
  ext i hi : 1
  simp only [Vector.getElem_zipWith, BitVec.xor_assoc, BitVec.xor_self, BitVec.xor_zero]

theorem foldl_invert_of_perm {masks masks' : List Screen} (h : masks.Perm masks') (s : Screen) :
    masks.foldl invert s = masks'.foldl invert s :=
  h.foldl_eq' (fun a _ b _ s => invert_right_comm s a b) s

theorem foldl_invert_cancel (s mask : Screen) (before between after : List Screen) :
    (before ++ mask :: between ++ mask :: after).foldl invert s = (before ++ between ++ after).foldl invert s := by
  -- both are brought to the front
  have hperm : (before ++ mask :: between ++ mask :: after).Perm (mask :: mask :: (before ++ between ++ after)) :=
    List.perm_middle.trans ((List.perm_middle.append_right after).cons mask)
  rw [foldl_invert_of_perm hperm, List.foldl_cons, List.foldl_cons, invert_invert]

/-- **A pixel is inverted as often as a mask has it.** -/
theorem pixel_foldl_invert (masks : List Screen) (s : Screen) (px py : Nat) :
    (masks.foldl invert s).pixel px py = (s.pixel px py ^^ decide (Odd (masks.countP (·.pixel px py)))) := by
  induction masks generalizing s with
  | nil => exact (Bool.xor_false _).symm
  | cons mask masks ih =>
    rw [List.foldl_cons, ih, pixel_invert, List.countP_cons, Bool.xor_assoc]
    cases mask.pixel px py with
    | false => rw [Bool.false_xor, if_neg Bool.false_ne_true, Nat.add_zero]
    | true => simp only [Bool.true_xor, if_pos, Nat.odd_add_one, decide_not]

end Screen

/-! ## A sprite by its values -/

/-- What a `DXYN` draws: the values of `VX` and `VY`, the index, and `N`. -/
structure Sprite where
  vx : UInt8
  vy : UInt8
  index : UInt16
  n : Nibble
  deriving DecidableEq

namespace Sprite

/-- The column of the upper left corner, and its row. -/
def left (d : Sprite) : Nat :=
  d.vx.toNat % 64

def top (d : Sprite) : Nat :=
  d.vy.toNat % 32

/-- The number of rows that are on the screen. -/
def rows (d : Sprite) : Nat :=
  min d.n.val (32 - d.top)

/-- Whether the rows that are on the screen lie in memory. -/
def Fits (d : Sprite) : Prop :=
  d.rows = 0 ∨ d.index.toNat + d.rows ≤ 4096

/-- Whether a sprite has a bit at a pixel of the screen. -/
def bit (d : Sprite) (memory : Memory) (px py : Nat) : Bool :=
  decide (d.left ≤ px ∧ px < min (d.left + 8) 64) && decide (d.top ≤ py ∧ py < d.top + d.rows) &&
    (memory.byte (d.index.toNat + (py - d.top))).toNat.testBit (7 - (px - d.left))

def mask (d : Sprite) (memory : Memory) : Screen :=
  .sprite d.left d.top (memory.load d.index.toNat d.rows)

theorem pixel_mask (d : Sprite) (memory : Memory) (px py : Nat) :
    (d.mask memory).pixel px py = d.bit memory px py :=
  Screen.pixel_sprite_of_load memory (Nat.mod_lt _ (by decide)) (Nat.min_le_right _ _) d.index.toNat px py

end Sprite

namespace Machine

/-! ## Drawing sprites one after the other -/

/-- The machines agree in what drawing works on, screen and memory. -/
structure SameCanvas (m m' : Machine) : Prop where
  screen : m'.display.screen = m.display.screen := by rfl
  memory : m'.memory = m.memory := by rfl

/-- A machine draws a sprite and becomes another one: it executes a `DXYN`, and finds the values of the sprite. -/
def Draws (m : Machine) (d : Sprite) (m' : Machine) : Prop :=
  ∃ x y, m.register x = d.vx ∧ m.register y = d.vy ∧ m.index = d.index ∧ m' = (m.execute (.draw x y d.n)).settled

/-- A machine draws some sprites and becomes another one.  Registers, index and whatever else but screen and memory can
change before each of the sprites and behind the last. -/
inductive DrawsAll : Machine → List Sprite → Machine → Prop
  | nil {m m' : Machine} (same : SameCanvas m m') : DrawsAll m [] m'
  | cons {m m₁ m₂ m' : Machine} {d : Sprite} {ds : List Sprite} (same : SameCanvas m m₁) (draws : m₁.Draws d m₂)
      (rest : DrawsAll m₂ ds m') : DrawsAll m (d :: ds) m'

theorem SameCanvas.trans {a b c : Machine} (h : SameCanvas a b) (h' : SameCanvas b c) : SameCanvas a c where
  screen := h'.screen.trans h.screen
  memory := h'.memory.trans h.memory

theorem DrawsAll.of_same {m m₁ m' : Machine} {ds : List Sprite} (same : SameCanvas m m₁) (h : m₁.DrawsAll ds m') :
    m.DrawsAll ds m' := by
  cases h with
  | nil same' => exact .nil (same.trans same')
  | cons same' draws rest => exact .cons (same.trans same') draws rest

/-- Every sprite can be drawn: some registers hold its values. -/
theorem exists_draws (m : Machine) (d : Sprite) : ∃ m₁ m₂, SameCanvas m m₁ ∧ m₁.Draws d m₂ := by
  let registers := (m.registers.write 0 d.vx).write 1 d.vy
  have hx : registers.read 0 = d.vx := by
    rw [Registers.read_write_of_ne _ (by decide), Registers.read_write, if_pos rfl]
  have hy : registers.read 1 = d.vy := by
    rw [Registers.read_write, if_pos rfl]
  exact ⟨{ m with registers, index := d.index }, _, {}, 0, 1, hx, hy, rfl, rfl⟩

theorem exists_drawsAll (m : Machine) (ds : List Sprite) : ∃ m', m.DrawsAll ds m' := by
  induction ds generalizing m with
  | nil => exact ⟨m, .nil {}⟩
  | cons d ds ih =>
    obtain ⟨m₁, m₂, same, draws⟩ := exists_draws m d
    obtain ⟨m', rest⟩ := ih m₂
    exact ⟨m', .cons same draws rest⟩

/-! ### One sprite -/

theorem spriteMask_eq {m : Machine} {d : Sprite} {x y : Register} (hx : m.register x = d.vx)
    (hy : m.register y = d.vy) (hindex : m.index = d.index) : m.spriteMask x y d.n = d.mask m.memory := by
  rw [spriteMask, visibleRows, hx, hy, hindex]
  rfl

section

variable {m m' : Machine} {d : Sprite} (h : m.Draws d m')
include h

theorem Draws.screen : m'.display.screen = m.display.screen.invert (d.mask m.memory) := by
  obtain ⟨x, y, hx, hy, hindex, rfl⟩ := h
  rw [settled_execute, ← spriteMask_eq hx hy hindex]
  rfl

theorem Draws.memory : m'.memory = m.memory := by
  obtain ⟨x, y, -, -, -, rfl⟩ := h
  rw [settled_execute]
  rfl

theorem Draws.pixel (px py : Nat) :
    m'.display.screen.pixel px py = (m.display.screen.pixel px py ^^ d.bit m.memory px py) := by
  rw [h.screen, Screen.pixel_invert, d.pixel_mask]

theorem Draws.flag (hfits : d.Fits) :
    m'.register .flag = (m.display.screen.meets (d.mask m.memory)).toUInt8 := by
  obtain ⟨x, y, hx, hy, hindex, rfl⟩ := h
  have hfault : blockFault? m.index (m.visibleRows y d.n) = none := by
    rw [visibleRows, hy, hindex, blockFault?_eq]
    exact if_pos hfits
  rw [settled_execute]
  show Registers.read (m.registersAfter (.draw x y d.n)) .flag = _
  rw [registersAfter, hfault, spriteMask_eq hx hy hindex]
  exact (Registers.read_write ..).trans (if_pos rfl)

/-- **The flag tells that a pixel was turned off.** -/
theorem Draws.flag_eq_one_iff (hfits : d.Fits) :
    m'.register .flag = 1 ↔
      ∃ px py, m.display.screen.pixel px py = true ∧ m'.display.screen.pixel px py = false := by
  have hflag : m'.register .flag = 1 ↔ m.display.screen.meets (d.mask m.memory) = true := by
    rw [h.flag hfits]
    cases m.display.screen.meets (d.mask m.memory) <;> decide
  rw [hflag, Screen.meets_iff]
  simp only [h.pixel, d.pixel_mask]
  refine exists_congr fun px => exists_congr fun py => and_congr_right fun hon => ?_
  rw [hon, Bool.true_xor, Bool.not_eq_false']

end

/-! ### All of them -/

section

variable {m m' : Machine} {ds : List Sprite} (h : m.DrawsAll ds m')
include h

/-- **What is left of the screen**: it is inverted by the masks of the sprites, and these are known beforehand. -/
theorem DrawsAll.screen :
    m'.display.screen = (ds.map (·.mask m.memory)).foldl Screen.invert m.display.screen := by
  induction h with
  | nil same => exact same.screen
  | cons same draws _ ih =>
    rw [ih, draws.memory, draws.screen, same.screen, same.memory, List.map_cons, List.foldl_cons]

/-- **A pixel is inverted as often as a sprite has a bit there.** -/
theorem DrawsAll.pixel (px py : Nat) :
    m'.display.screen.pixel px py =
      (m.display.screen.pixel px py ^^ decide (Odd (ds.countP (·.bit m.memory px py)))) := by
  rw [h.screen, Screen.pixel_foldl_invert, List.countP_map]
  simp only [Function.comp_def, Sprite.pixel_mask]

end

theorem screen_of_perm {m m₁ m₂ : Machine} {ds ds' : List Sprite} (hperm : ds.Perm ds') (h₁ : m.DrawsAll ds m₁)
    (h₂ : m.DrawsAll ds' m₂) : m₁.display.screen = m₂.display.screen := by
  rw [h₁.screen, h₂.screen]
  exact Screen.foldl_invert_of_perm (hperm.map _) _

theorem screen_of_twice {m m₁ m₂ : Machine} {d : Sprite} {before between after : List Sprite}
    (h₁ : m.DrawsAll (before ++ d :: between ++ d :: after) m₁) (h₂ : m.DrawsAll (before ++ between ++ after) m₂) :
    m₁.display.screen = m₂.display.screen := by
  rw [h₁.screen, h₂.screen]
  simp only [List.map_append, List.map_cons]
  exact Screen.foldl_invert_cancel ..

/-! ## What the operations of a history draw -/

/-- The sprite that the word at the program counter draws, if it draws one. -/
def currentSprite (m : Machine) : Sprite where
  vx := m.register m.currentX
  vy := m.register m.currentY
  index := m.index
  n := .ofNat m.currentWord.toNat

def sprite? (m : Machine) : Operation → Option Sprite
  | .step _ => if m.Executes [some 0xd, none, none, none] then some m.currentSprite else none
  | _ => none

def sprites (m : Machine) : List Operation → List Sprite
  | [] => []
  | o :: history => (m.sprite? o).toList ++ (m.perform o).sprites history

/-- Whether an operation leaves screen and memory to the sprites: it loads no program, and it neither clears the screen
(`00E0`) nor writes to memory (`FX33`, `FX55`). -/
def LeavesCanvas (m : Machine) : Operation → Prop
  | .load _ => False
  | .step _ =>
    ¬m.ExecutesOne [[some 0x0, some 0x0, some 0xe, some 0x0], [some 0xf, none, some 0x3, some 0x3],
      [some 0xf, none, some 0x5, some 0x5]]
  | _ => True

theorem draws_of_sprite? {m : Machine} {o : Operation} {d : Sprite} (h : m.sprite? o = some d) :
    ∃ m₁, SameCanvas m m₁ ∧ m₁.Draws d (m.perform o) := by
  cases o with
  | step ticks =>
    rw [sprite?] at h
    split at h
    case isTrue hd =>
      cases h
      refine ⟨m.elapse ticks, {}, m.currentX, m.currentY, rfl, rfl, rfl, ?_⟩
      rw [perform_step, step_of_draw_eq hd, settled_execute]
      rfl
    case isFalse => exact nomatch h
  | _ => exact nomatch h

theorem sameCanvas_perform {m : Machine} {o : Operation} (hleaves : m.LeavesCanvas o) (h : m.sprite? o = none) :
    SameCanvas m (m.perform o) := by
  cases o with
  | load program => exact hleaves.elim
  | step ticks =>
    rw [perform_step]
    by_cases ok : m.status = .ok
    · have hdraw : ¬m.Executes [some 0xd, none, none, none] := fun hd => by
        rw [sprite?, if_pos hd] at h
        exact nomatch h
      have hpixels : ¬m.Touches .pixels := fun ⟨pattern, hp, he⟩ => by
        rcases List.mem_cons.1 hp with rfl | hp
        · exact hleaves ⟨_, by simp, he⟩
        · exact hdraw (List.mem_singleton.1 hp ▸ he)
      have hmemory : ¬m.Touches .memory := fun ⟨pattern, hp, he⟩ => hleaves ⟨pattern, List.mem_cons_of_mem _ hp, he⟩
      exact { screen := sharesWith_step ok ticks (c := .pixels) hpixels
              memory := sharesWith_step ok ticks (c := .memory) hmemory }
    · rw [step_of_not_ok ok]
      exact {}
  | _ => exact {}

/-- **A history that leaves screen and memory to its sprites draws them**, and that is all that it does to the
screen. -/
theorem drawsAll_run {m : Machine} {history : List Operation} (h : m.Each LeavesCanvas history) :
    m.DrawsAll (m.sprites history) (m.run history) := by
  induction history generalizing m with
  | nil => exact .nil {}
  | cons o history ih =>
    obtain ⟨hleaves, hrest⟩ := h
    rw [sprites, run_cons]
    cases hs : m.sprite? o with
    | none => exact .of_same (sameCanvas_perform hleaves hs) (ih hrest)
    | some d =>
      obtain ⟨m₁, same, draws⟩ := draws_of_sprite? hs
      exact .cons same draws (ih hrest)

/-- **Sprites commute, and cancel in pairs.**  Whatever is on the screen and in memory, any list of sprites can be drawn
one after the other, and it leaves every pixel inverted as often as one of them has a bit there.  So a list in another
order leaves the same screen, and so does the list without two sprites that are the same, wherever in it they are.  A
sprite that is drawn again at once leaves the screen that there was before.  If its rows are in memory, the first flag
says that the first drawing turned some pixel off and the second flag that it turned some pixel on.  And this is what a
history does to the screen that loads nothing, does not clear it and does not write to memory: it draws the sprites of
the `DXYN` that it executes, in their order. -/
theorem draws_commute (m : Machine) :
    (∀ ds, ∃ m', m.DrawsAll ds m') ∧
    (∀ ds m', m.DrawsAll ds m' → ∀ px py, m'.display.screen.pixel px py =
      (m.display.screen.pixel px py ^^ decide (Odd (ds.countP (·.bit m.memory px py))))) ∧
    (∀ ds ds' m₁ m₂, ds.Perm ds' → m.DrawsAll ds m₁ → m.DrawsAll ds' m₂ →
      m₁.display.screen = m₂.display.screen) ∧
    (∀ before between after d m₁ m₂, m.DrawsAll (before ++ d :: between ++ d :: after) m₁ →
      m.DrawsAll (before ++ between ++ after) m₂ → m₁.display.screen = m₂.display.screen) ∧
    (∀ d m₁ m₁' m₂, m.Draws d m₁ → SameCanvas m₁ m₁' → m₁'.Draws d m₂ →
      m₂.display.screen = m.display.screen ∧
      (d.Fits →
        (m₁.register .flag = 1 ↔
          ∃ px py, m.display.screen.pixel px py = true ∧ m₁.display.screen.pixel px py = false) ∧
        (m₂.register .flag = 1 ↔
          ∃ px py, m.display.screen.pixel px py = false ∧ m₁.display.screen.pixel px py = true))) ∧
    ∀ history, m.Each LeavesCanvas history → m.DrawsAll (m.sprites history) (m.run history) := by
  refine ⟨exists_drawsAll m, fun ds m' h => h.pixel, fun _ _ _ _ => screen_of_perm, fun _ _ _ _ _ _ => screen_of_twice,
    fun d m₁ m₁' m₂ h₁ same h₂ => ?_, fun _ => drawsAll_run⟩
  have hback : m₂.display.screen = m.display.screen := by
    rw [h₂.screen, same.screen, same.memory, h₁.memory, h₁.screen, Screen.invert_invert]
  refine ⟨hback, fun hfits => ⟨h₁.flag_eq_one_iff hfits, ?_⟩⟩
  rw [h₂.flag_eq_one_iff hfits, hback, same.screen]
  simp only [and_comm]

end Machine

end Chip8
