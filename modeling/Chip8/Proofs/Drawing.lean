import Mathlib
import Chip8.Proofs.Frame
import Chip8.Proofs.Sprite
/-!
# Drawing — a sprite on the screen, pixel by pixel

A sprite is drawn from its upper left corner, which wraps around the screen, while its rows and columns do not.  Here it
is told which pixels that inverts (`spriteBit`), and when the flag is set.  A sprite that reaches past the end of memory
stops the machine after the rows before that, with the flag as it was; rows below the screen are no part of this, since
they are not read (`step_of_draw`).
-/
namespace Chip8

theorem getMsbD_byte (b : UInt8) (i : Nat) : b.toBitVec.getMsbD i = (decide (i < 8) && b.toNat.testBit (7 - i)) := by
  rw [BitVec.getMsbD]
  rfl

namespace Memory

theorem byte_of_le (m : Memory) {a : Nat} (h : memorySize ≤ a) : m.byte a = 0 := by
  unfold byte
  rw [Vector.getElem?_eq_none h, Option.getD_none]

theorem getD_load (m : Memory) (a n k : Nat) : (m.load a n)[k]?.getD 0 = if k < n then m.byte (a + k) else 0 := by
  rw [getElem?_load]
  by_cases hk : k < n
  · by_cases ha : a + k < memorySize
    · rw [if_pos ⟨hk, ha⟩, if_pos hk, Option.getD_some]
    · rw [if_neg fun h => ha h.2, if_pos hk, byte_of_le m (Nat.not_lt.1 ha), Option.getD_none]
  · rw [if_neg fun h => hk h.1, if_neg hk, Option.getD_none]

/-- A block is loaded from its own bytes only. -/
theorem load_congr {m m' : Memory} {a n : Nat} (h : ∀ k < n, m'.byte (a + k) = m.byte (a + k)) :
    m'.load a n = m.load a n := by
  refine List.ext_getElem? fun k => ?_
  rw [getElem?_load, getElem?_load]
  by_cases hk : k < n ∧ a + k < memorySize
  · rw [if_pos hk, if_pos hk, h k hk.1]
  · rw [if_neg hk, if_neg hk]

end Memory

/-- **A pixel of a sprite that is read from memory** is on where the byte of its row has a bit, as far as it lies on the
screen. -/
theorem Screen.pixel_sprite_of_load (memory : Memory) {left top rows : Nat} (htop : top < 32) (hrows : rows ≤ 32 - top)
    (index px py : Nat) :
    (Screen.sprite left top (memory.load index rows)).pixel px py =
      (decide (left ≤ px ∧ px < min (left + 8) 64) && decide (top ≤ py ∧ py < top + rows) &&
        (memory.byte (index + (py - top))).toNat.testBit (7 - (px - left))) := by
  rw [pixel_sprite, Memory.getD_load, getMsbD_byte, Bool.eq_iff_iff]
  simp only [Bool.and_eq_true, decide_eq_true_eq, screenWidth, screenHeight, and_assoc]
  constructor
  · rintro ⟨hy, hy', hx, hx', hwidth, hbit⟩
    -- a row below the visible ones has no byte in the block that is loaded, and zero has no bit
    have hrow : py - top < rows := by
      by_contra hn
      rw [if_neg hn] at hbit
      exact nomatch (Nat.zero_testBit _).symm.trans hbit
    rw [if_pos hrow] at hbit
    exact ⟨hx, by omega, hy, by omega, hbit⟩
  · rintro ⟨hx, hx', hy, hy', hbit⟩
    rw [if_pos (by omega)]
    exact ⟨hy, by omega, hx, by omega, by omega, hbit⟩

namespace Machine

/-! ## The pixels of a sprite -/

/-- The column of a sprite's upper left corner, and its row. -/
def spriteLeft (m : Machine) : Nat :=
  (m.register m.currentX).toNat % 64

def spriteTop (m : Machine) : Nat :=
  (m.register m.currentY).toNat % 32

/-- Whether the sprite that the word at the program counter draws has a bit at a pixel of the screen. -/
def spriteBit (m : Machine) (px py : Nat) : Bool :=
  decide (m.spriteLeft ≤ px ∧ px < min (m.spriteLeft + 8) 64) &&
    decide (m.spriteTop ≤ py ∧ py < m.spriteTop + m.currentRows) &&
    (m.memory.byte (m.index.toNat + (py - m.spriteTop))).toNat.testBit (7 - (px - m.spriteLeft))

theorem spriteBit_eq_true_iff {m : Machine} {px py : Nat} :
    m.spriteBit px py = true ↔
      (m.spriteLeft ≤ px ∧ px < min (m.spriteLeft + 8) 64) ∧
      (m.spriteTop ≤ py ∧ py < m.spriteTop + m.currentRows) ∧
      (m.memory.byte (m.index.toNat + (py - m.spriteTop))).toNat.testBit (7 - (px - m.spriteLeft)) = true := by
  unfold spriteBit
  rw [Bool.and_eq_true, Bool.and_eq_true, decide_eq_true_eq, decide_eq_true_eq, and_assoc]

/-- No row of a sprite behind the end of memory has a bit. -/
theorem lt_of_spriteBit {m : Machine} {px py : Nat} (h : m.spriteBit px py = true) :
    m.index.toNat + (py - m.spriteTop) < 4096 := by
  by_contra hout
  obtain ⟨-, -, hbit⟩ := spriteBit_eq_true_iff.1 h
  rw [Memory.byte_of_le _ (Nat.not_lt.1 hout)] at hbit
  exact nomatch (Nat.zero_testBit _).symm.trans hbit

theorem upcoming?_of_draw {m : Machine} (h : m.Executes [some 0xd, none, none, none]) :
    m.upcoming? = some (.draw m.currentX m.currentY (.ofNat m.currentWord.toNat)) := by
  refine upcoming?_eq_some_iff.2 ⟨h.2.1, ?_⟩
  unfold Instruction.decode?
  simp only [h.firstDigit]
  rfl

/-- The mask that the word at the program counter inverts the screen by, if it draws. -/
def currentMask (m : Machine) : Screen :=
  m.spriteMask m.currentX m.currentY (.ofNat m.currentWord.toNat)

/-- **A pixel of the mask is on where the sprite has a bit.** -/
theorem pixel_currentMask (m : Machine) (px py : Nat) : m.currentMask.pixel px py = m.spriteBit px py :=
  Screen.pixel_sprite_of_load m.memory (Nat.mod_lt _ (by decide)) (Nat.min_le_right _ _) m.index.toNat px py

/-- **The mask meets the screen where a pixel with a bit of the sprite is on.** -/
theorem meets_currentMask_iff {m : Machine} :
    m.display.screen.meets m.currentMask = true ↔
      ∃ px py, m.spriteBit px py = true ∧ m.display.screen.pixel px py = true := by
  simp only [Screen.meets_iff, pixel_currentMask, and_comm]

theorem meets_currentMask_eq_false_iff {m : Machine} :
    m.display.screen.meets m.currentMask = false ↔
      ∀ px py, m.spriteBit px py = true → m.display.screen.pixel px py = false := by
  rw [← Bool.not_eq_true, meets_currentMask_iff]
  simp only [not_exists, not_and, Bool.not_eq_true]

/-! ## The step that draws it -/

section

variable {m : Machine} (h : m.Executes [some 0xd, none, none, none]) (ticks : Nat)
include h

theorem step_of_draw_eq :
    m.step ticks = (m.elapse ticks).after (.draw m.currentX m.currentY (.ofNat m.currentWord.toNat)) :=
  step_eq_after h.1 (upcoming?_of_draw h) ticks

theorem display_of_draw : (m.step ticks).display = m.display.draw m.currentMask := by
  rw [step_of_draw_eq h]
  rfl

theorem pixel_of_draw (px py : Nat) :
    (m.step ticks).display.screen.pixel px py = (m.display.screen.pixel px py ^^ m.spriteBit px py) := by
  rw [display_of_draw h, ← pixel_currentMask]
  exact Screen.pixel_invert _ _ px py

/-- A sprite that lies in memory sets the flag, and leaves the other registers. -/
theorem register_of_draw (hf : blockFault? m.index m.currentRows = none) (j : Register) :
    (m.step ticks).register j =
      if .flag = j then (m.display.screen.meets m.currentMask).toUInt8 else m.register j := by
  rw [step_of_draw_eq h]
  show Registers.read (if (blockFault? m.index m.currentRows).isSome then m.registers
    else m.registers.write .flag (m.display.screen.meets m.currentMask).toUInt8) j = _
  rw [hf]
  exact Registers.read_write ..

/-- A sprite that does not lie in memory stops the machine, and leaves all registers. -/
theorem stops_of_draw {fault : Fault} (hf : blockFault? m.index m.currentRows = some fault) :
    (m.step ticks).status = .halted fault ∧ (m.step ticks).registers = m.registers := by
  rw [step_of_draw_eq h]
  show ((blockFault? m.index m.currentRows).or _).elim _ Status.halted = .halted fault ∧
    (if (blockFault? m.index m.currentRows).isSome then m.registers else _) = m.registers
  rw [hf]
  exact ⟨rfl, rfl⟩

/-- **Drawing reads the rows that are visible, and nothing else** but its own word. -/
theorem step_of_draw_congr {memory : Memory} (hword : memory.word m.pc.toNat = m.currentWord)
    (hrows : ∀ row < m.currentRows, memory.byte (m.index.toNat + row) = m.memory.byte (m.index.toNat + row)) :
    step { m with memory } ticks = { m.step ticks with memory } := by
  have hcurrent : currentWord { m with memory } = m.currentWord := hword
  have h' : Executes { m with memory } [some 0xd, none, none, none] := ⟨h.1, h.2.1, by rw [hcurrent]; exact h.2.2⟩
  have hx : currentX { m with memory } = m.currentX := by rw [currentX, hcurrent, currentX]
  have hy : currentY { m with memory } = m.currentY := by rw [currentY, hcurrent, currentY]
  have hmask : spriteMask (elapse { m with memory } ticks) m.currentX m.currentY (.ofNat m.currentWord.toNat) =
      (m.elapse ticks).spriteMask m.currentX m.currentY (.ofNat m.currentWord.toNat) :=
    congrArg (Screen.sprite m.spriteLeft m.spriteTop) (Memory.load_congr hrows)
  rw [step_of_draw_eq h, step_of_draw_eq h', hx, hy, hcurrent]
  simp only [after, registersAfter, displayAfter, hmask]
  rfl

end

/-- **A sprite, drawn.**  Let `k` rows of it be visible.  If they lie in memory, or there is none, the pixels where the
sprite has a bit are inverted and no other; the flag is set to one if that turned a pixel off and to zero if not, and no
other register changes.  If not, the machine stops for the first address that is not in memory, those of the pixels are
inverted whose rows are, and no register changes.  Both ways the screen was drawn on, index and memory are as they were,
and bytes that no visible row is made of are not read. -/
theorem step_of_draw {m : Machine} (h : m.Executes [some 0xd, none, none, none]) (ticks : Nat) :
    let after := m.step ticks
    let k := m.currentRows
    (k = 0 ∨ m.index.toNat + k ≤ 4096 →
      (∀ px py, after.display.screen.pixel px py = (m.display.screen.pixel px py ^^ m.spriteBit px py)) ∧
      (after.register .flag = 1 ↔ ∃ px py, m.spriteBit px py = true ∧ m.display.screen.pixel px py = true) ∧
      (after.register .flag = 0 ↔ ∀ px py, m.spriteBit px py = true → m.display.screen.pixel px py = false) ∧
      ∀ j ≠ .flag, after.register j = m.register j) ∧
    (¬(k = 0 ∨ m.index.toNat + k ≤ 4096) →
      after.status = .halted (.outOfBounds (max m.index.toNat 4096)) ∧
      (∀ px py, after.display.screen.pixel px py = (m.display.screen.pixel px py ^^
        (decide (m.index.toNat + (py - m.spriteTop) < 4096) && m.spriteBit px py))) ∧
      ∀ j, after.register j = m.register j) ∧
    after.display.dirty = true ∧ after.index = m.index ∧ after.memory = m.memory ∧
    ∀ memory : Memory, memory.word m.pc.toNat = m.memory.word m.pc.toNat →
      (∀ row < k, memory.byte (m.index.toNat + row) = m.memory.byte (m.index.toNat + row)) →
      step { m with memory } ticks = { after with memory } := by
  intro after k
  have hfault := blockFault?_eq m.index k
  refine ⟨fun hfits => ?_, fun hout => ?_, ?_, ?_, ?_, fun memory hword hrows => step_of_draw_congr h ticks hword hrows⟩
  · have hregister := register_of_draw h ticks (hfault.trans (if_pos hfits))
    refine ⟨pixel_of_draw h ticks, ?_, ?_, fun j hj => (hregister j).trans (if_neg hj.symm)⟩
    · rw [hregister, if_pos rfl, ← meets_currentMask_iff]
      cases m.display.screen.meets m.currentMask <;> decide
    · rw [hregister, if_pos rfl, ← meets_currentMask_eq_false_iff]
      cases m.display.screen.meets m.currentMask <;> decide
  · obtain ⟨hstatus, hregisters⟩ := stops_of_draw h ticks (hfault.trans (if_neg hout))
    -- the mask is the same as when all rows lie in memory: those that do not have no bit
    refine ⟨hstatus, fun px py => ?_, fun j => congrArg (Registers.read · j) hregisters⟩
    rw [pixel_of_draw h]
    cases hbit : m.spriteBit px py with
    | false => rw [Bool.and_false]
    | true => rw [decide_eq_true (lt_of_spriteBit hbit), Bool.and_true]
  · rw [show after.display = _ from display_of_draw h ticks]
    rfl
  · rw [show after = _ from step_of_draw_eq h ticks]
    rfl
  · rw [show after = _ from step_of_draw_eq h ticks]
    rfl

/-- A machine that is to draw a sprite over itself.  Its corner is in the last three rows and columns, and the register
that says so is the flag. -/
def overwriting : Machine :=
  (build {} (Vector.replicate 8 0)).run
    (.load [0x6F, 0x3D, 0xA2, 0x0A, 0xDF, 0xF5, 0x6F, 0x3D, 0xDF, 0xF5, 0xFF, 0x80, 0x01] ::
      List.replicate 4 (.step 0))

/-- Three rows are visible, and they go out again; the one that reaches past memory is drawn up to there. -/
theorem step_of_draw_overwriting :
    (overwriting.Executes [some 0xd, none, none, none] ∧ overwriting.currentRows = 3 ∧
      (overwriting.step 0).register .flag = 1 ∧ (overwriting.step 0).display.screen.pixel 61 29 = false) ∧
    (overdrawing.Executes [some 0xd, none, none, none] ∧
      (overdrawing.step 0).status = .halted (.outOfBounds 0x1000) ∧
      (overdrawing.step 0).display.screen.pixel 7 0 = true ∧
      (overdrawing.step 0).register .flag = overdrawing.register .flag) := by
  have hover : overwriting.Executes [some 0xd, none, none, none] ∧ overwriting.currentRows = 3 ∧
      (overwriting.currentRows = 0 ∨ overwriting.index.toNat + overwriting.currentRows ≤ 4096) ∧
      overwriting.spriteBit 61 29 = true ∧ overwriting.display.screen.pixel 61 29 = true := by
    decide +kernel
  have hpast : overdrawing.Executes [some 0xd, none, none, none] ∧
      ¬(overdrawing.currentRows = 0 ∨ overdrawing.index.toNat + overdrawing.currentRows ≤ 4096) ∧
      max overdrawing.index.toNat 4096 = 0x1000 ∧ overdrawing.spriteBit 7 0 = true ∧
      overdrawing.display.screen.pixel 7 0 = false ∧ overdrawing.spriteTop = 0 ∧ overdrawing.index.toNat = 0xFFF := by
    decide +kernel
  obtain ⟨hexecutes, hrows, hfits, hbit, hpixel⟩ := hover
  obtain ⟨hexecutes', hout, hmax, hbit', hpixel', htop, hindex⟩ := hpast
  obtain ⟨hdrawn, -⟩ := step_of_draw hexecutes 0
  obtain ⟨hpixels, hflag, -⟩ := hdrawn hfits
  obtain ⟨-, hstopped, -⟩ := step_of_draw hexecutes' 0
  obtain ⟨hstatus, hpixels', hregisters⟩ := hstopped hout
  refine ⟨⟨hexecutes, hrows, hflag.2 ⟨61, 29, hbit, hpixel⟩, ?_⟩, hexecutes', hmax ▸ hstatus, ?_, hregisters .flag⟩
  · rw [hpixels, hbit, hpixel]
    rfl
  · rw [hpixels', hbit', hpixel', htop, hindex]
    rfl

end Machine

end Chip8
