import Mathlib
import Chip8.Proofs.Drawing
import Chip8.Proofs.Loading
import Chip8.Proofs.Provenance
/-!
# Glyphs — the digits of a font on the screen

A font is taken if it has eighty bytes.  Every load copies it to the start of memory, and there it stays as long as no
step writes to one of the first eighty addresses (`Machine.SparesFont`, `Machine.HoldsFont.run`).  `FX29` makes the
index the address of the digit in `VX`, and `DXY5` draws the five rows from the index on.  So what comes to the screen
is a digit of the font that the machine was built with (`glyph_of_history`).  The rows of the last digit end with the
last byte of the font; a larger number in `VX` has no digit, and leaves the index.
-/
namespace Chip8

/-! ## The font that a machine is built with -/

theorem Config.set_font_of_length {bytes : List UInt8} (h : bytes.length = 80) (c : Config) :
    ∃ font : Font, font.toList = bytes ∧ c.set (.font bytes) = .ok { c with font } := by
  have hfont : Font.ofBytes? bytes = .ok ⟨bytes.toArray, h⟩ := dif_pos h
  refine ⟨⟨bytes.toArray, h⟩, rfl, ?_⟩
  show (Font.ofBytes? bytes).map _ = _
  rw [hfont]
  rfl

theorem Config.set_font_of_length_ne {bytes : List UInt8} (h : bytes.length ≠ 80) (c : Config) :
    c.set (.font bytes) = .error ⟨bytes.length⟩ := by
  have hfont : Font.ofBytes? bytes = .error ⟨bytes.length⟩ := dif_neg h
  show (Font.ofBytes? bytes).map _ = _
  rw [hfont]
  rfl

/-- **The font is the one of the last setting that gives one.** -/
theorem Config.font_of_settings {config : Config} {settings : List Setting} (h : ofSettings settings = .ok config)
    {bytes : List UInt8} (hlast : Setting.last? Setting.font? settings = some bytes) : config.font.toList = bytes := by
  rw [(follows_ofSettings h).font, hlast, Option.getD_some]

/-- Whether a digit of a font has a bit in one of its rows, from the top, and in a column, from the left. -/
def glyphBit (bytes : List UInt8) (digit row column : Nat) : Bool :=
  bytes[5 * digit + row]?.any (·.toNat.testBit (7 - column))

namespace Machine

/-! ## The font in memory -/

/-- Whether the font stands at the start of memory. -/
def HoldsFont (m : Machine) (bytes : List UInt8) : Prop :=
  ∀ a < 80, m.memory[a]? = bytes[a]?

/-- Whether an operation of a machine writes to no address of the font: it is no step that executes `FX33` or `FX55`
and writes to one of them. -/
def SparesFont (m : Machine) (o : Operation) : Prop :=
  ∀ a < 80, m.given? a o = none

instance (m : Machine) (o : Operation) : Decidable (m.SparesFont o) :=
  inferInstanceAs (Decidable (∀ a < 80, _))

theorem holdsFont_load (m : Machine) (program : List UInt8) : (m.load program).HoldsFont m.config.font.toList := by
  intro a ha
  have hfits : (if program.length ≤ programCapacity then program else []).length ≤ programCapacity := by
    split
    · assumption
    · exact Nat.zero_le _
  rw [load_eq]
  show (Memory.image _ _)[a]? = _
  rw [getElem?_image _ hfits (Nat.lt_of_lt_of_le ha (by decide)), loadedByte, dif_pos ha, Vector.getElem?_toList,
    Vector.getElem?_eq_getElem ha]

section

variable {m : Machine} {bytes : List UInt8} (h : m.HoldsFont bytes)
include h

theorem HoldsFont.glyphBit_eq {digit row : Nat} (hlt : 5 * digit + row < 80) (column : Nat) :
    glyphBit bytes digit row column = (m.memory.byte (5 * digit + row)).toNat.testBit (7 - column) := by
  unfold glyphBit Memory.byte
  rw [← h _ hlt, Vector.getElem?_eq_getElem (Nat.lt_of_lt_of_le hlt (by decide)), Option.getD_some]
  rfl

theorem HoldsFont.perform {o : Operation} (ho : ∀ program, o ≠ .load program) (spares : m.SparesFont o) :
    (m.perform o).HoldsFont bytes := by
  intro a ha
  rw [getElem?_memory_perform m ho (Nat.lt_of_lt_of_le ha (by decide)), spares a ha, Option.none_or]
  exact h a ha

/-- **A history that spares the font** leaves it where it is. -/
theorem HoldsFont.run {history : List Operation} (hload : ∀ o ∈ history, ∀ program, o ≠ .load program)
    (spares : m.Each SparesFont history) : (m.run history).HoldsFont bytes := by
  induction history using List.reverseRecOn with
  | nil => exact h
  | append_singleton history o ih =>
    obtain ⟨hrest, ho⟩ := List.forall_mem_append.1 hload
    obtain ⟨hspares, hlast⟩ := each_concat.1 spares
    rw [run_concat]
    exact (ih hrest hspares).perform (ho o (List.mem_singleton_self o)) hlast

end

/-! ## The address of a digit -/

section

variable {m : Machine} (h : m.Executes [some 0xf, none, some 0x2, some 0x9]) (ticks : Nat)
include h

theorem step_of_fontGlyph_eq : m.step ticks = (m.elapse ticks).after (.fontGlyph m.currentX) :=
  step_eq_after h.1 (upcoming?_of_device h) ticks

/-- **The step that looks a digit up**: the index becomes its address, if there is such a digit. -/
theorem index_of_fontGlyph :
    (m.step ticks).index =
      if m.register m.currentX < 16 then UInt16.ofNat (5 * (m.register m.currentX).toNat) else m.index := by
  rw [step_of_fontGlyph_eq h]
  show ((m.elapse ticks).pointToGlyph m.currentX).index = _
  unfold pointToGlyph
  rw [apply_ite Machine.index]
  rfl

theorem memory_of_fontGlyph : (m.step ticks).memory = m.memory := by
  rw [step_of_fontGlyph_eq h]
  rfl

end

/-! ## The digit on the screen -/

/-- A step that draws a digit of a font: all its rows are read from memory, and only the end of memory behind its own
word can stop the machine; the pixels where the digit has a bit are inverted, as far as they lie on the screen, and no
other. -/
structure DrawsGlyph (m : Machine) (ticks : Nat) (bytes : List UInt8) (digit : Nat) : Prop where
  rows : m.index.toNat + 5 ≤ 4096
  status : (m.step ticks).status = if m.pc.toNat + 2 < 4096 then .ok else .halted (.outOfBounds (m.pc.toNat + 2))
  pixels : ∀ px py, (m.step ticks).display.screen.pixel px py = (m.display.screen.pixel px py ^^
    (decide (m.spriteLeft ≤ px ∧ px < min (m.spriteLeft + 8) 64) &&
      decide (m.spriteTop ≤ py ∧ py < min (m.spriteTop + 5) 32) &&
      glyphBit bytes digit (py - m.spriteTop) (px - m.spriteLeft)))

section

variable {m : Machine} (h : m.Executes [some 0xd, none, none, some 0x5])
include h

theorem executes_draw_of_five : m.Executes [some 0xd, none, none, none] := by
  obtain ⟨hd, -⟩ := fits_iff.1 h.2.2
  exact ⟨h.1, h.2.1, fits_iff.2 ⟨hd, nofun, nofun, nofun⟩⟩

theorem currentRows_of_five : m.currentRows = min 5 (32 - m.spriteTop) := by
  obtain ⟨-, -, -, hn⟩ := fits_iff.1 h.2.2
  unfold currentRows
  rw [hn 5 rfl]
  rfl

theorem spriteBit_of_font {bytes : List UInt8} (hfont : m.HoldsFont bytes) {digit : Nat} (hdigit : digit < 16)
    (hindex : m.index.toNat = 5 * digit) (px py : Nat) :
    m.spriteBit px py =
      (decide (m.spriteLeft ≤ px ∧ px < min (m.spriteLeft + 8) 64) &&
        decide (m.spriteTop ≤ py ∧ py < min (m.spriteTop + 5) 32) &&
        glyphBit bytes digit (py - m.spriteTop) (px - m.spriteLeft)) := by
  have htop : m.spriteTop < 32 := Nat.mod_lt _ (by decide)
  have hbottom : m.spriteTop + m.currentRows = min (m.spriteTop + 5) 32 := by
    rw [currentRows_of_five h]
    omega
  unfold spriteBit
  rw [hbottom, hindex]
  by_cases hrow : m.spriteTop ≤ py ∧ py < min (m.spriteTop + 5) 32
  · rw [hfont.glyphBit_eq (by omega)]
  · rw [decide_eq_false hrow, Bool.and_false, Bool.false_and, Bool.false_and]

/-- **A digit, drawn.** -/
theorem drawsGlyph {bytes : List UInt8} (hfont : m.HoldsFont bytes) {digit : Nat} (hdigit : digit < 16)
    (hindex : m.index.toNat = 5 * digit) (ticks : Nat) : m.DrawsGlyph ticks bytes digit where
  rows := by omega
  status := by
    have hfits : m.index.toNat + m.currentRows ≤ 4096 := by
      rw [currentRows_of_five h]
      omega
    rw [step_of_draw_eq (executes_draw_of_five h)]
    show ((blockFault? m.index m.currentRows).or (moveFault? m.pc 2)).elim m.status Status.halted = _
    rw [blockFault?_eq, if_pos (Or.inr hfits), Option.none_or, h.1]
    unfold moveFault?
    split <;> rfl
  pixels px py := by
    rw [pixel_of_draw (executes_draw_of_five h), spriteBit_of_font h hfont hdigit hindex]

end

/-- **What a font shows.**  Bytes are taken as a font if there are eighty, and otherwise refused with their number.  Let
a machine be built with them, and a program be loaded after anything else; and in no step since let `FX33` or `FX55`
have written to one of the first eighty addresses.  Then `FX29` makes the index five times the number in `VX`, if that
is a digit, and in any later state of such a run `DXY5` with this index draws that digit of the font.  If it is none,
`FX29` leaves the index. -/
theorem glyph_of_history (bytes : List UInt8) :
    (∀ c : Config,
      (bytes.length = 80 → ∃ font : Font, font.toList = bytes ∧ c.set (.font bytes) = .ok { c with font }) ∧
      (bytes.length ≠ 80 → c.set (.font bytes) = .error ⟨bytes.length⟩)) ∧
    ∀ (settings : List Setting) (config : Config), Config.ofSettings settings = .ok config →
      Setting.last? Setting.font? settings = some bytes →
      ∀ (entropy : Random.Key) (before : List Operation) (program : List UInt8) (history : List Operation),
        let loaded := ((build config entropy).run before).load program
        let m := loaded.run history
        (∀ o ∈ history, ∀ program, o ≠ .load program) → loaded.Each SparesFont history →
        m.Executes [some 0xf, none, some 0x2, some 0x9] → ∀ ticks,
          let digit := (m.register m.currentX).toNat
          let after := m.step ticks
          (digit < 16 → after.index.toNat = 5 * digit ∧
            ∀ later : List Operation, (∀ o ∈ later, ∀ program, o ≠ .load program) → after.Each SparesFont later →
              let n := after.run later
              n.index = after.index → n.Executes [some 0xd, none, none, some 0x5] →
              ∀ ticks', n.DrawsGlyph ticks' bytes digit) ∧
          (16 ≤ digit → after.index = m.index) := by
  refine ⟨fun c => ⟨fun h => c.set_font_of_length h, fun h => c.set_font_of_length_ne h⟩, ?_⟩
  intro settings config hconfig hlast entropy before program history loaded m hload hspares hlooks ticks digit after
  have hloaded : loaded.HoldsFont bytes := by
    have hheld := holdsFont_load ((build config entropy).run before) program
    rwa [config_run, show (build config entropy).config = config from rfl,
      Config.font_of_settings hconfig hlast] at hheld
  have hfont : m.HoldsFont bytes := hloaded.run hload hspares
  have hindex : after.index = _ := index_of_fontGlyph hlooks ticks
  constructor
  · intro hdigit
    have hat : after.index.toNat = 5 * digit := by
      rw [hindex, if_pos (UInt8.lt_iff_toNat_lt.2 hdigit), UInt16.toNat_ofNat_of_lt' (by show 5 * digit < 65536; omega)]
    have hafter : after.HoldsFont bytes := fun a ha => by
      rw [show after.memory = m.memory from memory_of_fontGlyph hlooks ticks]
      exact hfont a ha
    refine ⟨hat, ?_⟩
    intro later hload' hspares' n hn hdraws ticks'
    exact drawsGlyph hdraws (hafter.run hload' hspares') hdigit (by rw [hn, hat]) ticks'
  · intro hlarge
    rw [hindex, if_neg (by rw [UInt8.lt_iff_toNat_lt]; exact Nat.not_lt.2 hlarge)]

/-- The standard font upside down: its last digit is the zero. -/
def backwardFont : Font :=
  ⟨Font.standard.toList.reverse.toArray, by rfl⟩

/-- A machine with that font, and a program that draws the digit `F` into the lower right corner of the screen and then
looks up a digit sixteen. -/
def drawingBackward : Machine :=
  (build { font := backwardFont, seed := some 1 } (Vector.replicate 8 0)).load
    [0x60, 0x0F, 0x61, 0x3D, 0xF0, 0x29, 0xD1, 0x15, 0x60, 0x10, 0xF0, 0x29]

/-- The last glyph of that font begins at 75.  Of its upper rows, which are those of a zero, the corner has room for
three columns. -/
theorem glyph_of_history_backward :
    let looking := drawingBackward.run [.step 0, .step 0]
    let drawing := looking.step 0
    let beyond := drawingBackward.run [.step 0, .step 0, .step 0, .step 0, .step 0]
    (∀ c : Config, c.set (.font [0xF0, 0x90, 0x90]) = .error ⟨3⟩) ∧
    drawing.index.toNat = 75 ∧ (drawing.step 0).status = .ok ∧
    (drawing.step 0).display.screen.pixel 63 29 = true ∧ (drawing.step 0).display.screen.pixel 62 30 = false ∧
    (beyond.step 0).index = beyond.index := by
  intro looking drawing beyond
  have hsettings : Config.ofSettings [.font backwardFont.toList, .seed 1] =
      .ok { font := backwardFont, seed := some 1 } := by rfl
  obtain ⟨hspares, hlooks, hdigit⟩ : drawingBackward.Each SparesFont [.step 0, .step 0] ∧
      looking.Executes [some 0xf, none, some 0x2, some 0x9] ∧
      (looking.register looking.currentX).toNat = 15 := by decide +kernel
  obtain ⟨hspares', hlooks', hdigit'⟩ :
      drawingBackward.Each SparesFont [.step 0, .step 0, .step 0, .step 0, .step 0] ∧
      beyond.Executes [some 0xf, none, some 0x2, some 0x9] ∧
      (beyond.register beyond.currentX).toNat = 16 := by decide +kernel
  obtain ⟨hdraws, hgoes, hleft, htop, hoff⟩ : drawing.Executes [some 0xd, none, none, some 0x5] ∧
      drawing.pc.toNat + 2 < 4096 ∧ drawing.spriteLeft = 61 ∧ drawing.spriteTop = 29 ∧
      (drawing.display.screen.pixel 63 29 = false ∧ drawing.display.screen.pixel 62 30 = false) := by decide +kernel
  have hbits : glyphBit backwardFont.toList 15 0 2 = true ∧ glyphBit backwardFont.toList 15 1 1 = false := by
    decide +kernel
  have hrefused (c : Config) : c.set (.font [0xF0, 0x90, 0x90]) = .error ⟨3⟩ :=
    ((glyph_of_history [0xF0, 0x90, 0x90]).1 c).2 (by decide)
  have hruns := (glyph_of_history backwardFont.toList).2 _ _ hsettings rfl (Vector.replicate 8 0) []
    [0x60, 0x0F, 0x61, 0x3D, 0xF0, 0x29, 0xD1, 0x15, 0x60, 0x10, 0xF0, 0x29]
  obtain ⟨hindex, hglyph⟩ := (hruns [.step 0, .step 0] (by simp) hspares hlooks 0).1 (hdigit.trans_lt (by decide))
  have hdrawn : drawing.DrawsGlyph 0 backwardFont.toList (looking.register looking.currentX).toNat :=
    hglyph [] nofun trivial (congrArg index (run_nil drawing)) hdraws 0
  rw [hdigit] at hdrawn
  have hlarge := (hruns [.step 0, .step 0, .step 0, .step 0, .step 0] (by simp) hspares' hlooks' 0).2 hdigit'.ge
  refine ⟨hrefused, hindex.trans (congrArg (5 * ·) hdigit), hdrawn.status.trans (if_pos hgoes), ?_, ?_, hlarge⟩
  · rw [hdrawn.pixels, hoff.1, hleft, htop, hbits.1]
    rfl
  · rw [hdrawn.pixels, hoff.2, hleft, htop, hbits.2]
    rfl

end Machine

end Chip8
