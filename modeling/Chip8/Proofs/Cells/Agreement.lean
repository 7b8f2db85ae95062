import Mathlib
import Chip8.Proofs.Cells.Basic
import Chip8.Proofs.Execution
/-!
# Agreement — which machine the cells are

Cells represent a machine when each part of the one is a view of the same part of the other: arrays of the same
values, return addresses that are the open calls in the order of their opening, and a screen whose pixel in column `x`
of row `y` stands in cell `64 y + x`.  What is said of the places for return addresses stops at `depth`; what stands
in those behind it does not matter to any machine.

An instruction on cells agrees with one on the machine when it has a result, with the same fault and with cells that
represent the machine after it.  The lemmas here say so of the parts that instructions are made of.
-/
namespace Chip8

/-! ## Cells of arrays -/

theorem less?_eq {a b : Nat} (h : b ≤ a) : less? a b = some (a - b) := if_pos h

theorem fit?_eq {limit n : Nat} (h : n < limit) : fit? limit n = some n := if_pos h

theorem put?_toArray {α : Type} {n : Nat} (v : Vector α n) {i : Nat} (h : i < n) (a : α) :
    put? v.toArray i a = some (v.set i a h).toArray := by
  have hs : i < v.toArray.size := by rw [v.size_toArray]; exact h
  unfold put?
  rw [dif_pos hs]
  rfl

theorem put?_eq {α : Type} {a : Array α} {i : Nat} (h : i < a.size) (v : α) :
    put? a i v = some (a.setIfInBounds i v) := by
  unfold put?
  rw [dif_pos h, Array.setIfInBounds_def, dif_pos h]

theorem pixelCell_lt {x y : Nat} (hx : x < screenWidth) (hy : y < screenHeight) :
    y * screenWidth + x < screenWidth * screenHeight := by
  have hx : x < 64 := hx
  have hy : y < 32 := hy
  show y * 64 + x < 64 * 32
  omega

/-- **Two pixels never share a cell.** -/
theorem pixelCell_inj {x y x' y' : Nat} (hx : x < screenWidth) (hx' : x' < screenWidth) :
    y * screenWidth + x = y' * screenWidth + x' ↔ x = x' ∧ y = y' := by
  have hx : x < 64 := hx
  have hx' : x' < 64 := hx'
  show y * 64 + x = y' * 64 + x' ↔ _
  omega

def KeyWait.held? : KeyWait → Option UInt8
  | .idle => none
  | .awaiting key => some (UInt8.ofNat key.val)

namespace Cells

/-- The pixels are those of a picture, row after row. -/
structure Shows (pixels : Array Bool) (picture : Nat → Nat → Bool) : Prop where
  size : pixels.size = screenWidth * screenHeight
  pixel : ∀ x y, x < screenWidth → y < screenHeight → pixels[y * screenWidth + x]? = some (picture x y)

theorem shows_blank : Shows (Array.replicate (screenWidth * screenHeight) false) Screen.blank.pixel where
  size := Array.size_replicate
  pixel x y hx hy := by rw [Screen.pixel_blank, Array.getElem?_replicate, if_pos (pixelCell_lt hx hy)]

theorem Shows.clear {pixels : Array Bool} {picture : Nat → Nat → Bool} (h : Shows pixels picture) :
    Shows (pixels.map fun _ => false) Screen.blank.pixel := by
  rw [Array.map_const', h.size]
  exact shows_blank

/-- The cells are those of a machine. -/
structure Represents (r : Cells) (m : Machine) : Prop where
  config : r.config = m.config
  registers : r.registers = m.registers.toArray
  index : r.index = m.index
  pc : r.pc = m.pc
  slots : r.slots.size = stackLimit
  depth : r.depth.toNat = m.stack.length
  calls : ∀ i < m.stack.length, r.slots[i]? = m.stack.reverse[i]?
  timers : r.timers = m.timers
  memory : r.memory = m.memory.toArray
  pixels : Shows r.pixels m.display.screen.pixel
  dirty : r.dirty = m.display.dirty
  keys : r.keys = m.keypad.toArray
  held : r.held = m.keyWait.held?
  status : r.status = m.status
  generator : r.generator = m.generator

/-- An instruction on cells has the result that the instruction has on the machine. -/
def Agrees (result? : Option Result) (o : Outcome) : Prop :=
  ∃ r, result? = some ⟨r, o.fault⟩ ∧ r.Represents o.machine

section

variable {r : Cells} {m : Machine} (h : r.Represents m)
include h

/-! ## Registers and keys -/

theorem register?_eq (x : Register) : r.register? x = some (m.register x) := by
  unfold register?
  rw [h.registers, Vector.getElem?_toArray]
  exact Vector.getElem?_eq_getElem x.isLt

theorem setRegister?_eq (x : Register) (v : UInt8) :
    r.setRegister? x v = some { r with registers := (m.setRegister x v).registers.toArray } := by
  unfold setRegister?
  rw [h.registers, put?_toArray m.registers x.isLt v]
  rfl

theorem represents_setRegister (x : Register) (v : UInt8) :
    Represents { r with registers := (m.setRegister x v).registers.toArray } (m.setRegister x v) :=
  { h with registers := rfl }

theorem isDown_eq (key : UInt8) : r.isDown key = m.keypad.isDown key := by
  unfold isDown Keypad.isDown
  rw [h.keys, Vector.getElem?_toArray]

/-! ## Moving on, calls and returns -/

theorem agrees_advance (distance : Nat) (hd : distance ≤ 4) : Agrees (r.advance? distance) (m.advance distance) := by
  have hpc : m.pc.toNat < 65536 := m.pc.toNat_lt
  unfold advance? Machine.advance
  rw [h.pc, fit?_eq (show m.pc.toNat + distance < indexLimit by unfold indexLimit; omega)]
  by_cases hn : m.pc.toNat + distance < memorySize
  · simp only [hn, ↓reduceIte, Option.bind_eq_bind, Option.bind_some,
      fit?_eq (Nat.lt_trans hn (show memorySize < wordLimit by decide))]
    exact ⟨_, rfl, { h with pc := rfl }⟩
  · simp only [hn, ↓reduceIte, Option.bind_eq_bind, Option.bind_some]
    exact ⟨_, rfl, h⟩

theorem calls_push (hl : m.stack.length < stackLimit) : ∀ i < (m.pc :: m.stack).length,
    (r.slots.setIfInBounds m.stack.length r.pc)[i]? = (m.pc :: m.stack).reverse[i]? := by
  intro i hi
  rw [List.reverse_cons]
  by_cases he : i = m.stack.length
  · subst he
    rw [Array.getElem?_setIfInBounds_self_of_lt (by rw [h.slots]; exact hl), List.getElem?_append_right (by simp), h.pc]
    simp
  · have hi : i < m.stack.length := by
      rw [List.length_cons] at hi
      omega
    rw [Array.getElem?_setIfInBounds_ne (Ne.symm he), List.getElem?_append_left (by simpa using hi), h.calls i hi]

theorem agrees_call (nnn : Address) : Agrees (r.call? nnn) (m.call nnn) := by
  unfold call? Machine.call
  rw [h.depth]
  by_cases hl : m.stack.length < stackLimit
  · have hslot : m.stack.length < r.slots.size := by rw [h.slots]; exact hl
    have hbyte : m.stack.length + 1 < byteLimit := Nat.lt_of_le_of_lt hl (by decide)
    rw [if_neg (Nat.not_le.2 hl), if_pos hl, put?_eq hslot, fit?_eq hbyte]
    refine ⟨_, rfl, { h with pc := rfl, slots := ?_, depth := ?_, calls := calls_push h hl }⟩
    · rw [Array.size_setIfInBounds]; exact h.slots
    · exact UInt8.toNat_ofNat_of_lt' hbyte
  · rw [if_pos (Nat.not_lt.1 hl), if_neg hl]
    exact ⟨_, rfl, h⟩

theorem agrees_returnFromCall (hd : m.stack.length ≤ stackLimit) : Agrees r.returnFromCall? m.returnFromCall := by
  have hdepth := h.depth
  have hcalls := h.calls
  unfold returnFromCall? Machine.returnFromCall
  cases hs : m.stack with
  | nil =>
    rw [hs, List.length_nil] at hdepth
    rw [if_pos hdepth]
    exact ⟨_, rfl, h⟩
  | cons caller stack =>
    rw [hs, List.length_cons] at hdepth hcalls hd
    have hslot : r.slots[stack.length]? = some caller := by
      rw [hcalls _ (Nat.lt_succ_self _), List.reverse_cons, List.getElem?_append_right (by simp)]
      simp
    rw [if_neg (by omega), hdepth, less?_eq (Nat.le_add_left 1 _), Nat.add_sub_cancel]
    simp only [Option.bind_eq_bind, Option.bind_some, hslot]
    have hr : Represents { r with depth := UInt8.ofNat stack.length, pc := caller }
        { m with pc := caller, stack } := by
      refine { h with pc := rfl, depth := ?_, calls := fun i hi => ?_ }
      · exact UInt8.toNat_ofNat_of_lt' (Nat.lt_of_lt_of_le hd (by decide))
      · rw [hcalls i (Nat.lt_succ_of_lt hi), List.reverse_cons, List.getElem?_append_left (by simpa using hi)]
    exact agrees_advance hr 2 (by decide)

end

end Cells

end Chip8
