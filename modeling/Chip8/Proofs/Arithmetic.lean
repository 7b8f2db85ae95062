import Mathlib
import Chip8.Proofs.Words
/-!
# Arithmetic — results and flags, also where they share a register

An operator takes the values of two registers, puts its result into the first, and five of the nine then put a flag
into the last register, `VF`.  The two registers can be the same, and either can be `VF` itself.  Here the result and
the flag are told by equations between numbers, in which nothing is cut off (`Operator.sum_eq` and those beside it), and
what a step leaves in the registers is told from them, whichever registers it names (`arithmetic_of_step`).
-/
namespace Chip8

/-! ## Equations

The flag is what the byte of the result does not hold: the carry of a sum, or the bit that a half or a double loses.
The flag of a difference says that nothing was borrowed. -/

namespace Operator

variable (a b c : UInt8)

theorem sum_eq : a.toNat + b.toNat = 256 * (decide (256 ≤ a.toNat + b.toNat)).toNat + (a + b).toNat := by
  have ha : a.toNat < 256 := a.toNat_lt
  have hb : b.toNat < 256 := b.toNat_lt
  rw [UInt8.toNat_add]
  by_cases hcarry : 256 ≤ a.toNat + b.toNat
  · rw [decide_eq_true hcarry, Bool.toNat_true]
    omega
  · rw [decide_eq_false hcarry, Bool.toNat_false]
    omega

theorem difference_eq : a.toNat + 256 * (1 - (decide (b ≤ a)).toNat) = b.toNat + (a - b).toNat := by
  have ha : a.toNat < 256 := a.toNat_lt
  have hb : b.toNat < 256 := b.toNat_lt
  rw [UInt8.toNat_sub]
  by_cases hle : b ≤ a
  · have : b.toNat ≤ a.toNat := UInt8.le_iff_toNat_le.1 hle
    rw [decide_eq_true hle, Bool.toNat_true]
    omega
  · have : a.toNat < b.toNat := UInt8.not_le.1 hle
    rw [decide_eq_false hle, Bool.toNat_false]
    omega

theorem half_eq : c.toNat = 2 * (c / 2).toNat + (decide (c % 2 = 1)).toNat := by
  have hmod : (c % 2).toNat = c.toNat % 2 := UInt8.toNat_mod ..
  rw [UInt8.toNat_div]
  by_cases hodd : c % 2 = 1
  · have : c.toNat % 2 = 1 := hmod.symm.trans (congrArg UInt8.toNat hodd)
    rw [decide_eq_true hodd, Bool.toNat_true]
    show c.toNat = 2 * (c.toNat / 2) + 1
    omega
  · have : c.toNat % 2 ≠ 1 := fun h => hodd (UInt8.toNat_inj.1 (hmod.trans h))
    rw [decide_eq_false hodd, Bool.toNat_false]
    show c.toNat = 2 * (c.toNat / 2) + 0
    omega

theorem double_eq : 2 * c.toNat = 256 * (decide (128 ≤ c)).toNat + (c * 2).toNat := by
  have hc : c.toNat < 256 := c.toNat_lt
  have hdouble : (c * 2).toNat = c.toNat * 2 % 256 := UInt8.toNat_mul ..
  rw [hdouble]
  by_cases hhigh : 128 ≤ c
  · have : 128 ≤ c.toNat := UInt8.le_iff_toNat_le.1 hhigh
    rw [decide_eq_true hhigh, Bool.toNat_true]
    omega
  · have : c.toNat < 128 := UInt8.not_le.1 hhigh
    rw [decide_eq_false hhigh, Bool.toNat_false]
    omega

end Operator

namespace Machine

/-! ## The registers behind an operator -/

/-- The machine `after` has the result `r` in the register `VX` of the word that `m` executes, and the flag `f` in `VF`,
which goes before; the other registers are as they were. -/
structure SetsFlag (m after : Machine) (r f : Nat) : Prop where
  result_lt : r < 256
  flag_le : f ≤ 1
  flag : (after.register .flag).toNat = f
  result : m.currentX ≠ .flag → (after.register m.currentX).toNat = r
  others : ∀ j, j ≠ m.currentX → j ≠ .flag → after.register j = m.register j

/-- The machine `after` has the result `r` in the register `VX` of the word that `m` executes, and the other registers
are as they were. -/
structure SetsResult (m after : Machine) (r : Nat) : Prop where
  result : (after.register m.currentX).toNat = r
  others : ∀ j, j ≠ m.currentX → after.register j = m.register j

theorem register_combine_of_flag {m : Machine} {op : Operator} {x y : Register} {value : UInt8} {flag : Bool}
    (h : op.apply m.config.dialect.shift (m.register x) (m.register y) = (value, some flag)) (j : Register) :
    (m.combine op x y).register j = if .flag = j then flag.toUInt8 else if x = j then value else m.register j := by
  unfold combine
  rw [h]
  -- the flag goes over the result, if both go to one register
  show ((m.registers.write x value).write .flag flag.toUInt8).read j = _
  rw [Registers.read_write, Registers.read_write]
  rfl

theorem register_combine_of_no_flag {m : Machine} {op : Operator} {x y : Register} {value : UInt8}
    (h : op.apply m.config.dialect.shift (m.register x) (m.register y) = (value, none)) (j : Register) :
    (m.combine op x y).register j = if x = j then value else m.register j := by
  unfold combine
  rw [h]
  exact Registers.read_write ..

section

variable {m : Machine}

theorem upcoming?_of_operator {op : Operator} (h : m.Executes [some 0x8, none, none, some op.digit]) :
    m.upcoming? = some (.combine op m.currentX m.currentY) := by
  have hlast : m.currentWord.toNat % 0x10 = op.digit := (fits_iff.1 h.2.2).2.2.2 _ rfl
  have hop : Operator.ofNibble? op.digit = some op := by cases op <;> rfl
  refine upcoming?_eq_some_iff.2 ⟨h.2.1, ?_⟩
  unfold Instruction.decode?
  simp only [h.firstDigit, hlast, hop]
  rfl

theorem upcoming?_of_addByte (h : m.Executes [some 0x7, none, none, none]) :
    m.upcoming? = some (.addByte m.currentX (UInt8.ofNat m.currentWord.toNat)) := by
  refine upcoming?_eq_some_iff.2 ⟨h.2.1, ?_⟩
  unfold Instruction.decode?
  simp only [h.firstDigit]
  rfl

theorem register_of_operator {op : Operator} (h : m.Executes [some 0x8, none, none, some op.digit]) (ticks : Nat)
    (j : Register) : (m.step ticks).register j = (m.combine op m.currentX m.currentY).register j := by
  rw [step_eq_after h.1 (upcoming?_of_operator h)]
  show ((m.elapse ticks).combine op m.currentX m.currentY).register j = _
  -- an operator reads registers and the dialect, which are the same when the timers have run down
  unfold combine
  rw [show (m.elapse ticks).config = m.config from rfl, show (m.elapse ticks).register = m.register from rfl]
  split <;> rfl

/-- **An operator that sets the flag** writes it last. -/
theorem setsFlag_step (op : Operator) (h : m.Executes [some 0x8, none, none, some op.digit]) {value : UInt8}
    {flag : Bool}
    (happly : op.apply m.config.dialect.shift (m.register m.currentX) (m.register m.currentY) = (value, some flag))
    (ticks : Nat) : SetsFlag m (m.step ticks) value.toNat flag.toNat := by
  have hregister (j : Register) :=
    (register_of_operator h ticks j).trans (register_combine_of_flag happly j)
  exact {
    result_lt := value.toNat_lt
    flag_le := Bool.toNat_le flag
    flag := by
      rw [hregister, if_pos rfl]
      cases flag <;> rfl
    result := fun hx => by rw [hregister, if_neg hx.symm, if_pos rfl]
    others := fun j hx hf => by rw [hregister, if_neg hf.symm, if_neg hx.symm] }

theorem setsResult_step (op : Operator) (h : m.Executes [some 0x8, none, none, some op.digit]) {value : UInt8}
    (happly : op.apply m.config.dialect.shift (m.register m.currentX) (m.register m.currentY) = (value, none))
    (ticks : Nat) : SetsResult m (m.step ticks) value.toNat := by
  have hregister (j : Register) :=
    (register_of_operator h ticks j).trans (register_combine_of_no_flag happly j)
  exact {
    result := by rw [hregister, if_pos rfl]
    others := fun j hx => by rw [hregister, if_neg hx.symm] }

theorem setsResult_of_addByte (h : m.Executes [some 0x7, none, none, none]) (ticks : Nat) :
    SetsResult m (m.step ticks) (((m.register m.currentX).toNat + m.currentWord.toNat % 256) % 256) := by
  have hregister (j : Register) : (m.step ticks).register j =
      if m.currentX = j then m.register m.currentX + UInt8.ofNat m.currentWord.toNat else m.register j := by
    rw [step_eq_after h.1 (upcoming?_of_addByte h)]
    exact Registers.read_write ..
  exact {
    result := by rw [hregister, if_pos rfl, UInt8.toNat_add, UInt8.toNat_ofNat']
    others := fun j hx => by rw [hregister, if_neg hx.symm] }

end

theorem toNat_pick (shift : ShiftSource) (a b : UInt8) :
    (shift.pick a b).toNat = match shift with
      | .vy => b.toNat
      | .vx => a.toNat := by
  cases shift <;> rfl

/-- **Arithmetic, whichever registers it names.**  Let `a` and `b` be the values of `VX` and `VY` when a step executes
the word, and `c` the one of them that the machine's dialect shifts.  The operators with a flag leave a result and a
flag that satisfy their equation, the others and the addition of a byte a result only; so these leave `VF` alone unless
they name it. -/
theorem arithmetic_of_step (m : Machine) (ticks : Nat) :
    let after := m.step ticks
    let a := (m.register m.currentX).toNat
    let b := (m.register m.currentY).toNat
    let c := match m.config.dialect.shift with
      | .vy => b
      | .vx => a
    (m.Executes [some 0x8, none, none, some 0x4] → ∃ r f, SetsFlag m after r f ∧ a + b = 256 * f + r) ∧
    (m.Executes [some 0x8, none, none, some 0x5] → ∃ r f, SetsFlag m after r f ∧ a + 256 * (1 - f) = b + r) ∧
    (m.Executes [some 0x8, none, none, some 0x7] → ∃ r f, SetsFlag m after r f ∧ b + 256 * (1 - f) = a + r) ∧
    (m.Executes [some 0x8, none, none, some 0x6] → ∃ r f, SetsFlag m after r f ∧ c = 2 * r + f) ∧
    (m.Executes [some 0x8, none, none, some 0xe] → ∃ r f, SetsFlag m after r f ∧ 2 * c = 256 * f + r) ∧
    (m.Executes [some 0x8, none, none, some 0x0] → SetsResult m after b) ∧
    (m.Executes [some 0x8, none, none, some 0x1] → SetsResult m after (a ||| b)) ∧
    (m.Executes [some 0x8, none, none, some 0x2] → SetsResult m after (a &&& b)) ∧
    (m.Executes [some 0x8, none, none, some 0x3] → SetsResult m after (a ^^^ b)) ∧
    (m.Executes [some 0x7, none, none, none] → SetsResult m after ((a + m.currentWord.toNat % 256) % 256)) := by
  intro after a b c
  have hc : (m.config.dialect.shift.pick (m.register m.currentX) (m.register m.currentY)).toNat = c := toNat_pick ..
  refine ⟨fun h => ?add, fun h => ?sub, fun h => ?subFrom, fun h => ?shiftRight, fun h => ?shiftLeft, fun h => ?copy,
    fun h => ?or, fun h => ?and, fun h => ?xor, fun h => setsResult_of_addByte h ticks⟩
  case add => exact ⟨_, _, setsFlag_step .add h rfl ticks, Operator.sum_eq ..⟩
  case sub => exact ⟨_, _, setsFlag_step .sub h rfl ticks, Operator.difference_eq ..⟩
  case subFrom => exact ⟨_, _, setsFlag_step .subFrom h rfl ticks, Operator.difference_eq ..⟩
  case shiftRight => exact ⟨_, _, setsFlag_step .shiftRight h rfl ticks, hc ▸ Operator.half_eq _⟩
  case shiftLeft => exact ⟨_, _, setsFlag_step .shiftLeft h rfl ticks, hc ▸ Operator.double_eq _⟩
  case copy => exact setsResult_step .copy h rfl ticks
  case or => exact UInt8.toNat_or .. ▸ setsResult_step .or h rfl ticks
  case and => exact UInt8.toNat_and .. ▸ setsResult_step .and h rfl ticks
  case xor => exact UInt8.toNat_xor .. ▸ setsResult_step .xor h rfl ticks

/-- A machine that has taken this many steps of a program that doubles 200 in `VF`, takes `VF` from `V1`, and adds a
byte to `VF`. -/
def addingInFlag (steps : Nat) : Machine :=
  (build {} (Vector.replicate 8 0)).run
    (.load [0x6F, 0xC8, 0x8F, 0xF4, 0x81, 0xF5, 0x7F, 0xFF] :: List.replicate steps (.step 0))

/-- The carry takes the place of the sum, the difference from it borrows, and the byte is added without a carry. -/
theorem arithmetic_of_step_flag :
    ((addingInFlag 1).Executes [some 0x8, none, none, some 0x4] ∧
      (((addingInFlag 1).step 0).register .flag).toNat = 1) ∧
    ((addingInFlag 2).Executes [some 0x8, none, none, some 0x5] ∧
      (((addingInFlag 2).step 0).register 1).toNat = 255 ∧ (((addingInFlag 2).step 0).register .flag).toNat = 0) ∧
    ((addingInFlag 3).Executes [some 0x7, none, none, none] ∧
      (((addingInFlag 3).step 0).register .flag).toNat = 255) := by
  obtain ⟨hadd, hvalue, hvalue'⟩ : (addingInFlag 1).Executes [some 0x8, none, none, some 0x4] ∧
      (addingInFlag 1).register (addingInFlag 1).currentX = 200 ∧
      (addingInFlag 1).register (addingInFlag 1).currentY = 200 := by decide +kernel
  obtain ⟨hsub, hx, ha, hb⟩ : (addingInFlag 2).Executes [some 0x8, none, none, some 0x5] ∧
      (addingInFlag 2).currentX = 1 ∧ (addingInFlag 2).register (addingInFlag 2).currentX = 0 ∧
      (addingInFlag 2).register (addingInFlag 2).currentY = 1 := by decide +kernel
  obtain ⟨hbyte, hflag, hzero, hword⟩ : (addingInFlag 3).Executes [some 0x7, none, none, none] ∧
      (addingInFlag 3).currentX = .flag ∧ (addingInFlag 3).register (addingInFlag 3).currentX = 0 ∧
      (addingInFlag 3).currentWord.toNat % 256 = 255 := by decide +kernel
  obtain ⟨r, f, hsum, hequation⟩ := (arithmetic_of_step (addingInFlag 1) 0).1 hadd
  obtain ⟨r', f', hdifference, hequation'⟩ := (arithmetic_of_step (addingInFlag 2) 0).2.1 hsub
  obtain ⟨-, -, -, -, -, -, -, -, -, haddByte⟩ := arithmetic_of_step (addingInFlag 3) 0
  have hresult := (haddByte hbyte).result
  have hlt := hsum.result_lt
  have hlt' := hdifference.result_lt
  rw [hvalue, hvalue'] at hequation
  rw [ha, hb] at hequation'
  rw [hzero, hword, hflag] at hresult
  have hcarry : f = 1 := by
    have := hsum.flag_le
    have : 200 + 200 = 256 * f + r := hequation
    omega
  have hborrow : f' = 0 ∧ r' = 255 := by
    have := hdifference.flag_le
    have : 0 + 256 * (1 - f') = 1 + r' := hequation'
    omega
  refine ⟨⟨hadd, hsum.flag.trans hcarry⟩, ⟨hsub, ?_, hdifference.flag.trans hborrow.1⟩, hbyte, hresult⟩
  rw [← hx, hdifference.result (by rw [hx]; decide)]
  exact hborrow.2

end Machine

end Chip8
