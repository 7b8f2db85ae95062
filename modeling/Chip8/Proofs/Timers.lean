import Mathlib
import Chip8.Proofs.Invariant
/-!
# Timers — what a step does to the counters and to the tone

The counters run down at the start of a step, before a word is read, and its instruction finds them as they are then.
Three instructions write to them: two set a counter, and the wait for a key holds the sound counter while the tone
plays.  `timers_step` says so for a whole step, and operations that are neither steps nor loads leave the timers alone.
-/
namespace Chip8
namespace Timers

theorem countDown_ne_zero_iff (counter : UInt8) (ticks : Nat) : countDown counter ticks ≠ 0 ↔ ticks < counter.toNat := by
  rw [ne_eq, ← UInt8.toNat_inj, toNat_countDown]
  show ¬counter.toNat - ticks = 0 ↔ _
  omega

theorem tone_elapse (t : Timers) (ticks : Nat) : (t.elapse ticks).tone = (t.tone && decide (ticks < t.sound.toNat)) := by
  show (t.tone && countDown t.sound ticks != 0) = _
  congr 1
  rw [Bool.eq_iff_iff, bne_iff_ne, decide_eq_true_eq]
  exact countDown_ne_zero_iff t.sound ticks

end Timers

@[simp] theorem Outcome.settled_timers (o : Outcome) : o.settled.timers = o.machine.timers := by
  unfold settled
  cases o.fault <;> rfl

namespace Machine

def timersAfter (m : Machine) : Instruction → Timers
  | .waitKey _ =>
    match m.keyWait with
    | .idle => if m.keypad.firstDown?.isSome then m.timers.start else m.timers
    | .awaiting key => if m.keypad.holds key then m.timers.hold else m.timers.silence
  | .setDelay x => { m.timers with delay := m.register x }
  | .setSound x => m.timers.setSound (m.register x)
  | _ => m.timers

theorem delay_timersAfter {m : Machine} {i : Instruction} (hi : ∀ x, i ≠ .setDelay x) :
    (m.timersAfter i).delay = m.timers.delay := by
  cases i with
  | setDelay x => exact absurd rfl (hi x)
  | waitKey x =>
    unfold timersAfter
    cases m.keyWait with
    | idle => simp only; split <;> rfl
    | awaiting key => simp only; split <;> rfl
  | _ => rfl

theorem timersAfter_eq {m : Machine} {i : Instruction} (hset : ∀ x, i ≠ .setSound x)
    (hwait : ∀ x, i ≠ .waitKey x) : m.timersAfter i = { m.timers with delay := (m.timersAfter i).delay } := by
  cases i with
  | setSound x => exact absurd rfl (hset x)
  | waitKey x => exact absurd rfl (hwait x)
  | _ => rfl

theorem timers_advance (m : Machine) (distance : Nat) : (m.advance distance).machine.timers = m.timers := by
  rw [advance_eq]

theorem timers_next (m : Machine) : m.next.machine.timers = m.timers :=
  timers_advance m 2

theorem timers_ifBlockFits (m : Machine) (n : Nat) (work : Machine → Machine) (h : (work m).timers = m.timers) :
    (m.ifBlockFits n fun m => (work m).next).machine.timers = m.timers := by
  rw [ifBlockFits_eq]
  cases blockFault? m.index n with
  | some fault => rfl
  | none => rw [timers_next, h]

theorem timers_afterTransfer (m : Machine) (x : Register) : (m.afterTransfer x).machine.timers = m.timers := by
  refine timers_ifBlockFits m _ (·.passBlock (x.val + 1)) ?_
  obtain ⟨index, h⟩ := passBlock_eq m (x.val + 1)
  rw [h]

theorem timers_waitKey (m : Machine) (x : Register) : (m.waitKey x).machine.timers = m.timersAfter (.waitKey x) := by
  unfold timersAfter
  cases hw : m.keyWait with
  | idle =>
    cases hd : m.keypad.firstDown? with
    | none => rw [waitKey_of_none_down hw hd]; rfl
    | some key => rw [waitKey_of_down hw hd]; rfl
  | awaiting key =>
    cases hk : m.keypad.holds key with
    | true => rw [waitKey_of_held hw hk]; simp only [hk, ↓reduceIte]
    | false =>
      rw [waitKey_of_released hw hk, timers_next]
      simp only [hk, Bool.false_eq_true, ↓reduceIte]

/-- **What an instruction does to the timers**, whether it meets a fault or not. -/
theorem timers_execute (m : Machine) (i : Instruction) : (m.execute i).machine.timers = m.timersAfter i := by
  cases i with
  | machineRoutine nnn => rfl
  | returnFromCall =>
    show m.returnFromCall.machine.timers = m.timers
    unfold returnFromCall
    cases m.stack with
    | nil => rfl
    | cons caller stack => exact timers_next _
  | jump nnn => rfl
  | call nnn =>
    show (m.call nnn).machine.timers = m.timers
    unfold call
    split <;> rfl
  | jumpOffset nnn => rfl
  | skip condition => exact timers_advance m _
  | combine op x y =>
    obtain ⟨registers, h⟩ := combine_eq m op x y
    show (m.combine op x y).next.machine.timers = m.timers
    rw [timers_next, h]
  | draw x y n =>
    exact timers_ifBlockFits { m with display := m.display.draw (m.spriteMask x y n) } (m.visibleRows y n)
      (·.setRegister .flag (m.display.screen.meets (m.spriteMask x y n)).toUInt8) rfl
  | waitKey x => exact timers_waitKey m x
  | fontGlyph x =>
    obtain ⟨index, h⟩ := pointToGlyph_eq m x
    show (m.pointToGlyph x).next.machine.timers = m.timers
    rw [timers_next, h]
  | storeDecimal x => exact timers_ifBlockFits (m.storeAtIndex (decimalDigits (m.register x))) 3 id rfl
  | storeRegisters x => exact timers_afterTransfer _ x
  | loadRegisters x => exact timers_afterTransfer _ x
  | _ => exact timers_next _

/-- **What a step does to the timers**: they run down, and the instruction that it executes finds them so. -/
theorem timers_step {m : Machine} (ok : m.status = .ok) (ticks : Nat) :
    (m.step ticks).timers = m.upcoming?.elim (m.timers.elapse ticks) (m.elapse ticks).timersAfter := by
  cases hu : m.upcoming? with
  | none =>
    obtain ⟨fault, hs⟩ := step_of_upcoming?_eq_none ok hu ticks
    rw [hs]
    rfl
  | some i =>
    rw [step_of_upcoming? ok hu, Outcome.settled_timers, timers_execute]
    rfl

theorem timers_load (m : Machine) (program : List UInt8) : (m.load program).timers = {} := by
  rw [load_eq]
  rfl

end Machine

end Chip8
