import Mathlib
import Chip8.Proofs.Tone
import Chip8.Proofs.Words
/-!
# Elapsed — timers depend on the time that has passed, and on nothing else of it

A step lets any number of ticks pass, and a counter loses no more than it has.  How the ticks come in steps makes no
difference: letting some pass and then others is letting their sum pass (`Timers.elapse_elapse`).  So a counter that no
instruction writes to shows how much time has passed since, whatever else is executed and whether the last step stops
the machine or not, and so does the tone (`timers_of_elapsed`).  Only a tone without a counter that runs is cut off by a
step of no tick at all, and a program has to set the counter to zero while the tone plays to get there.
-/
namespace Chip8

/-- The ticks that an operation lets pass. -/
def Operation.ticks : Operation → Nat
  | .step ticks => ticks
  | _ => 0

/-- The ticks that a history lets pass. -/
def elapsed (history : List Operation) : Nat :=
  (history.map Operation.ticks).sum

theorem elapsed_cons (o : Operation) (history : List Operation) :
    elapsed (o :: history) = o.ticks + elapsed history := by
  unfold elapsed
  rw [List.map_cons, List.sum_cons]

namespace Timers

theorem countDown_countDown (counter : UInt8) (a b : Nat) :
    countDown (countDown counter a) b = countDown counter (a + b) := by
  rw [← UInt8.toNat_inj, toNat_countDown, toNat_countDown, toNat_countDown, Nat.sub_sub]

theorem countDown_zero (counter : UInt8) : countDown counter 0 = counter := by
  rw [← UInt8.toNat_inj, toNat_countDown, Nat.sub_zero]

/-- **Letting some ticks pass and then others is letting their sum pass.** -/
theorem elapse_elapse (t : Timers) (a b : Nat) : (t.elapse a).elapse b = t.elapse (a + b) := by
  have htone : ((t.elapse a).elapse b).tone = (t.elapse (a + b)).tone := by
    rw [tone_elapse, tone_elapse, tone_elapse, Bool.and_assoc]
    congr 1
    rw [show (t.elapse a).sound.toNat = t.sound.toNat - a from toNat_countDown t.sound a, ← Bool.decide_and]
    exact decide_eq_decide.2 (by omega)
  show Timers.mk _ _ ((t.elapse a).elapse b).tone = Timers.mk _ _ (t.elapse (a + b)).tone
  rw [htone, mk.injEq]
  exact ⟨countDown_countDown t.delay a b, countDown_countDown t.sound a b, rfl⟩

theorem elapse_zero {t : Timers} (h : ¬t.Stray) : t.elapse 0 = t := by
  have htone : (t.elapse 0).tone = t.tone := by
    rw [not_stray_iff] at h
    rw [tone_elapse]
    cases ht : t.tone with
    | false => rfl
    | true => exact decide_eq_true (UInt8.lt_iff_toNat_lt.1 (h ht))
  show Timers.mk _ _ (t.elapse 0).tone = t
  rw [htone, countDown_zero, countDown_zero]

end Timers

namespace Pattern

/-- `FX15`. -/
abbrev setsDelay : Pattern := [some 0xf, none, some 0x1, some 0x5]

/-- `FX18`. -/
abbrev setsSound : Pattern := [some 0xf, none, some 0x1, some 0x8]

/-- `FX0A`. -/
abbrev waitsForKey : Pattern := [some 0xf, none, some 0x0, some 0xa]

end Pattern

open Pattern

namespace Machine

/-- Whether an operation goes on with a program and executes no word that fits one of these patterns: it is no load, and
if it is a step, the machine runs. -/
def Continues (avoided : List Pattern) (m : Machine) : Operation → Prop
  | .load _ => False
  | .step _ => m.status = .ok ∧ ∀ pattern ∈ avoided, ¬m.Executes pattern
  | _ => True

instance (avoided : List Pattern) (m : Machine) : (o : Operation) → Decidable (m.Continues avoided o)
  | .load _ => inferInstanceAs (Decidable False)
  | .step _ => inferInstanceAs (Decidable (_ ∧ _))
  | .keyDown _ | .keyUp _ | .takeDirty => inferInstanceAs (Decidable True)

/-! ## One operation -/

section

variable {m : Machine} {o : Operation} {avoided : List Pattern}

/-- **The delay counter after an operation** that does not set it. -/
theorem Continues.delay_perform (h : m.Continues avoided o) (hset : setsDelay ∈ avoided) :
    (m.perform o).timers.delay = (m.timers.elapse o.ticks).delay := by
  cases o with
  | load program => exact h.elim
  | step ticks =>
    obtain ⟨ok, havoids⟩ := h
    rw [perform_step, timers_step ok]
    cases hu : m.upcoming? with
    | none => rfl
    | some i =>
      refine delay_timersAfter (m := m.elapse ticks) ?_
      rintro x rfl
      exact havoids _ hset ((executes_iff ok hu).2 rfl)
  | _ => exact (Timers.countDown_zero m.timers.delay).symm

/-- **Sound counter and tone after an operation** that neither sets the counter nor waits for a key. -/
theorem Continues.sound_perform (h : m.Continues avoided o) (hset : setsSound ∈ avoided) (hwait : waitsForKey ∈ avoided)
    (hm : ¬m.timers.Stray) :
    (m.perform o).timers = { m.timers.elapse o.ticks with delay := (m.perform o).timers.delay } := by
  cases o with
  | load program => exact h.elim
  | step ticks =>
    obtain ⟨ok, havoids⟩ := h
    rw [perform_step, timers_step ok]
    cases hu : m.upcoming? with
    | none => rfl
    | some i =>
      refine timersAfter_eq (m := m.elapse ticks) ?_ ?_
      · rintro x rfl
        exact havoids _ hset ((executes_iff ok hu).2 rfl)
      · rintro x rfl
        exact havoids _ hwait ((executes_iff ok hu).2 rfl)
  | _ =>
    show m.timers = { m.timers.elapse 0 with delay := m.timers.delay }
    rw [Timers.elapse_zero hm]

/-! ## Histories -/

theorem delay_run {history : List Operation} (h : m.Each (Continues avoided) history) (hset : setsDelay ∈ avoided) :
    (m.run history).timers.delay = (m.timers.elapse (elapsed history)).delay := by
  induction history generalizing m with
  | nil => exact (Timers.countDown_zero m.timers.delay).symm
  | cons o history ih =>
    have hrest : ((m.perform o).run history).timers.delay =
        Timers.countDown (m.perform o).timers.delay (elapsed history) := ih h.2
    rw [run_cons, hrest, h.1.delay_perform hset, elapsed_cons]
    exact Timers.countDown_countDown m.timers.delay o.ticks (elapsed history)

theorem sound_run {history : List Operation} (h : m.Each (Continues avoided) history) (hset : setsSound ∈ avoided)
    (hwait : waitsForKey ∈ avoided) (hm : ¬m.timers.Stray) :
    (m.run history).timers = { m.timers.elapse (elapsed history) with delay := (m.run history).timers.delay } := by
  induction history generalizing m with
  | nil =>
    show m.timers = { m.timers.elapse 0 with delay := m.timers.delay }
    rw [Timers.elapse_zero hm]
  | cons o history ih =>
    have hstep := h.1.sound_perform hset hwait hm
    have hnext : ¬(m.perform o).timers.Stray := by
      rw [hstep]
      exact m.timers.not_stray_elapse o.ticks
    rw [run_cons, ih h.2 hnext, hstep, elapsed_cons, ← Timers.elapse_elapse]
    rfl

end

/-! ## From a step that sets the sound counter -/

theorem timers_step_of_setsSound {m : Machine} (h : m.Executes setsSound) (ticks : Nat) :
    (m.step ticks).timers = (m.timers.elapse ticks).setSound (m.register m.currentX) := by
  rw [timers_step h.1, upcoming?_of_device h]
  rfl

section

variable {m : Machine} {ticks : Nat} (hset : m.Executes setsSound)
  (hclear : leastAudible ≤ m.register m.currentX ∨ (m.timers.elapse ticks).tone = false)
include hset hclear

theorem not_stray_of_setsSound : ¬(m.step ticks).timers.Stray := by
  rw [timers_step_of_setsSound hset, Timers.stray_setSound_iff]
  rintro ⟨htone, hzero⟩
  rcases hclear with haudible | hoff
  · rw [hzero] at haudible
    exact absurd haudible (by decide)
  · exact Bool.false_ne_true (hoff.symm.trans htone)

theorem tone_of_setsSound : (m.step ticks).timers.tone = decide (leastAudible ≤ m.register m.currentX) := by
  rw [timers_step_of_setsSound hset]
  show ((m.timers.elapse ticks).tone || _) = _
  rcases hclear with haudible | hoff
  · rw [decide_eq_true haudible, Bool.or_true]
  · rw [hoff, Bool.false_or]

theorem sound_since_setsSound {avoided : List Pattern} {history : List Operation}
    (h : (m.step ticks).Each (Continues avoided) history) (hsound : setsSound ∈ avoided)
    (hwait : waitsForKey ∈ avoided) :
    ((m.step ticks).run history).timers.sound.toNat = (m.register m.currentX).toNat - elapsed history ∧
      (((m.step ticks).run history).timers.tone = true ↔
        leastAudible ≤ m.register m.currentX ∧ elapsed history < (m.register m.currentX).toNat) := by
  have hvalue : (m.step ticks).timers.sound = m.register m.currentX := by
    rw [timers_step_of_setsSound hset]
    rfl
  rw [sound_run h hsound hwait (not_stray_of_setsSound hset hclear)]
  refine ⟨(Timers.toNat_countDown ..).trans (by rw [hvalue]), ?_⟩
  show ((m.step ticks).timers.elapse (elapsed history)).tone = true ↔ _
  rw [Timers.tone_elapse, hvalue, tone_of_setsSound hset hclear, Bool.and_eq_true, decide_eq_true_eq, decide_eq_true_eq]

end

/-- **Timers depend on the time that has passed, and not on how it came.**  Going on with a program lets any ticks pass
at each step, and `elapsed` is the sum of them all.  If no step executes an `FX15`, the delay counter loses that sum and
stops at zero.  Behind an `FX18` of a value that can be heard, or of any value while the tone is off, and as long as no
step executes another one or an `FX0A`, the sound counter is the value less the sum, and the tone plays exactly if the
value can be heard and is more than the sum.  So two ways to go on from there that take the same time, and write to no
timer, end with the same timers. -/
theorem timers_of_elapsed (m : Machine) :
    (∀ history, m.Each (Continues [setsDelay]) history →
      (m.run history).timers.delay.toNat = m.timers.delay.toNat - elapsed history) ∧
    ∀ ticks, m.Executes setsSound →
      let v := m.register m.currentX
      let n := m.step ticks
      2 ≤ v ∨ (m.timers.elapse ticks).tone = false →
      (∀ history, n.Each (Continues [setsSound, waitsForKey]) history →
        (n.run history).timers.sound.toNat = v.toNat - elapsed history ∧
        ((n.run history).timers.tone = true ↔ 2 ≤ v ∧ elapsed history < v.toNat)) ∧
      ∀ h₁ h₂, n.Each (Continues [setsDelay, setsSound, waitsForKey]) h₁ →
        n.Each (Continues [setsDelay, setsSound, waitsForKey]) h₂ → elapsed h₁ = elapsed h₂ →
        (n.run h₁).timers = (n.run h₂).timers := by
  refine ⟨fun history h => ?_, fun ticks hset => ?_⟩
  · rw [delay_run h (by simp)]
    exact Timers.toNat_countDown ..
  · intro v n hclear
    have hn : ¬n.timers.Stray := not_stray_of_setsSound hset hclear
    refine ⟨fun history h => sound_since_setsSound hset hclear h (by simp) (by simp), fun h₁ h₂ hc₁ hc₂ htime => ?_⟩
    rw [sound_run hc₁ (by simp) (by simp) hn, sound_run hc₂ (by simp) (by simp) hn, delay_run hc₁ (by simp),
      delay_run hc₂ (by simp), htime]

/-- A program that sets both counters and goes round: six ticks at once or over three steps, and more than there are. -/
theorem timers_of_elapsed_round :
    let m := (build {} (Vector.replicate 8 0)).run
      [.load [0x60, 0x0A, 0xF0, 0x15, 0xF0, 0x18, 0x12, 0x06], .step 0, .step 0]
    let n := m.step 3
    (n.run [.step 4, .step 0, .step 2]).timers = (n.run [.step 6]).timers ∧
      (n.run [.step 6]).timers.sound.toNat = 4 ∧ (n.run [.step 6]).timers.tone = true ∧
      (n.run [.step 300]).timers.delay.toNat = 0 := by
  intro m n
  obtain ⟨hset, hvalue, hdelay, hmany, hone, hsix, hthree⟩ : m.Executes setsSound ∧ m.register m.currentX = 10 ∧
      n.timers.delay = 7 ∧ n.Each (Continues [setsDelay]) [.step 300] ∧
      n.Each (Continues [setsSound, waitsForKey]) [.step 6] ∧
      n.Each (Continues [setsDelay, setsSound, waitsForKey]) [.step 6] ∧
      n.Each (Continues [setsDelay, setsSound, waitsForKey]) [.step 4, .step 0, .step 2] := by decide +kernel
  have haudible : 2 ≤ m.register m.currentX := by
    rw [hvalue]
    decide
  obtain ⟨hsound, hsplit⟩ := (timers_of_elapsed m).2 3 hset (Or.inl haudible)
  obtain ⟨hcounter, htone⟩ := hsound [.step 6] hone
  have hdone := (timers_of_elapsed n).1 [.step 300] hmany
  rw [hvalue, show m.step 3 = n from rfl] at hcounter htone
  rw [hdelay] at hdone
  exact ⟨hsplit _ _ hthree hsix rfl, hcounter, htone.2 ⟨by decide, by decide⟩, hdone⟩

end Machine

end Chip8
