import Mathlib
import Chip8.Proofs.Cells.Agreement
import Chip8.Session.TickClock
/-!
# Clock — no tick is lost and none is made

Each call of a clock adds the ticks of a second to what is carried over, gives the whole ticks in that and carries the
rest over again.  So what was given and what is carried make up the time of the calls, whatever the rate and whatever
was carried before (`TickClock.rate_mul_sum_ticks`), and since less than a tick is ever carried, that says how many
ticks any number of calls give, from any place in a run on (`TickClock.sum_ticks`).

A clock that is stored is two words of 32 bits.  Here it computes with checks, as stored cells do: a sum or a product
that does not fit, a difference below zero and a division by zero have no result.  It gives the ticks of the clock, and
always has a result (`ticks_of_rate`).
-/
namespace Chip8
namespace TickClock

def run (c : TickClock) : Nat → TickClock
  | 0 => c
  | n + 1 => c.tick.2.run n

theorem rate_run (c : TickClock) (n : Nat) : (c.run n).rate = c.rate := by
  induction n generalizing c with
  | zero => rfl
  | succ n ih => exact ih c.tick.2

theorem rate_ofRate_pos (rate : Nat) : 0 < (ofRate rate).rate :=
  Nat.lt_of_lt_of_le (show 0 < leastRate by decide) (Nat.le_max_left ..)

theorem rate_ofRate_le (rate : Nat) : (ofRate rate).rate ≤ greatestRate :=
  Nat.max_le.2 ⟨by decide, Nat.min_le_right ..⟩

/-! ## What is given and what is carried -/

/-- **What was given and what is carried make up the time of the calls.** -/
theorem rate_mul_sum_ticks (c : TickClock) (n : Nat) :
    c.rate * (c.ticks n).sum + (c.run n).carry = c.carry + timerRate * n := by
  -- the clock is general: the calls after the first are those of the clock behind it, with what that carries
  induction n generalizing c with
  | zero => exact Nat.zero_add _
  | succ n ih =>
    have hfirst : c.rate * c.tick.1 + c.tick.2.carry = c.carry + timerRate := Nat.div_add_mod ..
    have hrest : c.rate * (c.tick.2.ticks n).sum + (c.tick.2.run n).carry = c.tick.2.carry + timerRate * n :=
      ih c.tick.2
    rw [ticks, run, List.sum_cons, Nat.mul_add, Nat.mul_succ]
    omega

theorem carry_tick_lt {c : TickClock} (hrate : 0 < c.rate) : c.tick.2.carry < c.rate :=
  Nat.mod_lt _ hrate

theorem carry_run_lt {c : TickClock} (h : c.carry < c.rate) (n : Nat) : (c.run n).carry < c.rate := by
  induction n generalizing c with
  | zero => exact h
  | succ n ih => exact ih (c := c.tick.2) (carry_tick_lt (Nat.zero_lt_of_lt h))

/-- **The ticks of a number of calls** are the whole ticks in their time and in what was carried before them. -/
theorem sum_ticks {c : TickClock} (h : c.carry < c.rate) (n : Nat) :
    (c.ticks n).sum = (c.carry + timerRate * n) / c.rate := by
  rw [← rate_mul_sum_ticks, Nat.mul_add_div (Nat.zero_lt_of_lt h), Nat.div_eq_of_lt (carry_run_lt h n), Nat.add_zero]

theorem tick_le_one {c : TickClock} (h : c.carry < c.rate) (hrate : timerRate ≤ c.rate) : c.tick.1 ≤ 1 := by
  refine Nat.le_of_lt_succ (Nat.div_lt_of_lt_mul ?_)
  omega

theorem le_one_of_mem_ticks {c : TickClock} (h : c.carry < c.rate) (hrate : timerRate ≤ c.rate) {n t : Nat}
    (ht : t ∈ c.ticks n) : t ≤ 1 := by
  induction n generalizing c with
  | zero => exact absurd ht List.not_mem_nil
  | succ n ih =>
    rcases List.mem_cons.1 ht with rfl | ht
    · exact tick_le_one h hrate
    · exact ih (c := c.tick.2) (carry_tick_lt (Nat.zero_lt_of_lt h)) hrate ht

/-! ## Windows of a run -/

theorem drop_ticks (c : TickClock) (k n : Nat) : (c.ticks (k + n)).drop k = (c.run k).ticks n := by
  induction k generalizing c with
  | zero => rw [Nat.zero_add]; rfl
  | succ k ih =>
    rw [Nat.add_right_comm, ticks, List.drop_succ_cons]
    exact ih c.tick.2

/-- The ticks of the `n` calls behind the first `k`. -/
def window (c : TickClock) (k n : Nat) : Nat :=
  ((c.ticks (k + n)).drop k).sum

section

variable {c : TickClock} (h : c.carry < c.rate) (k n : Nat)
include h

theorem window_eq : c.window k n = ((c.run k).carry + timerRate * n) / c.rate := by
  have hk : (c.run k).carry < (c.run k).rate := by
    rw [rate_run]
    exact carry_run_lt h k
  rw [window, drop_ticks, sum_ticks hk, rate_run]

/-- **A window has the whole ticks of its time, or one more**: what is carried into it is less than a tick. -/
theorem window_bounds : timerRate * n / c.rate ≤ c.window k n ∧ c.window k n ≤ timerRate * n / c.rate + 1 := by
  rw [window_eq h]
  constructor
  · exact Nat.div_le_div_right (Nat.le_add_left ..)
  · rw [← Nat.add_div_right _ (Nat.zero_lt_of_lt h)]
    refine Nat.div_le_div_right ?_
    have := carry_run_lt h k
    omega

theorem window_rate : c.window k c.rate = timerRate := by
  rw [window_eq h, Nat.add_mul_div_right _ _ (Nat.zero_lt_of_lt h), Nat.div_eq_of_lt (carry_run_lt h k),
    Nat.zero_add]

end

/-! ## The time at the ends of a step -/

/-- The ticks of the step with this number: those that have passed after it and not before it. -/
def ticksAt (rate step : Nat) : Nat :=
  timerRate * (step + 1) / rate - timerRate * step / rate

/-- A clock that has given the ticks of this many steps. -/
def after (rate steps : Nat) : TickClock :=
  { rate, carry := timerRate * steps % rate }

theorem ofRate_eq_after (rate : Nat) : ofRate rate = after (ofRate rate).rate 0 := by
  unfold after
  rw [Nat.mul_zero, Nat.zero_mod]
  rfl

/-- **The clock gives the ticks of each step**, whatever it carries over. -/
theorem tick_after {rate : Nat} (hrate : 0 < rate) (step : Nat) :
    (after rate step).tick = (ticksAt rate step, after rate (step + 1)) := by
  have hnext : timerRate * (step + 1) = rate * (timerRate * step / rate) + (timerRate * step % rate + timerRate) := by
    rw [← Nat.add_assoc, Nat.div_add_mod, Nat.mul_succ]
  unfold tick ticksAt after
  rw [hnext, Nat.mul_add_div hrate, Nat.mul_add_mod, Nat.add_sub_cancel_left]

end TickClock

/-! ## A clock in words -/

/-- The values that a word of 32 bits has. -/
abbrev doubleWordLimit : Nat := 4294967296

def divide? (a b : Nat) : Option Nat :=
  if b = 0 then none else some (a / b)

/-- A clock that is stored. -/
structure ClockWords where
  rate : UInt32
  carry : UInt32 := 0

namespace ClockWords

def ofRate (rate : UInt32) : ClockWords :=
  { rate := max 100 (min rate 2000) }

def tick? (w : ClockWords) : Option (UInt32 × ClockWords) := do
  let sum ← fit? doubleWordLimit (w.carry.toNat + timerRate)
  let ticks ← divide? sum w.rate.toNat
  let given ← fit? doubleWordLimit (ticks * w.rate.toNat)
  let carry ← less? sum given
  some (UInt32.ofNat ticks, { w with carry := UInt32.ofNat carry })

/-- The ticks of `n` calls, and the clock after them. -/
def ticks? (w : ClockWords) : Nat → Option (List UInt32 × ClockWords)
  | 0 => some ([], w)
  | n + 1 => do
    let (t, w) ← w.tick?
    let (ts, w) ← w.ticks? n
    some (t :: ts, w)

structure Stores (w : ClockWords) (c : TickClock) : Prop where
  rate : w.rate.toNat = c.rate
  carry : w.carry.toNat = c.carry

theorem stores_ofRate (rate : UInt32) : (ofRate rate).Stores (.ofRate rate.toNat) where
  rate := by
    have hmin : (min rate 2000).toNat = min rate.toNat 2000 := by
      rw [Nat.min_def, show min rate 2000 = if rate ≤ 2000 then rate else 2000 from rfl]
      exact apply_ite UInt32.toNat ..
    show (max 100 (min rate 2000)).toNat = max 100 (min rate.toNat 2000)
    rw [← hmin, Nat.max_def, show max 100 (min rate 2000) = if 100 ≤ min rate 2000 then min rate 2000 else 100 from rfl]
    exact apply_ite UInt32.toNat ..
  carry := rfl

/-- **A call of stored words has a result**, and it is that of the clock. -/
theorem Stores.tick {w : ClockWords} {c : TickClock} (h : w.Stores c) (hcarry : c.carry < c.rate)
    (hrate : c.rate ≤ greatestRate) :
    ∃ t w', w.tick? = some (t, w') ∧ t.toNat = c.tick.1 ∧ w'.Stores c.tick.2 := by
  have hpos : c.rate ≠ 0 := Nat.ne_zero_of_lt hcarry
  have hsum : c.carry + timerRate < doubleWordLimit := by
    have : c.rate ≤ 2000 := hrate
    show c.carry + 60 < 4294967296
    omega
  have hgiven : (c.carry + timerRate) / c.rate * c.rate ≤ c.carry + timerRate := Nat.div_mul_le_self ..
  have hticks : (c.carry + timerRate) / c.rate ≤ c.carry + timerRate := Nat.div_le_self ..
  have hrest : c.carry + timerRate - (c.carry + timerRate) / c.rate * c.rate = c.tick.2.carry :=
    (Nat.sub_eq_of_eq_add (Nat.mod_add_div' ..).symm)
  refine ⟨UInt32.ofNat c.tick.1, { w with carry := UInt32.ofNat c.tick.2.carry }, ?_, ?_, h.rate, ?_⟩
  · unfold tick? divide?
    rw [h.rate, h.carry, fit?_eq hsum]
    simp only [Option.bind_eq_bind, Option.bind_some, hpos, ↓reduceIte]
    rw [fit?_eq (Nat.lt_of_le_of_lt hgiven hsum)]
    simp only [Option.bind_some]
    rw [less?_eq hgiven, hrest]
    rfl
  · exact UInt32.toNat_ofNat_of_lt' (Nat.lt_of_le_of_lt hticks hsum)
  · have : c.tick.2.carry ≤ c.carry + timerRate := Nat.mod_le ..
    exact UInt32.toNat_ofNat_of_lt' (Nat.lt_of_le_of_lt this hsum)

/-- **Any number of calls of stored words has a result**, and it is that of the clock. -/
theorem Stores.ticks {w : ClockWords} {c : TickClock} (h : w.Stores c) (hcarry : c.carry < c.rate)
    (hrate : c.rate ≤ greatestRate) (n : Nat) :
    ∃ ts w', w.ticks? n = some (ts, w') ∧ ts.map UInt32.toNat = c.ticks n ∧ w'.Stores (c.run n) := by
  induction n generalizing w c with
  | zero => exact ⟨[], w, rfl, rfl, h⟩
  | succ n ih =>
    obtain ⟨t, w', htick, ht, h'⟩ := h.tick hcarry hrate
    obtain ⟨ts, w'', hticks, hts, h''⟩ := ih h' (TickClock.carry_tick_lt (Nat.zero_lt_of_lt hcarry)) hrate
    refine ⟨t :: ts, w'', ?_, ?_, h''⟩
    · unfold ticks?
      rw [htick]
      simp only [Option.bind_eq_bind, Option.bind_some, hticks]
    · rw [List.map_cons, ht, hts, TickClock.ticks]

end ClockWords

namespace TickClock

/-- **The clock neither loses nor makes ticks.**  Let `r` be the rate brought to the nearest one allowed.  Then `n`
calls of a new clock give the whole ticks in their time, each gives one tick or none, and less than a tick is carried
after them; the clock in words does the same, and none of its sums, products, differences and divisions is without a
result.  So a second of calls gives the ticks of a second wherever in a run it begins, and two windows of the same
length are apart by a tick at most, wherever they are. -/
theorem ticks_of_rate (rate : UInt32) :
    let c : TickClock := ofRate rate.toNat
    let r := max 100 (min rate.toNat 2000)
    (∀ n, (c.ticks n).sum = 60 * n / r ∧ (∀ t ∈ c.ticks n, t = 0 ∨ t = 1) ∧ (c.run n).carry < r ∧
      ∃ ts w, (ClockWords.ofRate rate).ticks? n = some (ts, w) ∧ ts.map UInt32.toNat = c.ticks n ∧
        w.carry.toNat = (c.run n).carry) ∧
    (∀ k, c.window k r = 60) ∧
    ∀ k₁ k₂ n, c.window k₁ n ≤ c.window k₂ n + 1 := by
  intro c r
  have hcarry : c.carry < c.rate := rate_ofRate_pos _
  have hsixty : timerRate ≤ c.rate := Nat.le_trans (show timerRate ≤ leastRate by decide) (Nat.le_max_left ..)
  refine ⟨fun n => ⟨?_, fun t ht => ?_, carry_run_lt hcarry n, ?_⟩, window_rate hcarry, fun k₁ k₂ n => ?_⟩
  · rw [sum_ticks hcarry, show c.carry = 0 from rfl, Nat.zero_add]
    rfl
  · exact Nat.le_one_iff_eq_zero_or_eq_one.1 (le_one_of_mem_ticks hcarry hsixty ht)
  · obtain ⟨ts, w, hticks, hts, hw⟩ := (ClockWords.stores_ofRate rate).ticks hcarry (rate_ofRate_le _) n
    exact ⟨ts, w, hticks, hts, hw.carry⟩
  · exact Nat.le_trans (window_bounds hcarry k₁ n).2 (Nat.succ_le_succ (window_bounds hcarry k₂ n).1)

end TickClock

end Chip8
