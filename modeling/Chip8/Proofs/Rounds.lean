import Mathlib
import Chip8.Proofs.Clock
import Chip8.Proofs.Observation
import Chip8.Session.Progress
/-!
# Rounds — the machine of a session, step by step

Before each step a session moves keys by its script and asks its clock for ticks; after the step it looks at the tone,
asks whether the screen was drawn on, and keeps what it was told.  The machine sees little of that.  The rounds are what
it does see (`Machine.afterRounds`): keys that move, and a step, until a step stops it.  The ticks of a step are told
without a clock, by the time that has passed at either end of it (`TickClock.tick_after`).  A session comes to the
machine of its rounds, but for the mark that the screen was drawn on (`Progress.sameBut_play`).
-/
namespace Chip8
namespace Machine

/-- The machine after a round: keys move and a step is taken, if the machine runs. -/
def round (m : Machine) (script : List KeyPress) (rate step : Nat) : Machine :=
  if m.status.isOk then (m.moveKeys script step).step (TickClock.ticksAt rate step) else m

/-- The machine after this many rounds. -/
def afterRounds (m : Machine) (script : List KeyPress) (rate : Nat) : Nat → Machine
  | 0 => m
  | step + 1 => (m.afterRounds script rate step).round script rate step

/-- Whether a machine stops in the round with this number. -/
def StopsIn (m : Machine) (script : List KeyPress) (rate step : Nat) : Prop :=
  (m.afterRounds script rate step).status = .ok ∧ (m.afterRounds script rate (step + 1)).status ≠ .ok

instance (m : Machine) (script : List KeyPress) (rate step : Nat) : Decidable (m.StopsIn script rate step) :=
  inferInstanceAs (Decidable (_ ∧ _))

/-! ## One round -/

section

variable {p : Part} {m n : Machine}

theorem SameBut.moveKeys (h : SameBut p m n) (script : List KeyPress) (step : Nat) :
    SameBut p (m.moveKeys script step) (n.moveKeys script step) := by
  unfold Machine.moveKeys
  induction keyChangesAt script step generalizing m n with
  | nil => exact h
  | cons c changes ih =>
    refine ih ?_
    rw [h]
    unfold moveKey
    cases c.down <;> cases p <;> rfl

/-- Keys that move are all that moves. -/
theorem sameBut_moveKeys (m : Machine) (script : List KeyPress) (step : Nat) :
    SameBut .keys m (m.moveKeys script step) := by
  unfold Machine.moveKeys
  induction keyChangesAt script step generalizing m with
  | nil => exact .refl _ _
  | cons c changes ih =>
    have hkey : SameBut .keys m (m.moveKey c) := by
      unfold moveKey
      cases c.down <;> rfl
    exact hkey.trans (ih (m.moveKey c))

theorem status_moveKeys (m : Machine) (script : List KeyPress) (step : Nat) :
    (m.moveKeys script step).status = m.status :=
  (sameBut_moveKeys m script step).status

theorem round_of_ok (ok : m.status = .ok) (script : List KeyPress) (rate step : Nat) :
    m.round script rate step = (m.moveKeys script step).step (TickClock.ticksAt rate step) :=
  if_pos (Status.isOk_iff.2 ok)

theorem round_of_not_ok (h : m.status ≠ .ok) (script : List KeyPress) (rate step : Nat) :
    m.round script rate step = m :=
  if_neg (mt Status.isOk_iff.1 h)

end

/-! ## Rounds -/

section

variable {m : Machine} {script : List KeyPress} {rate : Nat}

theorem afterRounds_succ (m : Machine) (script : List KeyPress) (rate step : Nat) :
    m.afterRounds script rate (step + 1) = (m.afterRounds script rate step).round script rate step := rfl

theorem afterRounds_of_not_ok {step : Nat} (h : (m.afterRounds script rate step).status ≠ .ok) {later : Nat}
    (hle : step ≤ later) : m.afterRounds script rate later = m.afterRounds script rate step := by
  induction later, hle using Nat.le_induction with
  | base => rfl
  | succ later _ ih => rw [afterRounds_succ, ih, round_of_not_ok h]

theorem ok_of_afterRounds {later : Nat} (ok : (m.afterRounds script rate later).status = .ok) {step : Nat}
    (hle : step ≤ later) : (m.afterRounds script rate step).status = .ok := by
  by_contra h
  rw [afterRounds_of_not_ok h hle] at ok
  exact h ok

/-- **A machine that ran runs after its rounds, or one of them has stopped it.** -/
theorem status_afterRounds (ok : m.status = .ok) (steps : Nat) :
    (m.afterRounds script rate steps).status = .ok ∨
      ∃ fault, (m.afterRounds script rate steps).status = .halted fault := by
  induction steps with
  | zero => exact Or.inl ok
  | succ steps ih =>
    rw [afterRounds_succ]
    rcases ih with hok | ⟨fault, hf⟩
    · rw [round_of_ok hok]
      exact status_step_of_ok ((status_moveKeys ..).trans hok) _
    · rw [round_of_not_ok (by rw [hf]; nofun)]
      exact Or.inr ⟨fault, hf⟩

theorem exists_stopsIn (ok : m.status = .ok) {steps : Nat} (h : (m.afterRounds script rate steps).status ≠ .ok) :
    ∃ step < steps, m.StopsIn script rate step := by
  induction steps with
  | zero => exact absurd ok h
  | succ steps ih =>
    by_cases hok : (m.afterRounds script rate steps).status = .ok
    · exact ⟨steps, Nat.lt_succ_self _, hok, h⟩
    · obtain ⟨step, hlt, hstops⟩ := ih hok
      exact ⟨step, Nat.lt_succ_of_lt hlt, hstops⟩

theorem ok_afterRounds_iff (ok : m.status = .ok) (steps : Nat) :
    (m.afterRounds script rate steps).status = .ok ↔ ¬∃ step < steps, m.StopsIn script rate step := by
  constructor
  · rintro hok ⟨step, hlt, hstops⟩
    exact hstops.2 (ok_of_afterRounds hok hlt)
  · intro hnone
    by_contra h
    exact hnone (exists_stopsIn ok h)

theorem StopsIn.ok_iff {step : Nat} (h : m.StopsIn script rate step) (steps : Nat) :
    (m.afterRounds script rate steps).status = .ok ↔ steps ≤ step := by
  constructor
  · intro hok
    by_contra hlt
    exact h.2 (ok_of_afterRounds hok (Nat.not_le.1 hlt))
  · exact ok_of_afterRounds h.1

theorem StopsIn.afterRounds_eq {step : Nat} (h : m.StopsIn script rate step) {steps : Nat} (hlt : step < steps) :
    m.afterRounds script rate steps = m.afterRounds script rate (step + 1) :=
  afterRounds_of_not_ok h.2 hlt

/-- **Rounds that do not read a part** leave nothing else apart than was before. -/
theorem SameBut.afterRounds {p : Part} {m n : Machine} (h : SameBut p m n) {steps : Nat}
    (unread : ∀ step < steps,
      ¬((m.afterRounds script rate step).moveKeys script step).Reads p (.step (TickClock.ticksAt rate step))) :
    SameBut p (m.afterRounds script rate steps) (n.afterRounds script rate steps) := by
  induction steps with
  | zero => exact h
  | succ steps ih =>
    have hbefore := ih fun step hlt => unread step (Nat.lt_succ_of_lt hlt)
    rw [afterRounds_succ, afterRounds_succ]
    by_cases hok : (m.afterRounds script rate steps).status = .ok
    · rw [round_of_ok hok, round_of_ok (hbefore.status.trans hok)]
      exact (hbefore.moveKeys script steps).step (Or.inr rfl) (unread steps (Nat.lt_succ_self _))
    · rw [round_of_not_ok hok, round_of_not_ok (by rw [hbefore.status]; exact hok)]
      exact hbefore

end

end Machine

/-! ## A session -/

namespace Progress

open Machine

@[simp] theorem tell_machine (p : Progress) (shown : Notice → Bool) (notices : List Notice) :
    (p.tell shown notices).machine = p.machine := rfl

@[simp] theorem tell_clock (p : Progress) (shown : Notice → Bool) (notices : List Notice) :
    (p.tell shown notices).clock = p.clock := rfl

@[simp] theorem watchTone_machine (p : Progress) (shown : Notice → Bool) (step : Nat) :
    (p.watchTone shown step).machine = p.machine := by
  unfold watchTone
  split <;> rfl

@[simp] theorem watchTone_clock (p : Progress) (shown : Notice → Bool) (step : Nat) :
    (p.watchTone shown step).clock = p.clock := by
  unfold watchTone
  split <;> rfl

theorem takeStep_machine (p : Progress) (script : List KeyPress) (shown : Notice → Bool) (step : Nat) :
    (p.takeStep script shown step).machine = (p.machine.moveKeys script step).step p.clock.tick.1 := rfl

theorem takeStep_clock (p : Progress) (script : List KeyPress) (shown : Notice → Bool) (step : Nat) :
    (p.takeStep script shown step).clock = p.clock.tick.2 := rfl

/-! ### What is kept of it -/

section

variable {shown : Notice → Bool} {p : Progress} (h : ∀ n ∈ p.told, shown n = true)
include h

theorem shown_tell (notices : List Notice) : ∀ n ∈ (p.tell shown notices).told, shown n = true := by
  intro n hn
  rcases List.mem_append.1 hn with hnew | hold
  · exact (List.mem_filter.1 (List.mem_reverse.1 hnew)).2
  · exact h n hold

theorem shown_watchTone (step : Nat) : ∀ n ∈ (p.watchTone shown step).told, shown n = true := by
  unfold watchTone
  split
  · exact h
  · exact shown_tell h _

theorem shown_takeStep (script : List KeyPress) (step : Nat) :
    ∀ n ∈ (p.takeStep script shown step).told, shown n = true :=
  shown_tell h _

theorem shown_advance (script : List KeyPress) (step : Nat) :
    ∀ n ∈ (p.advance script shown step).told, shown n = true := by
  have htaken := shown_takeStep h script step
  unfold advance
  simp only
  split
  · exact shown_watchTone htaken step
  · exact htaken

/-- **A session keeps only what is shown.** -/
theorem shown_play (script : List KeyPress) (count step : Nat) :
    ∀ n ∈ (play script shown count step p).told, shown n = true := by
  induction count generalizing p step with
  | zero => exact h
  | succ count ih =>
    have hnext := shown_advance h script step
    rw [play]
    split
    · exact ih hnext (step + 1)
    · exact hnext

end

/-! ### Its machine -/

theorem sameBut_watchScreen (p : Progress) : SameBut .mark p.machine p.watchScreen.machine := rfl

theorem advance_clock (p : Progress) (script : List KeyPress) (shown : Notice → Bool) (step : Nat) :
    (p.advance script shown step).clock = p.clock.tick.2 := by
  rw [← takeStep_clock p script shown step]
  unfold advance
  simp only
  split
  · exact watchTone_clock ..
  · rfl

/-- **Looking at what a step has done changes nothing but the mark.** -/
theorem sameBut_advance (p : Progress) (script : List KeyPress) (shown : Notice → Bool) (step : Nat) :
    SameBut .mark ((p.machine.moveKeys script step).step p.clock.tick.1) (p.advance script shown step).machine := by
  rw [← takeStep_machine p script shown step]
  unfold advance
  simp only
  split
  · have hlook := sameBut_watchScreen ((p.takeStep script shown step).watchTone shown step)
    rwa [watchTone_machine] at hlook
  · exact .refl _ _

section

variable {m : Machine} {script : List KeyPress} {rate : Nat} (hrate : 0 < rate) {p : Progress} {step : Nat}
  (hp : SameBut .mark (m.afterRounds script rate step) p.machine) (hclock : p.clock = .after rate step)
  (ok : (m.afterRounds script rate step).status = .ok)
include hrate hp hclock ok

theorem sameBut_advance_afterRounds (shown : Notice → Bool) :
    SameBut .mark (m.afterRounds script rate (step + 1)) (p.advance script shown step).machine ∧
      (p.advance script shown step).clock = .after rate (step + 1) := by
  have htick := TickClock.tick_after hrate step
  have hadvance := sameBut_advance p script shown step
  rw [advance_clock, hclock, htick]
  rw [hclock, htick] at hadvance
  refine ⟨?_, rfl⟩
  rw [afterRounds_succ, round_of_ok ok]
  exact ((hp.moveKeys script step).step (Or.inr rfl) id).trans hadvance

end

/-- **A session comes to the machine of its rounds**, but for the mark that the screen was drawn on: up to a number of
steps from any step on. -/
theorem sameBut_play {m : Machine} {script : List KeyPress} {rate : Nat} (hrate : 0 < rate) (shown : Notice → Bool)
    {p : Progress} {step : Nat} (hp : SameBut .mark (m.afterRounds script rate step) p.machine)
    (hclock : p.clock = .after rate step) (ok : (m.afterRounds script rate step).status = .ok) (count : Nat) :
    SameBut .mark (m.afterRounds script rate (step + count)) (play script shown count step p).machine := by
  induction count generalizing p step with
  | zero => exact hp
  | succ count ih =>
    obtain ⟨hnext, hclock'⟩ := sameBut_advance_afterRounds hrate hp hclock ok shown
    rw [← Nat.succ_add_eq_add_succ, play]
    by_cases hok : (m.afterRounds script rate (step + 1)).status = .ok
    · rw [if_pos (Status.isOk_iff.2 (hnext.status.trans hok))]
      exact ih hnext hclock' hok
    · -- the machine has stopped, and so has the session
      rw [if_neg (by rw [Status.isOk_iff, hnext.status]; exact hok), afterRounds_of_not_ok hok (Nat.le_add_right ..)]
      exact hnext

end Progress

end Chip8
