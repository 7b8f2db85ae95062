import Mathlib
import Chip8.Proofs.Invariant
import Chip8.Proofs.Keypad
/-!
# KeyWait — a key that goes down and up again, under any interleaving

The instruction that waits for a key does so by being executed again and again.  The host may press and release keys
between its executions, in any order and any number of times, and only what is down *at a step* matters.  A history of
keys and steps is in one of three phases.  At none of its steps was a key down (`Untouched`), or at one of them some were,
of which the lowest was taken, and that one was down at all the steps behind it (`Holding`), or then there was a step
at which it was up (`Released`).  In the first two the instruction waits and changes nothing but the timers; with the
third it is done (`Reachable.keyWait_phases`).

Between two steps nothing else can come in the way, because a machine whose wait has taken a key stands at a word that
waits (`Reachable.atWait`).
-/
namespace Chip8

def Operation.isKeyOrStep : Operation → Bool
  | .step _ => true
  | .keyDown _ => true
  | .keyUp _ => true
  | _ => false

/-! ## Phases -/

namespace Keypad

/-- The keys after an operation: a load lets all of them up. -/
def hear (k : Keypad) : Operation → Keypad
  | .load _ => released
  | .keyDown key => k.press key
  | .keyUp key => k.release key
  | _ => k

def after (k : Keypad) (history : List Operation) : Keypad :=
  history.foldl hear k

/-- At every step of a history, the keys that are down then have a property. -/
def AtSteps (k : Keypad) (P : Keypad → Prop) (history : List Operation) : Prop :=
  ∀ earlier ticks later, history = earlier ++ .step ticks :: later → P (k.after earlier)

/-- At no step of a history was a key down. -/
def Untouched (k : Keypad) (history : List Operation) : Prop :=
  k.AtSteps (fun k => ∀ key, k.holds key = false) history

/-- At a step of a history keys were down for the first time, this one the lowest, and it was down at all later ones. -/
def Holding (k : Keypad) (key : Fin keyCount) (history : List Operation) : Prop :=
  ∃ earlier ticks later, history = earlier ++ .step ticks :: later ∧ k.Untouched earlier ∧
    ((k.after earlier).holds key = true ∧ ∀ lower < key, (k.after earlier).holds lower = false) ∧
    (k.after earlier).AtSteps (·.holds key = true) later

/-- The last step of a history is the first at which the key that was held was up. -/
def Released (k : Keypad) (key : Fin keyCount) (history : List Operation) : Prop :=
  ∃ earlier ticks, history = earlier ++ [.step ticks] ∧ k.Holding key earlier ∧ (k.after earlier).holds key = false

theorem hear_step (k : Keypad) (ticks : Nat) : k.hear (.step ticks) = k := rfl

theorem after_append (k : Keypad) (h₁ h₂ : List Operation) : k.after (h₁ ++ h₂) = (k.after h₁).after h₂ := by
  unfold after
  rw [List.foldl_append]

theorem after_step (k : Keypad) (earlier later : List Operation) (ticks : Nat) :
    k.after (earlier ++ .step ticks :: later) = (k.after earlier).after later :=
  after_append k earlier _

theorem atSteps_nil (k : Keypad) (P : Keypad → Prop) : k.AtSteps P [] := by
  intro earlier ticks later h
  simp at h

theorem atSteps_concat {k : Keypad} {P : Keypad → Prop} {history : List Operation} {o : Operation} :
    k.AtSteps P (history ++ [o]) ↔ k.AtSteps P history ∧ ∀ ticks, o = .step ticks → P (k.after history) := by
  constructor
  · intro h
    refine ⟨fun earlier ticks later he => h earlier ticks (later ++ [o]) (by simp [he]), ?_⟩
    rintro ticks rfl
    exact h history ticks [] rfl
  · rintro ⟨h, ho⟩ earlier ticks later he
    rcases concat_eq_split_iff.1 he with ⟨rfl, ho', -⟩ | ⟨rest, -, hh⟩
    · exact ho ticks ho'.symm
    · exact h earlier ticks rest hh

/-- **Every history is in one of the three phases, or has been.** -/
theorem phases (k : Keypad) (history : List Operation) :
    k.Untouched history ∨ (∃ key, k.Holding key history) ∨
      ∃ key earlier later, history = earlier ++ later ∧ k.Released key earlier := by
  induction history using List.reverseRecOn with
  | nil => exact Or.inl (atSteps_nil k _)
  | append_singleton history o ih =>
    rcases ih with h | ⟨key, earlier, ticks, later, rfl, he, hl, ha⟩ | ⟨key, earlier, later, rfl, h⟩
    · cases o with
      | step ticks =>
        cases hd : (k.after history).firstDown? with
        | none => exact Or.inl (atSteps_concat.2 ⟨h, fun _ _ => (firstDown?_eq_none_iff _).1 hd⟩)
        | some key =>
          exact Or.inr (Or.inl ⟨key, history, ticks, [], rfl, h, (firstDown?_eq_some_iff _ key).1 hd,
            atSteps_nil _ _⟩)
      | _ => exact Or.inl (atSteps_concat.2 ⟨h, nofun⟩)
    · have hgoes (hlast : ∀ ticks', o = .step ticks' → ((k.after earlier).after later).holds key = true) :
          k.Holding key (earlier ++ .step ticks :: later ++ [o]) :=
        ⟨earlier, ticks, later ++ [o], by simp, he, hl, atSteps_concat.2 ⟨ha, hlast⟩⟩
      cases o with
      | step ticks' =>
        cases hk : ((k.after earlier).after later).holds key with
        | true => exact Or.inr (Or.inl ⟨key, hgoes fun _ _ => hk⟩)
        | false =>
          exact Or.inr (Or.inr ⟨key, _, [], (List.append_nil _).symm, _, ticks', rfl,
            ⟨earlier, ticks, later, rfl, he, hl, ha⟩, by rw [after_step, hk]⟩)
      | _ => exact Or.inr (Or.inl ⟨key, hgoes nofun⟩)
    · exact Or.inr (Or.inr ⟨key, earlier, later ++ [o], List.append_assoc .., h⟩)

end Keypad

namespace Machine

theorem keypad_perform (m : Machine) (o : Operation) : (m.perform o).keypad = m.keypad.hear o := by
  cases o with
  | load program =>
    rw [perform_load, load_eq]
    rfl
  | step ticks =>
    rw [perform_step, Keypad.hear_step]
    by_cases ok : m.status = .ok
    · cases hu : m.upcoming? with
      | none =>
        obtain ⟨fault, hs⟩ := step_of_upcoming?_eq_none ok hu ticks
        rw [hs]
        rfl
      | some i =>
        rw [step_of_upcoming? ok hu, Outcome.settled_keypad, (controls_execute _ i).keypad]
        rfl
    · rw [step_of_not_ok ok]
  | keyDown key => rfl
  | keyUp key => rfl
  | takeDirty => rfl

theorem keypad_run (m : Machine) (history : List Operation) : (m.run history).keypad = m.keypad.after history := by
  induction history generalizing m with
  | nil => rfl
  | cons o history ih =>
    rw [run_cons, ih, keypad_perform]
    rfl

/-! ## Waiting -/

/-- A machine that runs and stands at a word that waits for a key. -/
structure StandsAtWait (m : Machine) (x : Register) : Prop where
  ok : m.status = .ok
  pc : m.pc.toNat ≤ 0xFFE
  word : Instruction.decode? m.currentWord = some (.waitKey x)

/-- A machine that differs from another in its keys and timers alone, and whose wait for a key is this one. -/
def Waits (m : Machine) (keyWait : KeyWait) (m' : Machine) : Prop :=
  m' = { m with keyWait, keypad := m'.keypad, timers := m'.timers }

/-- A machine that has stored a key and gone on, or was stopped because it stood in the last word of memory. -/
structure Stored (m : Machine) (x : Register) (key : Fin keyCount) (m' : Machine) : Prop where
  machine : m' = { m with
    registers := m.registers.write x (UInt8.ofNat key.val)
    keyWait := .idle
    pc := if m.pc = 0xFFE then m.pc else m.pc + 2
    status := if m.pc = 0xFFE then .halted (.outOfBounds 0x1000) else .ok
    keypad := m'.keypad
    timers := m'.timers }
  sound : m'.timers.sound = 0
  tone : m'.timers.tone = false

/-! ## One step -/

section

variable {m : Machine} {x : Register} (stands : m.StandsAtWait x) (ticks : Nat)
include stands

theorem step_waitKey : m.step ticks = ((m.elapse ticks).waitKey x).settled :=
  step_of_upcoming? stands.ok (upcoming?_eq_some_iff.2 ⟨stands.pc, stands.word⟩) ticks

theorem step_of_none_down (hw : m.keyWait = .idle) (hk : ∀ key, m.keypad.holds key = false) :
    m.step ticks = m.elapse ticks := by
  have hnone : (m.elapse ticks).keypad.firstDown? = none := (Keypad.firstDown?_eq_none_iff _).2 hk
  rw [step_waitKey stands ticks, waitKey_of_none_down (m := m.elapse ticks) hw hnone]
  rfl

theorem step_of_down {key : Fin keyCount} (hw : m.keyWait = .idle) (hk : m.keypad.firstDown? = some key) :
    m.step ticks = { m with keyWait := .awaiting key, timers := (m.timers.elapse ticks).start } := by
  rw [step_waitKey stands ticks, waitKey_of_down (m := m.elapse ticks) hw hk]
  rfl

theorem step_of_held {key : Fin keyCount} (hw : m.keyWait = .awaiting key) (hk : m.keypad.holds key = true) :
    m.step ticks = { m with timers := (m.timers.elapse ticks).hold } := by
  rw [step_waitKey stands ticks, waitKey_of_held (m := m.elapse ticks) hw hk]
  rfl

theorem stored_of_released {key : Fin keyCount} (hw : m.keyWait = .awaiting key) (hk : m.keypad.holds key = false) :
    m.Stored x key (m.step ticks) := by
  have hstep : m.step ticks = Outcome.settled ⟨{ m with
      registers := m.registers.write x (UInt8.ofNat key.val)
      keyWait := .idle
      timers := (m.timers.elapse ticks).silence
      pc := movedPc m.pc 2 }, moveFault? m.pc 2⟩ := by
    rw [step_waitKey stands ticks, waitKey_of_released (m := m.elapse ticks) hw hk, next_eq]
    rfl
  rw [hstep]
  by_cases hlast : m.pc = 0xFFE
  · rw [show moveFault? m.pc 2 = some (.outOfBounds 0x1000) by rw [hlast]; rfl,
      show movedPc m.pc 2 = m.pc by rw [hlast]; rfl]
    exact ⟨by rw [if_pos hlast, if_pos hlast]; rfl, rfl, rfl⟩
  · have hlt : m.pc.toNat + 2 < memorySize := by
      have hle := stands.pc
      have hne : m.pc.toNat ≠ 0xFFE := fun he => hlast (UInt16.toNat_inj.1 he)
      show m.pc.toNat + 2 < 4096
      omega
    have hmoved : movedPc m.pc 2 = m.pc + 2 := by
      rw [movedPc, if_pos hlt, UInt16.ofNat_add, UInt16.ofNat_toNat]
      rfl
    rw [moveFault?, if_pos hlt, hmoved]
    exact ⟨by rw [if_neg hlast, if_neg hlast, ← stands.ok]; rfl, rfl, rfl⟩

end

/-! ## Runs -/

section

variable {m n : Machine} {w : KeyWait}

theorem Waits.eq (h : m.Waits w n) : n = { m with keyWait := w, keypad := n.keypad, timers := n.timers } := h

/-! A machine that waits still does when its keys or its timers change, or what it waits for. -/

theorem Waits.keypad (h : m.Waits w n) (keypad : Keypad) : m.Waits w { n with keypad } := by
  have hk := congrArg (fun k : Machine => { k with keypad }) h.eq
  exact hk

theorem Waits.timers (h : m.Waits w n) (timers : Timers) : m.Waits w { n with timers } := by
  have hk := congrArg (fun k : Machine => { k with timers }) h.eq
  exact hk

theorem Waits.wait (h : m.Waits w n) (w' : KeyWait) : m.Waits w' { n with keyWait := w' } := by
  have hk := congrArg (fun k : Machine => { k with keyWait := w' }) h.eq
  exact hk

theorem Waits.keyWait (h : m.Waits w n) : n.keyWait = w := by
  rw [h.eq]

theorem Waits.standsAtWait {x : Register} (h : m.Waits w n) (stands : m.StandsAtWait x) : n.StandsAtWait x where
  ok := by rw [h.eq]; exact stands.ok
  pc := by rw [h.eq]; exact stands.pc
  word := by rw [h.eq]; exact stands.word

theorem Waits.stored {x : Register} {key : Fin keyCount} {n' : Machine} (h : m.Waits w n) (hs : n.Stored x key n') :
    m.Stored x key n' := by
  unfold Waits at h
  generalize n.keypad = keypad, n.timers = timers at h
  subst h
  exact ⟨hs.machine, hs.sound, hs.tone⟩

theorem waits_run {P : Keypad → Prop}
    (hstep : ∀ n ticks, m.Waits w n → P n.keypad → m.Waits w (n.step ticks)) (h : m.Waits w n)
    (history : List Operation) (hops : ∀ o ∈ history, o.isKeyOrStep = true) (hat : n.keypad.AtSteps P history) :
    m.Waits w (n.run history) := by
  induction history using List.reverseRecOn with
  | nil => exact h
  | append_singleton history o ih =>
    obtain ⟨hat, hlast⟩ := Keypad.atSteps_concat.1 hat
    have hn := ih (fun o ho => hops o (List.mem_append_left _ ho)) hat
    have ho := hops o (List.mem_append_right _ (List.mem_singleton_self o))
    rw [run_concat]
    cases o with
    | load program => exact nomatch ho
    | takeDirty => exact nomatch ho
    | step ticks => exact hstep _ ticks hn (by rw [keypad_run]; exact hlast ticks rfl)
    | keyDown key => exact hn.keypad _
    | keyUp key => exact hn.keypad _

end

/-! ## The wait -/

section

variable {m : Machine} {x : Register} (stands : m.StandsAtWait x)
include stands

/-- **With no key down at its steps, the machine waits as it did.** -/
theorem waits_of_untouched (hw : m.keyWait = .idle) (history : List Operation)
    (hops : ∀ o ∈ history, o.isKeyOrStep = true) (h : m.keypad.Untouched history) : m.Waits .idle (m.run history) := by
  have hstart : m.Waits .idle m := by
    rw [← hw]
    rfl
  refine waits_run (fun n ticks hn hk => ?_) hstart history hops h
  rw [step_of_none_down (hn.standsAtWait stands) ticks hn.keyWait hk]
  exact hn.timers _

/-- **The lowest key that is down is taken, and the machine waits for it to go up.** -/
theorem waits_of_holding (hw : m.keyWait = .idle) {key : Fin keyCount} (history : List Operation)
    (hops : ∀ o ∈ history, o.isKeyOrStep = true) (h : m.keypad.Holding key history) :
    m.Waits (.awaiting key) (m.run history) := by
  obtain ⟨earlier, ticks, later, rfl, hearlier, hlowest, hlater⟩ := h
  have hn := waits_of_untouched stands hw earlier (fun o ho => hops o (List.mem_append_left _ ho)) hearlier
  have hdown : (m.run earlier).keypad.firstDown? = some key := by
    rw [keypad_run]
    exact (Keypad.firstDown?_eq_some_iff _ key).2 hlowest
  have htaken : m.Waits (.awaiting key) ((m.run earlier).step ticks) := by
    rw [step_of_down (hn.standsAtWait stands) ticks hn.keyWait hdown]
    exact (hn.wait _).timers _
  have hkeys : ((m.run earlier).step ticks).keypad = m.keypad.after earlier := by
    rw [← keypad_run]
    exact keypad_perform _ (.step ticks)
  rw [run_append]
  refine waits_run (fun n ticks hn hk => ?_) htaken later (fun o ho => hops o ?_) (by rw [hkeys]; exact hlater)
  · rw [step_of_held (hn.standsAtWait stands) ticks hn.keyWait hk]
    exact hn.timers _
  · exact List.mem_append_right _ (List.mem_cons_of_mem _ ho)

/-- **At the first step at which it is up again, the key is stored.** -/
theorem stored_of_phase (hw : m.keyWait = .idle) {key : Fin keyCount} (history : List Operation)
    (hops : ∀ o ∈ history, o.isKeyOrStep = true) (h : m.keypad.Released key history) :
    m.Stored x key (m.run history) := by
  obtain ⟨earlier, ticks, rfl, hearlier, hup⟩ := h
  have hn := waits_of_holding stands hw earlier (fun o ho => hops o (List.mem_append_left _ ho)) hearlier
  rw [← keypad_run] at hup
  rw [run_concat]
  exact hn.stored (stored_of_released (hn.standsAtWait stands) ticks hn.keyWait hup)

end

/-! ## Where a wait stands -/

/-- A wait that has taken a key stands at a word that waits, on a machine that runs. -/
def AtWait (m : Machine) : Prop :=
  ∀ key, m.keyWait = .awaiting key → ∃ x, m.StandsAtWait x

theorem atWait_step_waitKey {m : Machine} {x : Register} (stands : m.StandsAtWait x) (ticks : Nat) :
    (m.step ticks).AtWait := by
  intro key hk
  cases hw : m.keyWait with
  | idle =>
    cases hf : m.keypad.firstDown? with
    | none =>
      rw [step_of_none_down stands ticks hw ((Keypad.firstDown?_eq_none_iff _).1 hf)] at hk
      have hk : m.keyWait = .awaiting key := hk
      rw [hw] at hk
      exact nomatch hk
    | some taken =>
      rw [step_of_down stands ticks hw hf]
      exact ⟨x, { stands with }⟩
  | awaiting taken =>
    cases hheld : m.keypad.holds taken with
    | true =>
      rw [step_of_held stands ticks hw hheld]
      exact ⟨x, { stands with }⟩
    | false =>
      rw [(stored_of_released stands ticks hw hheld).machine] at hk
      exact nomatch hk

theorem waitAfter_eq {m : Machine} {i : Instruction} (hi : ∀ x, i ≠ .waitKey x) : m.waitAfter i = m.keyWait := by
  cases i with
  | waitKey x => exact absurd rfl (hi x)
  | _ => rfl

/-- Away from a word that waits, a step leaves the wait as it is. -/
theorem keyWait_step {m : Machine} (ok : m.status = .ok) (hx : ¬∃ x, m.StandsAtWait x) (ticks : Nat) :
    (m.step ticks).keyWait = m.keyWait := by
  cases hu : m.upcoming? with
  | none =>
    obtain ⟨fault, hs⟩ := step_of_upcoming?_eq_none ok hu ticks
    rw [hs]
    rfl
  | some i =>
    have hi : ∀ x, i ≠ .waitKey x := by
      rintro x rfl
      obtain ⟨hpc, hd⟩ := upcoming?_eq_some_iff.1 hu
      exact hx ⟨x, ok, hpc, hd⟩
    rw [step_of_upcoming? ok hu, Outcome.settled_keyWait, (controls_execute _ i).keyWait]
    exact waitAfter_eq hi

theorem atWait_step {m : Machine} (h : m.AtWait) (ticks : Nat) : (m.step ticks).AtWait := by
  by_cases ok : m.status = .ok
  · by_cases hx : ∃ x, m.StandsAtWait x
    · obtain ⟨x, stands⟩ := hx
      exact atWait_step_waitKey stands ticks
    · -- elsewhere no key is taken, and no step takes one
      intro key hk
      exact absurd (h key ((keyWait_step ok hx ticks).symm.trans hk)) hx
  · rw [step_of_not_ok ok]
    exact h

theorem AtWait.keypad {m : Machine} (h : m.AtWait) (keypad : Keypad) : { m with keypad }.AtWait := by
  intro key hk
  obtain ⟨x, stands⟩ := h key hk
  exact ⟨x, { stands with }⟩

theorem AtWait.display {m : Machine} (h : m.AtWait) (display : Display) : { m with display }.AtWait := by
  intro key hk
  obtain ⟨x, stands⟩ := h key hk
  exact ⟨x, { stands with }⟩

theorem atWait_perform (m : Machine) (o : Operation) (h : m.AtWait) : (m.perform o).AtWait := by
  cases o with
  | load program =>
    intro key hk
    rw [perform_load, load_eq] at hk
    exact nomatch hk
  | step ticks => exact atWait_step h ticks
  | keyDown key => exact h.keypad _
  | keyUp key => exact h.keypad _
  | takeDirty => exact h.display _

/-- **In every reachable machine whose wait has taken a key**, the word at the program counter still waits. -/
theorem Reachable.atWait {m : Machine} (h : m.Reachable) : m.AtWait :=
  h.induction (fun _ _ _ hk => nomatch hk) atWait_perform

/-- **The wait for a key, under any interleaving of keys and steps.**  A reachable machine whose wait has taken a key
stands at a word that waits.  One that has taken none and stands there waits, unchanged but for keys and timers, while
no key is down at any step; takes the lowest key that is down at the first step where there is one, and waits while that
key is down at every later step; and stores it at the first where it is up.  There is no history but in these phases or
behind them. -/
theorem Reachable.keyWait_phases {m : Machine} (h : m.Reachable) :
    m.AtWait ∧
    ∀ x, m.StandsAtWait x → m.keyWait = .idle → ∀ history, (∀ o ∈ history, o.isKeyOrStep = true) →
        (m.keypad.Untouched history → m.Waits .idle (m.run history)) ∧
        (∀ key, m.keypad.Holding key history → m.Waits (.awaiting key) (m.run history)) ∧
        (∀ key, m.keypad.Released key history → m.Stored x key (m.run history)) ∧
        (m.keypad.Untouched history ∨ (∃ key, m.keypad.Holding key history) ∨
          ∃ key earlier later, history = earlier ++ later ∧ m.keypad.Released key earlier) :=
  ⟨h.atWait, fun _ stands hw history hops =>
    ⟨waits_of_untouched stands hw history hops, fun _ => waits_of_holding stands hw history hops,
      fun _ => stored_of_phase stands hw history hops, m.keypad.phases history⟩⟩

/-- A machine that is about to wait for a key for register 3. -/
def waiting : Machine :=
  (build {} (Vector.replicate 8 0)).run [.load [0xF3, 0x0A]]

/-- Of two keys that are down the lower one is stored, when it is up at a step. -/
theorem keyWait_phases_five : waiting.Reachable ∧
    waiting.Stored 3 5 (waiting.run [.keyDown 9, .keyDown 5, .step 1, .keyUp 9, .step 2, .keyUp 5, .step 0]) := by
  have reachable : waiting.Reachable := (reachable_build _ _).run _
  refine ⟨reachable, (reachable.keyWait_phases.2 3 ⟨rfl, by decide, by decide +kernel⟩ rfl _ (by decide)).2.2.1 5 ?_⟩
  refine ⟨[.keyDown 9, .keyDown 5, .step 1, .keyUp 9, .step 2, .keyUp 5], 0, rfl,
    ⟨[.keyDown 9, .keyDown 5], 1, [.keyUp 9, .step 2, .keyUp 5], rfl, ?_, by decide, ?_⟩, by decide⟩
  · show Keypad.AtSteps _ _ (([] ++ [.keyDown 9]) ++ [.keyDown 5])
    exact Keypad.atSteps_concat.2 ⟨Keypad.atSteps_concat.2 ⟨Keypad.atSteps_nil _ _, nofun⟩, nofun⟩
  · show Keypad.AtSteps _ _ ((([] ++ [.keyUp 9]) ++ [.step 2]) ++ [.keyUp 5])
    exact Keypad.atSteps_concat.2 ⟨Keypad.atSteps_concat.2
      ⟨Keypad.atSteps_concat.2 ⟨Keypad.atSteps_nil _ _, nofun⟩, fun _ _ => by decide⟩, nofun⟩

end Machine

end Chip8
