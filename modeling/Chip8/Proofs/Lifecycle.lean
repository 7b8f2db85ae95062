import Mathlib
import Chip8.Proofs.KeyWait
import Chip8.Proofs.Words
/-!
# Lifecycle — the status of a machine, from one load to the next

A machine is reset until something is loaded into it, and never again.  Loading starts it, or stops it at once if the
program is too big, whatever its status was; a step leaves a running machine running or stops it, with any other fault;
and a machine that has stopped stays as it is.  Nothing but the next load changes it: keys can be pressed and the screen
be looked at, but it takes no notice (`status_life_cycle`).  What loads and steps answer is the status that they leave,
and so the last of these answers is the status of the machine (`status_run`).
-/
namespace Chip8
namespace Machine

def Answer.status? : Answer → Option Status
  | .status s => some s
  | _ => none

/-- The status that a load or a step of a history answered last, or that of a machine that was reset if none did. -/
def lastAnswered (m : Machine) (history : List Operation) : Status :=
  ((m.answers history).filterMap Answer.status?).getLast?.getD .reset

/-! ## One operation -/

theorem status_perform (m : Machine) (o : Operation) : (m.perform o).status = (m.answer o).status?.getD m.status := by
  cases o <;> rfl

theorem status_load (m : Machine) (program : List UInt8) :
    (m.load program).status =
      if program.length ≤ programCapacity then .ok else .halted (.programTooBig program.length) := by
  rw [load_eq]

/-- Only building a machine resets it, in the sense of its status. -/
theorem reset_perform_iff {m : Machine} {o : Operation} :
    (m.perform o).status = .reset ↔ m.status = .reset ∧ ∀ program, o ≠ .load program := by
  cases o with
  | load program =>
    rw [perform_load, status_load]
    refine iff_of_false ?_ fun h => h.2 program rfl
    split <;> exact nofun
  | step ticks =>
    rw [perform_step]
    by_cases ok : m.status = .ok
    · refine iff_of_false (fun h => ?_) (fun h => nomatch ok.symm.trans h.1)
      rcases status_step_of_ok ok ticks with hs | ⟨fault, hs⟩
      · exact nomatch hs.symm.trans h
      · exact nomatch hs.symm.trans h
    · rw [step_of_not_ok ok]
      exact (and_iff_left nofun).symm
  | _ => exact (and_iff_left nofun).symm

theorem mem_of_firstFault? {reasons : List (Bool × Fault)} {fault : Fault} (h : firstFault? reasons = some fault) :
    fault ∈ reasons.map Prod.snd := by
  obtain ⟨reason, hfind, rfl⟩ := Option.map_eq_some_iff.1 h
  exact List.mem_map_of_mem (List.mem_of_find?_eq_some hfind)

/-- No reason for a step to stop the machine is that a program is too big. -/
theorem programTooBig_notMem (m : Machine) (size : Nat) : .programTooBig size ∉ m.haltReasons.map Prod.snd := by
  simp [haltReasons, instructionReasons]

theorem programTooBig_step {m : Machine} (wf : m.WellFormed) {ticks size : Nat}
    (h : (m.step ticks).status = .halted (.programTooBig size)) : m.status = .halted (.programTooBig size) := by
  by_cases ok : m.status = .ok
  · rw [status_step wf ok] at h
    cases hf : firstFault? m.haltReasons with
    | none => rw [hf] at h; exact nomatch h
    | some fault =>
      rw [hf] at h
      have hmem := mem_of_firstFault? hf
      rw [Status.halted.inj h] at hmem
      exact absurd hmem (programTooBig_notMem m size)
  · rwa [step_of_not_ok ok] at h

/-! ## Histories -/

/-- **The status of a machine is the last one that was answered**, or the one that it had before. -/
theorem status_run (m : Machine) (history : List Operation) :
    (m.run history).status = ((m.answers history).filterMap Answer.status?).getLast?.getD m.status := by
  induction history generalizing m with
  | nil => rfl
  | cons o history ih =>
    rw [run_cons, ih, status_perform, answers]
    cases hs : (m.answer o).status? with
    | none => rw [List.filterMap_cons_none hs]; rfl
    | some s =>
      rw [List.filterMap_cons_some hs, List.getLast?_cons, Option.getD_some]
      rfl

theorem reset_run_iff {m : Machine} {history : List Operation} :
    (m.run history).status = .reset ↔ m.status = .reset ∧ ∀ program, .load program ∉ history := by
  induction history generalizing m with
  | nil => exact (and_iff_left fun _ => List.not_mem_nil).symm
  | cons o history ih =>
    rw [run_cons, ih, reset_perform_iff, and_assoc, ← forall_and]
    simp only [List.mem_cons, not_or, ne_eq, eq_comm (a := o)]

theorem perform_of_not_ok {m : Machine} (h : m.status ≠ .ok) {o : Operation} (ho : ∀ program, o ≠ .load program) :
    m.perform o = { m with
      keypad := m.keypad.hear o
      display := { m.display with dirty := m.display.dirty && decide (o ≠ .takeDirty) } } := by
  cases o with
  | load program => exact absurd rfl (ho program)
  | step ticks =>
    rw [perform_step, step_of_not_ok h, decide_eq_true nofun, Bool.and_true]
    rfl
  | keyDown key | keyUp key =>
    rw [decide_eq_true nofun, Bool.and_true]
    rfl
  | takeDirty =>
    rw [decide_eq_false (not_not.2 rfl), Bool.and_false]
    rfl

/-- **A machine that does not run stays as it is** until the next load, but for the keys and the mark of the screen. -/
theorem run_of_not_ok {m : Machine} (h : m.status ≠ .ok) {history : List Operation}
    (hload : ∀ program, .load program ∉ history) :
    m.run history = { m with
      keypad := m.keypad.after history
      display := { m.display with dirty := m.display.dirty && decide (.takeDirty ∉ history) } } := by
  induction history generalizing m with
  | nil =>
    rw [decide_eq_true List.not_mem_nil, Bool.and_true]
    rfl
  | cons o history ih =>
    have ho : ∀ program, o ≠ .load program := by
      rintro program rfl
      exact hload program List.mem_cons_self
    have hrest : ∀ program, .load program ∉ history := fun program hp => hload program (List.mem_cons_of_mem o hp)
    have hperform := perform_of_not_ok h ho
    have hnext : (m.perform o).status ≠ .ok := by
      rw [hperform]
      exact h
    have hmark : decide (Operation.takeDirty ∉ o :: history) =
        (decide (o ≠ .takeDirty) && decide (Operation.takeDirty ∉ history)) := by
      rw [← Bool.decide_and]
      simp only [List.mem_cons, not_or, ne_eq, eq_comm (a := o)]
    rw [run_cons, ih hnext hrest, hperform, hmark, ← Bool.and_assoc]
    rfl

/-- **The life of a machine, told by its status.**  After any history it is the one that a load or a step answered last,
and *reset* exactly if nothing was loaded.  A load, whatever the status before it, starts the machine or stops it because
the program is too big; a step does not stop it for that reason, and does not reset it.  Once the machine does not run,
any history without a load leaves all of it as it is, but for the keys that are pressed in it and for the mark that the
screen was drawn on, which goes when it is asked for. -/
theorem status_life_cycle (config : Config) (entropy : Random.Key) (history : List Operation) :
    let built := build config entropy
    let m := built.run history
    m.status = built.lastAnswered history ∧
    (m.status = .reset ↔ ∀ program, .load program ∉ history) ∧
    (∀ program, (m.load program).status =
      if program.length ≤ 3584 then .ok else .halted (.programTooBig program.length)) ∧
    (∀ ticks, ((m.step ticks).status = .reset → m.status = .reset) ∧
      ∀ size, (m.step ticks).status = .halted (.programTooBig size) → m.status = .halted (.programTooBig size)) ∧
    (m.status ≠ .ok → ∀ later, (∀ program, .load program ∉ later) →
      m.run later = { m with
        keypad := m.keypad.after later
        display := { m.display with dirty := m.display.dirty && decide (.takeDirty ∉ later) } }) := by
  intro built m
  have wf : m.WellFormed := ((reachable_build config entropy).run history).wellFormed
  have hreset : m.status = .reset ↔ built.status = .reset ∧ ∀ program, .load program ∉ history := reset_run_iff
  exact ⟨status_run built history, hreset.trans (and_iff_right rfl), status_load m,
    fun ticks => ⟨fun h => (reset_perform_iff (o := .step ticks).1 h).1, fun _ => programTooBig_step wf⟩,
    fun h _ => run_of_not_ok h⟩

/-- A machine that stopped at a return with no call open. -/
def stopped : Machine :=
  (build {} (Vector.replicate 8 0)).run [.load [0x00, 0xEE], .step 0]

/-- It takes no notice of what comes after that. -/
theorem status_life_cycle_stopped :
    stopped.status = .halted .stackUnderflow ∧
    (build {} (Vector.replicate 8 0)).lastAnswered [.load [0x00, 0xEE], .step 0] = .halted .stackUnderflow ∧
    stopped.run [.keyDown 5, .step 300, .takeDirty, .step 0] =
      { stopped with keypad := stopped.keypad.press 5, display := { stopped.display with dirty := false } } := by
  have hstatus : stopped.status = .halted .stackUnderflow := by decide +kernel
  have hstopped : stopped.status ≠ .ok := by
    rw [hstatus]
    exact nofun
  obtain ⟨hanswered, -, -, -, hstays⟩ :=
    status_life_cycle {} (Vector.replicate 8 0) [.load [0x00, 0xEE], .step 0]
  have hrun := hstays hstopped [.keyDown 5, .step 300, .takeDirty, .step 0] (by simp)
  have hkeys (k : Keypad) : k.after [.keyDown 5, .step 300, .takeDirty, .step 0] = k.press 5 := rfl
  rw [hkeys, decide_eq_false (by simp), Bool.and_false] at hrun
  refine ⟨hstatus, hanswered.symm.trans hstatus, ?_⟩
  unfold stopped
  exact hrun

end Machine

end Chip8
