import Mathlib
import Chip8.Machine.Operation
/-!
# History — the machines that operations can lead to, and what was told on the way

A machine is reachable when it was built with some configuration and then operated on in any way.  What holds of every
built machine and is kept by every operation holds of every reachable one (`Reachable.induction`).  The trace of a
history is what its operations told, one after the other; the instructions executed in it are read off the trace, and
the answers of a history are what its operations gave back.
-/
namespace Chip8

/-! ## Splits of a list -/

section

variable {α : Type} {l before after : List α} {a b : α}

theorem concat_eq_split_iff :
    l ++ [a] = before ++ b :: after ↔
      before = l ∧ b = a ∧ after = [] ∨ ∃ rest, after = rest ++ [a] ∧ l = before ++ b :: rest := by
  constructor
  · intro hs
    rcases List.eq_nil_or_concat after with rfl | ⟨rest, last, rfl⟩
    · obtain ⟨rfl, heq⟩ := List.append_inj' hs rfl
      exact Or.inl ⟨rfl, (List.singleton_inj.1 heq).symm, rfl⟩
    · rw [List.concat_eq_append, ← List.cons_append, ← List.append_assoc] at hs
      obtain ⟨rfl, heq⟩ := List.append_inj' hs rfl
      exact Or.inr ⟨rest, by rw [List.concat_eq_append, heq], rfl⟩
  · rintro (⟨rfl, rfl, rfl⟩ | ⟨rest, rfl, rfl⟩)
    · rfl
    · exact List.append_assoc ..

theorem exists_split_concat {p : List α → α → List α → Prop} :
    (∃ before b after, l ++ [a] = before ++ b :: after ∧ p before b after) ↔
      p l a [] ∨ ∃ before b after, l = before ++ b :: after ∧ p before b (after ++ [a]) := by
  constructor
  · rintro ⟨before, b, after, hs, hp⟩
    rcases concat_eq_split_iff.1 hs with ⟨rfl, rfl, rfl⟩ | ⟨rest, rfl, hl⟩
    · exact Or.inl hp
    · exact Or.inr ⟨before, b, rest, hl, hp⟩
  · rintro (hp | ⟨before, b, after, rfl, hp⟩)
    · exact ⟨l, a, [], rfl, hp⟩
    · exact ⟨before, b, after ++ [a], List.append_assoc .., hp⟩

end

/-! ## Events and answers -/

def Event.executed? : Event → Option Instruction
  | .executing _ _ i => some i
  | _ => none

def lastExecuted? (events : List Event) : Option Instruction :=
  (events.filterMap Event.executed?).getLast?

theorem lastExecuted?_append (a b : List Event) : lastExecuted? (a ++ b) = (lastExecuted? b).or (lastExecuted? a) := by
  unfold lastExecuted?
  rw [List.filterMap_append, List.getLast?_append]

theorem lastExecuted?_executing (pc word : UInt16) (i : Instruction) {events : List Event}
    (h : events.filterMap Event.executed? = []) : lastExecuted? (.executing pc word i :: events) = some i := by
  unfold lastExecuted?
  rw [List.filterMap_cons, h]
  rfl

namespace Machine

/-- What an operation answers. -/
inductive Answer where
  | nothing
  /-- the status behind a load or a step -/
  | status (s : Status)
  /-- whether the screen was drawn on -/
  | drawnOn (dirty : Bool)
  deriving DecidableEq, Repr

def answer (m : Machine) : Operation → Answer
  | .load program => .status (m.load program).status
  | .step ticks => .status (m.step ticks).status
  | .takeDirty => .drawnOn m.takeDirty.1
  | _ => .nothing

def answers (m : Machine) : List Operation → List Answer
  | [] => []
  | o :: history => m.answer o :: (m.perform o).answers history

/-! ## Runs -/

/-- Built with some configuration, and operated on in any way since. -/
def Reachable (m : Machine) : Prop :=
  ∃ (config : Config) (entropy : Random.Key) (history : List Operation), m = (build config entropy).run history

def trace (m : Machine) : List Operation → List Event
  | [] => []
  | o :: history => (m.performTraced o).events ++ (m.perform o).trace history

@[simp] theorem run_nil (m : Machine) : m.run [] = m := rfl

@[simp] theorem run_cons (m : Machine) (o : Operation) (history : List Operation) :
    m.run (o :: history) = (m.perform o).run history := rfl

theorem perform_load (m : Machine) (program : List UInt8) : m.perform (.load program) = m.load program := rfl

theorem perform_step (m : Machine) (ticks : Nat) : m.perform (.step ticks) = m.step ticks := rfl

theorem performTraced_step (m : Machine) (ticks : Nat) : m.performTraced (.step ticks) = m.stepTraced ticks := rfl

theorem run_append (m : Machine) (h₁ h₂ : List Operation) : m.run (h₁ ++ h₂) = (m.run h₁).run h₂ := by
  unfold run
  rw [List.foldl_append]

theorem run_concat (m : Machine) (history : List Operation) (o : Operation) :
    m.run (history ++ [o]) = (m.run history).perform o := by
  rw [run_append]
  rfl

theorem trace_append (m : Machine) (h₁ h₂ : List Operation) :
    m.trace (h₁ ++ h₂) = m.trace h₁ ++ (m.run h₁).trace h₂ := by
  induction h₁ generalizing m with
  | nil => rfl
  | cons o h₁ ih =>
    rw [List.cons_append, trace, trace, ih, List.append_assoc, run_cons]

theorem trace_singleton (m : Machine) (o : Operation) : m.trace [o] = (m.performTraced o).events :=
  List.append_nil _

theorem reachable_build (config : Config) (entropy : Random.Key) : (build config entropy).Reachable :=
  ⟨config, entropy, [], rfl⟩

theorem Reachable.run {m : Machine} (h : m.Reachable) (history : List Operation) : (m.run history).Reachable := by
  obtain ⟨config, entropy, before, rfl⟩ := h
  exact ⟨config, entropy, before ++ history, (run_append _ _ _).symm⟩

/-- **What operations keep holds along every history.** -/
theorem run_induction {P : Machine → Prop} (step : ∀ m o, P m → P (m.perform o)) {m : Machine} (h : P m)
    (history : List Operation) : P (m.run history) := by
  induction history generalizing m with
  | nil => exact h
  | cons o history ih => exact ih (step m o h)

/-- **What holds of built machines and is kept by operations holds of every reachable machine.** -/
theorem Reachable.induction {P : Machine → Prop} (built : ∀ config entropy, P (build config entropy))
    (step : ∀ m o, P m → P (m.perform o)) {m : Machine} (h : m.Reachable) : P m := by
  obtain ⟨config, entropy, history, rfl⟩ := h
  exact run_induction step (built config entropy) history

/-! ## What holds of every operation -/

/-- Whether every operation of a history has a property on the machine that it finds. -/
def Each (m : Machine) (P : Machine → Operation → Prop) : List Operation → Prop
  | [] => True
  | o :: history => P m o ∧ (m.perform o).Each P history

instance decidableEach {P : Machine → Operation → Prop} [∀ m o, Decidable (P m o)] (m : Machine) :
    (history : List Operation) → Decidable (m.Each P history)
  | [] => inferInstanceAs (Decidable True)
  | o :: history =>
    have := decidableEach (P := P) (m.perform o) history
    inferInstanceAs (Decidable (_ ∧ _))

theorem each_append {m : Machine} {P : Machine → Operation → Prop} {h₁ h₂ : List Operation} :
    m.Each P (h₁ ++ h₂) ↔ m.Each P h₁ ∧ (m.run h₁).Each P h₂ := by
  induction h₁ generalizing m with
  | nil => exact (iff_of_eq (true_and _)).symm
  | cons o h₁ ih => exact (and_congr_right fun _ => ih).trans and_assoc.symm

theorem each_concat {m : Machine} {P : Machine → Operation → Prop} {history : List Operation} {o : Operation} :
    m.Each P (history ++ [o]) ↔ m.Each P history ∧ P (m.run history) o :=
  each_append.trans (and_congr_right fun _ => iff_of_eq (and_true _))

/-- Whether a property holds after each of the operations of a history, and before the first. -/
def Throughout (m : Machine) (P : Machine → Prop) (history : List Operation) : Prop :=
  ∀ seen, seen <+: history → P (m.run seen)

theorem throughout_nil {m : Machine} {P : Machine → Prop} : m.Throughout P [] ↔ P m := by
  unfold Throughout
  simp only [List.prefix_nil, forall_eq, run_nil]

theorem throughout_concat {m : Machine} {P : Machine → Prop} {history : List Operation} {o : Operation} :
    m.Throughout P (history ++ [o]) ↔ m.Throughout P history ∧ P (m.run (history ++ [o])) := by
  unfold Throughout
  simp only [List.prefix_concat_iff, or_imp, forall_and, forall_eq]
  exact and_comm

end Machine

end Chip8
