import Mathlib
import Chip8.Proofs.Words
/-!
# Redraw — when the screen has to be shown again

Whoever shows the screen asks whether it was drawn on, and asking takes the mark away.  A load leaves the mark, and so
does every step that clears the screen or draws a sprite, also one that meets a fault on the way or inverts no pixel.
Nothing else does, and nothing else changes a pixel.  So the answer is *yes* exactly if one of these came since it was
asked last, or if it was never asked (`takeDirty_iff`), and while it is *no* the picture that was shown is the picture
there is.
-/
namespace Chip8
namespace Machine

/-- Whether an operation of a machine draws on its screen: a load does, and a step that clears the screen, `00E0`, or
draws a sprite, `DXYN`. -/
def Redraws (m : Machine) : Operation → Prop
  | .load _ => True
  | .step _ =>
    m.Executes [some 0x0, some 0x0, some 0xe, some 0x0] ∨ m.Executes [some 0xd, none, none, none]
  | _ => False

instance (m : Machine) : (o : Operation) → Decidable (m.Redraws o)
  | .load _ => .isTrue trivial
  | .step _ => inferInstanceAs (Decidable (_ ∨ _))
  | .keyDown _ | .keyUp _ | .takeDirty => .isFalse id

/-- Whether a history draws on the screen after the last time that it asks for that; if it never asks, building the
machine has drawn on it. -/
def DrawnOn (m : Machine) (history : List Operation) : Prop :=
  .takeDirty ∉ history ∨
    ∃ earlier o later, history = earlier ++ o :: later ∧ (m.run earlier).Redraws o ∧ .takeDirty ∉ later

theorem drawnOn_concat {m : Machine} {history : List Operation} {o : Operation} :
    m.DrawnOn (history ++ [o]) ↔ (m.run history).Redraws o ∨ m.DrawnOn history ∧ o ≠ .takeDirty := by
  unfold DrawnOn
  rw [exists_split_concat]
  simp only [List.mem_append, List.mem_singleton, not_or, List.not_mem_nil, not_false_eq_true, and_true, ne_eq,
    eq_comm (a := Operation.takeDirty)]
  constructor
  · rintro (⟨hnever, ho⟩ | hr | ⟨earlier, last, later, hs, hr, hlater, ho⟩)
    · exact Or.inr ⟨Or.inl hnever, ho⟩
    · exact Or.inl hr
    · exact Or.inr ⟨Or.inr ⟨earlier, last, later, hs, hr, hlater⟩, ho⟩
  · rintro (hr | ⟨hnever | ⟨earlier, last, later, hs, hr, hlater⟩, ho⟩)
    · exact Or.inr (Or.inl hr)
    · exact Or.inl ⟨hnever, ho⟩
    · exact Or.inr (Or.inr ⟨earlier, last, later, hs, hr, hlater, ho⟩)

/-! ## One operation -/

theorem not_fits_clear {word : UInt16} {nnn : Address} (h : Instruction.decode? word = some (.machineRoutine nnn)) :
    fits word [some 0x0, some 0x0, some 0xe, some 0x0] = false := by
  refine Bool.eq_false_iff.2 fun hfits => ?_
  have hle := routine_of_decode? h
  obtain ⟨ha, hb, hc, hd⟩ := fits_iff.1 hfits
  have := ha _ rfl
  have := hb _ rfl
  have := hc _ rfl
  have := hd _ rfl
  omega

section

variable {m : Machine} {i : Instruction} (ok : m.status = .ok) (hu : m.upcoming? = some i)
include ok hu

theorem redraws_iff (ticks : Nat) : m.Redraws (.step ticks) ↔ i = .clearScreen ∨ ∃ x y n, i = .draw x y n := by
  show m.Executes _ ∨ m.Executes _ ↔ _
  rw [executes_iff ok hu, executes_iff ok hu]
  cases i with
  | clearScreen => exact iff_of_true (Or.inl rfl) (Or.inl rfl)
  | draw x y n => exact iff_of_true (Or.inr rfl) (Or.inr ⟨x, y, n, rfl⟩)
  | machineRoutine nnn =>
    have hd := (upcoming?_eq_some_iff.1 hu).2
    have hclear := not_fits_clear hd
    rw [fits_of_decode? hd] at hclear
    rw [hclear]
    simp [Pattern.fits, Instruction.digits]
  | skip condition =>
    simp [Instruction.digits, fits_skip condition 0x0 (by decide), fits_skip condition 0xd (by decide)]
  | _ => simp [Pattern.fits, Instruction.digits]

end

theorem display_step (m : Machine) (ticks : Nat) :
    (m.Redraws (.step ticks) ∧ (m.step ticks).display.dirty = true) ∨
      (¬m.Redraws (.step ticks) ∧ (m.step ticks).display = m.display) := by
  rw [step_eq]
  by_cases ok : m.status = .ok
  · rw [if_pos ok]
    cases hu : m.upcoming? with
    | none =>
      refine Or.inr ⟨?_, rfl⟩
      rintro (h | h)
      · exact not_executes hu (by decide) h
      · exact not_executes hu (by decide) h
    | some i =>
      rw [redraws_iff ok hu]
      cases i with
      | clearScreen => exact Or.inl ⟨Or.inl rfl, rfl⟩
      | draw x y n => exact Or.inl ⟨Or.inr ⟨x, y, n, rfl⟩, rfl⟩
      | _ => exact Or.inr ⟨by simp, rfl⟩
  · rw [if_neg ok]
    refine Or.inr ⟨?_, rfl⟩
    rintro (h | h)
    · exact ok h.1
    · exact ok h.1

/-- **What an operation does to the screen**: it draws on it and leaves the mark, or takes the mark away, or neither. -/
theorem display_perform (m : Machine) (o : Operation) :
    (m.Redraws o ∧ (m.perform o).display.dirty = true) ∨
      ¬m.Redraws o ∧ (o = .takeDirty ∧ (m.perform o).display = { m.display with dirty := false } ∨
        o ≠ .takeDirty ∧ (m.perform o).display = m.display) := by
  cases o with
  | load program => exact Or.inl ⟨trivial, by rw [perform_load, load_eq]; rfl⟩
  | step ticks => exact (display_step m ticks).imp_right fun ⟨hr, hd⟩ => ⟨hr, Or.inr ⟨nofun, hd⟩⟩
  | takeDirty => exact Or.inr ⟨id, Or.inl ⟨rfl, rfl⟩⟩
  | keyDown key => exact Or.inr ⟨id, Or.inr ⟨nofun, rfl⟩⟩
  | keyUp key => exact Or.inr ⟨id, Or.inr ⟨nofun, rfl⟩⟩

/-! ## Histories -/

/-- **A machine has the mark exactly if its history drew on the screen since it asked.** -/
theorem dirty_run_iff {m : Machine} (hm : m.display.dirty = true) (history : List Operation) :
    (m.run history).display.dirty = true ↔ m.DrawnOn history := by
  induction history using List.reverseRecOn with
  | nil => exact iff_of_true hm (Or.inl List.not_mem_nil)
  | append_singleton history o ih =>
    rw [run_concat, drawnOn_concat]
    rcases display_perform (m.run history) o with ⟨hr, hd⟩ | ⟨hr, ⟨rfl, hd⟩ | ⟨ho, hd⟩⟩
    · exact iff_of_true hd (Or.inl hr)
    · rw [hd]
      exact iff_of_false Bool.false_ne_true (not_or.2 ⟨hr, fun h => h.2 rfl⟩)
    · rw [hd, ih]
      exact ⟨fun h => Or.inr ⟨h, ho⟩, fun h => (h.resolve_left hr).1⟩

/-- The last time that a history asks for the mark, if nothing has drawn on the screen since. -/
theorem screen_since {m : Machine} (history : List Operation) (h : ¬m.DrawnOn history) :
    ∃ earlier later, history = earlier ++ .takeDirty :: later ∧ .takeDirty ∉ later ∧
      (m.run history).display.screen = (m.run earlier).display.screen := by
  induction history using List.reverseRecOn with
  | nil => exact absurd (Or.inl List.not_mem_nil) h
  | append_singleton history o ih =>
    rw [drawnOn_concat, not_or] at h
    rw [run_concat]
    rcases display_perform (m.run history) o with ⟨hr, -⟩ | ⟨-, ⟨rfl, hd⟩ | ⟨ho, hd⟩⟩
    · exact absurd hr h.1
    · exact ⟨history, [], rfl, List.not_mem_nil, by rw [hd]⟩
    · obtain ⟨earlier, later, rfl, hlater, hscreen⟩ := ih fun hn => h.2 ⟨hn, ho⟩
      refine ⟨earlier, later ++ [o], List.append_assoc .., ?_, by rw [hd]; exact hscreen⟩
      rw [List.mem_append, List.mem_singleton]
      exact not_or.2 ⟨hlater, ho.symm⟩

/-- **No redraw is missed, and none is made for nothing.**  After any history of a machine, asking whether the screen was
drawn on is answered by *yes* exactly if a load, a `00E0` or a `DXYN` came since it was asked last, or if it was never
asked since the machine was built.  If the answer is *no*, it was asked before, and every pixel is as it was then; and
asked again at once, the answer is *no*. -/
theorem takeDirty_iff (config : Config) (entropy : Random.Key) (history : List Operation) :
    let built := build config entropy
    let m := built.run history
    (m.takeDirty.1 = true ↔ built.DrawnOn history) ∧
    (m.takeDirty.1 = false →
      ∃ earlier later, history = earlier ++ .takeDirty :: later ∧ .takeDirty ∉ later ∧
        ∀ x y, m.display.screen.pixel x y = (built.run earlier).display.screen.pixel x y) ∧
    (m.perform .takeDirty).takeDirty.1 = false := by
  intro built m
  have hdirty : m.takeDirty.1 = true ↔ built.DrawnOn history := dirty_run_iff rfl history
  refine ⟨hdirty, fun hclean => ?_, rfl⟩
  have hnone : ¬built.DrawnOn history := fun hd => by
    rw [hdirty.2 hd] at hclean
    exact Bool.noConfusion hclean
  obtain ⟨earlier, later, hs, hlater, hscreen⟩ := screen_since history hnone
  exact ⟨earlier, later, hs, hlater, fun x y => by rw [show m.display.screen = _ from hscreen]⟩

end Machine

end Chip8
