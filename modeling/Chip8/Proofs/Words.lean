import Mathlib
import Chip8.Proofs.Contents
import Chip8.Proofs.Halting
/-!
# Words — which words a step executes

A step executes a word if the machine runs and a whole word can be read at its program counter.  What kind of word it is
shows in its digits, so what is said of histories here names the pattern that the word fits, and not the instruction
that it is decoded to.  A word that fits a pattern of the instruction set has an instruction, and the instruction has its
digits (`executes_iff`, `Executes.upcoming?`).
-/
namespace Chip8
namespace Machine

/-- Whether a step of a machine executes a word that fits a pattern. -/
def Executes (m : Machine) (pattern : Pattern) : Prop :=
  m.status = .ok ∧ m.pc.toNat ≤ 0xFFE ∧ fits m.currentWord pattern = true

instance (m : Machine) (pattern : Pattern) : Decidable (m.Executes pattern) :=
  inferInstanceAs (Decidable (_ ∧ _))

section

variable {m : Machine} {i : Instruction} {pattern : Pattern}

theorem executes_iff (ok : m.status = .ok) (hu : m.upcoming? = some i) :
    m.Executes pattern ↔ pattern.fits i.digits = true := by
  obtain ⟨hpc, hd⟩ := upcoming?_eq_some_iff.1 hu
  unfold Executes
  rw [and_iff_right ok, and_iff_right hpc, fits_of_decode? hd]

theorem Executes.firstDigit {a : Nat} {places : Pattern} (h : m.Executes (some a :: places)) :
    m.currentWord.toNat / 0x1000 = a := by
  have hfits := h.2.2
  unfold fits digits at hfits
  rw [Pattern.fits, Bool.and_eq_true] at hfits
  exact (beq_iff_eq.1 hfits.1).symm

theorem Executes.upcoming? (h : m.Executes pattern) (hp : pattern ∈ patterns) : ∃ i, m.upcoming? = some i := by
  obtain ⟨-, hpc, hfits⟩ := h
  have hany : patterns.any (fits m.currentWord ·) = true := List.any_eq_true.2 ⟨pattern, hp, hfits⟩
  obtain ⟨i, hi⟩ := Option.isSome_iff_exists.1 ((isSome_decode? m.currentWord).trans (by rw [hany, Bool.true_or]))
  exact ⟨i, upcoming?_eq_some_iff.2 ⟨hpc, hi⟩⟩

theorem upcoming?_of_device {c d : Nat} (h : m.Executes [some 0xf, none, some c, some d]) :
    m.upcoming? = Instruction.ofDeviceByte? m.currentX (0x10 * c + d) := by
  have hlast : m.currentWord.toNat % 0x100 = 0x10 * c + d := by
    obtain ⟨-, -, hc, hd⟩ := fits_iff.1 h.2.2
    have := hc c rfl
    have := hd d rfl
    omega
  unfold Machine.upcoming? Instruction.decode?
  rw [if_pos h.2.1]
  simp only [h.firstDigit, hlast]
  rfl

theorem not_executes (hu : m.upcoming? = none) (hp : pattern ∈ patterns) : ¬m.Executes pattern := fun h => by
  obtain ⟨i, hi⟩ := h.upcoming? hp
  rw [hu] at hi
  exact nomatch hi

theorem currentX_eq (hu : m.upcoming? = some i) {a : Nat} {x : Register} {rest : List Nat}
    (hi : i.digits = a :: x.val :: rest) : m.currentX = x :=
  x_of_digits ((digits_of_decode? (upcoming?_eq_some_iff.1 hu).2).trans hi)

theorem currentY_eq (hu : m.upcoming? = some i) {a d : Nat} {x y : Register} (hi : i.digits = [a, x.val, y.val, d]) :
    m.currentY = y :=
  y_of_digits ((digits_of_decode? (upcoming?_eq_some_iff.1 hu).2).trans hi)

end

end Machine

end Chip8
