import Mathlib
import Chip8.Proofs.Observation
/-!
# Noninterference — what a program cannot see of the outside

How fast the timers run, which keys are pressed and which random numbers come is not for a program to say, and it
learns of them only by asking.  Machines that are built alike and go through histories that differ in the ticks of their
steps are the same but for their timers, for as long as the first of them reads none (`agree_but_timers`).  So it is
with the keys, and with the random numbers of machines that differ in their seeds (`agree_but_keys_or_chance`).  The
cells of the machines agree as well, down to the return addresses that no call uses any more.
-/
namespace Chip8

/-- Cells with a part of other ones. -/
def Cells.withPart (r : Cells) : Part → Cells → Cells
  | .timers, s => { r with timers := s.timers }
  | .keys, s => { r with keys := s.keys }
  | .chance, s => { r with config := { r.config with seed := s.config.seed }, generator := s.generator }
  | .mark, s => { r with dirty := s.dirty }

theorem Cells.Stores.withPart {p : Part} {r s : Cells} {m n : Machine} {places : Places} (hr : r.Stores m places)
    (hs : s.Stores n places) (h : Machine.SameBut p m n) : s = r.withPart p s := by
  refine hs.unique ?_
  rw [h]
  cases p with
  | timers => exact { hr with timers := hs.timers }
  | keys => exact { hr with keys := hs.keys }
  | chance =>
    have hconfig : { r.config with seed := s.config.seed } = { m.config with seed := n.config.seed } := by
      rw [hr.config, hs.config]
    exact { hr with config := hconfig, generator := hs.generator }
  | mark => exact { hr with dirty := hs.dirty }

namespace Machine

section

variable {p : Part} {config₁ config₂ : Config} {entropy₁ entropy₂ : Random.Key} {h₁ h₂ : List Operation}

/-- **Machines that were built alike but for a part** agree in all the rest, and so do their cells, after histories that
are the same without the part, if the first does not read it. -/
theorem agree_of_unread (hbuilt : SameBut p (build config₁ entropy₁) (build config₂ entropy₂))
    (hsame : h₁.filterMap (Operation.without p) = h₂.filterMap (Operation.without p))
    (unread : (build config₁ entropy₁).Each (fun m o => ¬m.Reads p o) h₁) :
    SameBut p ((build config₁ entropy₁).run h₁) ((build config₂ entropy₂).run h₂) ∧
      ∃ r₁ r₂, Cells.reached? config₁ entropy₁ h₁ = some r₁ ∧ Cells.reached? config₂ entropy₂ h₂ = some r₂ ∧
        r₂ = r₁.withPart p r₂ := by
  obtain ⟨hrun, hplaces⟩ := hbuilt.run hsame unread .empty
  obtain ⟨r₁, hr₁, hs₁⟩ := Cells.stores_reached config₁ entropy₁ h₁
  obtain ⟨r₂, hr₂, hs₂⟩ := Cells.stores_reached config₂ entropy₂ h₂
  rw [hplaces] at hs₂
  exact ⟨hrun, r₁, r₂, hr₁, hr₂, hs₁.withPart hs₂ hrun⟩

end

/-- **Time is seen through `FX07` only.**  Two machines are built alike, with a seed or with the same entropy, and go
through histories that differ in nothing but the ticks of their steps.  If no step of the first executes an `FX07`, the
machines and their cells are the same but for the timers.  This is so after every operation, as the histories may end
with any. -/
theorem agree_but_timers (config : Config) {entropy₁ entropy₂ : Random.Key}
    (hseed : config.seed.isSome ∨ entropy₁ = entropy₂) {h₁ h₂ : List Operation}
    (hsame : h₁.filterMap (Operation.without .timers) = h₂.filterMap (Operation.without .timers))
    (unread : (build config entropy₁).Each (fun m o => ¬m.Reads .timers o) h₁) :
    let m₁ := (build config entropy₁).run h₁
    let m₂ := (build config entropy₂).run h₂
    m₂ = { m₁ with timers := m₂.timers } ∧
      ∃ r₁ r₂, Cells.reached? config entropy₁ h₁ = some r₁ ∧ Cells.reached? config entropy₂ h₂ = some r₂ ∧
        r₂ = { r₁ with timers := r₂.timers } := by
  have hbuilt : SameBut .timers (build config entropy₁) (build config entropy₂) := by
    rw [build_of_seed hseed]
    exact .refl _ _
  exact agree_of_unread hbuilt hsame unread

/-- A program that sets both counters, at two paces. -/
theorem agree_but_timers_of_paces :
    let program : List UInt8 := [0x60, 0x0A, 0xF0, 0x15, 0xF0, 0x18, 0x70, 0x01]
    let slow : List Operation := [.load program, .step 0, .step 1, .step 2, .step 3]
    let fast : List Operation := [.load program, .step 9, .step 0, .step 300, .step 0]
    let m₁ := (build {} (Vector.replicate 8 0)).run slow
    let m₂ := (build {} (Vector.replicate 8 0)).run fast
    m₁.timers = { delay := 5, sound := 7, tone := true } ∧ m₂.timers = { delay := 0, sound := 10, tone := true } ∧
      m₂ = { m₁ with timers := m₂.timers } := by
  intro program slow fast m₁ m₂
  have hsame : slow.filterMap (Operation.without .timers) = fast.filterMap (Operation.without .timers) := rfl
  obtain ⟨hslow, hfast, unread⟩ : m₁.timers = { delay := 5, sound := 7, tone := true } ∧
      m₂.timers = { delay := 0, sound := 10, tone := true } ∧
      (build {} (Vector.replicate 8 0)).Each (fun m o => ¬m.Reads .timers o) slow := by decide +kernel
  exact ⟨hslow, hfast, (agree_but_timers {} (Or.inr rfl) hsame unread).1⟩

/-- **Keys are seen through `EX9E`, `EXA1` and `FX0A` only, and random numbers through `CXNN` only.**  Two machines are
built alike, with a seed or with the same entropy, and go through the same loads, steps and questions, with any keys put
down and let up in between; if no step of the first executes an `EX9E`, an `EXA1` or an `FX0A`, the machines and their
cells are the same but for the keypad.  And two machines that are built alike but for their seeds, which one or both may
be without, go through the same operations; if no step of the first executes a `CXNN` where `NN` is not zero, the
machines and their cells are the same but for the seed and the generator. -/
theorem agree_but_keys_or_chance (config : Config) (entropy₁ entropy₂ : Random.Key) :
    (∀ h₁ h₂ : List Operation, config.seed.isSome ∨ entropy₁ = entropy₂ →
      h₁.filterMap (Operation.without .keys) = h₂.filterMap (Operation.without .keys) →
      (build config entropy₁).Each (fun m o => ¬m.Reads .keys o) h₁ →
      let m₁ := (build config entropy₁).run h₁
      let m₂ := (build config entropy₂).run h₂
      m₂ = { m₁ with keypad := m₂.keypad } ∧
        ∃ r₁ r₂, Cells.reached? config entropy₁ h₁ = some r₁ ∧ Cells.reached? config entropy₂ h₂ = some r₂ ∧
          r₂ = { r₁ with keys := r₂.keys }) ∧
    ∀ (seed : Option UInt64) (history : List Operation),
      (build config entropy₁).Each (fun m o => ¬m.Reads .chance o) history →
      let config' : Config := { config with seed }
      let m₁ := (build config entropy₁).run history
      let m₂ := (build config' entropy₂).run history
      m₂ = { m₁ with config := config', generator := m₂.generator } ∧
        ∃ r₁ r₂, Cells.reached? config entropy₁ history = some r₁ ∧
          Cells.reached? config' entropy₂ history = some r₂ ∧
          r₂ = { r₁ with config := config', generator := r₂.generator } := by
  constructor
  · intro h₁ h₂ hseed hsame unread
    have hbuilt : SameBut .keys (build config entropy₁) (build config entropy₂) := by
      rw [build_of_seed hseed]
      exact .refl _ _
    exact agree_of_unread hbuilt hsame unread
  · intro seed history unread config' m₁ m₂
    have hbuilt : SameBut .chance (build config entropy₁) (build config' entropy₂) := rfl
    obtain ⟨hrun, r₁, r₂, hr₁, hr₂, hr⟩ := agree_of_unread hbuilt rfl unread
    have hconfig : { m₁.config with seed := m₂.config.seed } = config' := by
      rw [show m₁.config = config from config_run _ history, show m₂.config = config' from config_run _ history]
    have hconfig' : { r₁.config with seed := r₂.config.seed } = config' := by
      rw [(Cells.reached?_eq_some_iff.1 hr₁).config, (Cells.reached?_eq_some_iff.1 hr₂).config]
      exact hconfig
    refine ⟨?_, r₁, r₂, hr₁, hr₂, ?_⟩
    · rw [← hconfig]
      exact hrun
    · rw [← hconfig']
      exact hr

/-- A program that draws a sprite and counts, with a key pressed in between and with another seed. -/
theorem agree_but_keys_or_chance_of_counting :
    let program : List UInt8 := [0x60, 0x05, 0xD0, 0x05, 0xC1, 0x00, 0x70, 0x01]
    let history : List Operation := [.load program, .step 1, .step 1, .step 1, .step 1]
    let pressed : List Operation := [.load program, .step 1, .keyDown 7, .step 1, .step 1, .keyUp 3, .step 1]
    let m := (build {} (Vector.replicate 8 0)).run history
    let m₁ := (build {} (Vector.replicate 8 0)).run pressed
    let m₂ := (build { seed := some 1 } (Vector.replicate 8 0)).run history
    m.register 0 = 6 ∧ m₁.keypad ≠ m.keypad ∧ m₂.generator ≠ m.generator ∧
      m₁ = { m with keypad := m₁.keypad } ∧
      m₂ = { m with config := { seed := some 1 }, generator := m₂.generator } := by
  intro program history pressed m m₁ m₂
  obtain ⟨hregister, hkeypad, hgenerator, unpressed, undrawn⟩ :
      m.register 0 = 6 ∧ m₁.keypad ≠ m.keypad ∧ m₂.generator ≠ m.generator ∧
      (build {} (Vector.replicate 8 0)).Each (fun m o => ¬m.Reads .keys o) history ∧
      (build {} (Vector.replicate 8 0)).Each (fun m o => ¬m.Reads .chance o) history := by decide +kernel
  obtain ⟨hkeys, hchance⟩ := agree_but_keys_or_chance {} (Vector.replicate 8 0) (Vector.replicate 8 0)
  exact ⟨hregister, hkeypad, hgenerator, (hkeys history pressed (Or.inr rfl) rfl unpressed).1,
    (hchance (some 1) history undrawn).1⟩

end Machine

end Chip8
