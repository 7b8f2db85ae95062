import Mathlib
import Chip8.Proofs.Frame
import Chip8.Proofs.Loading
/-!
# Replay — random numbers by their place since the last load

A machine with a seed draws its random numbers from the stream of that seed, one word for each instruction that asks for
one, and starts over at every load.  Nothing else draws from the stream or moves on in it.  So the word that an
instruction gets is known from how many were executed before it since the last load (`rollsFrom`), and not from what
else was done (`random_replays`).
-/
namespace Chip8
namespace Machine

/-- The random numbers drawn since the last load, with an operation added to those that there were. -/
def rollsAfter (m : Machine) (rolls : Nat) : Operation → Nat
  | .load _ => 0
  | .step _ => if m.Executes [some 0xc, none, none, none] then rolls + 1 else rolls
  | _ => rolls

/-- The random numbers drawn since the last load, with a history added to those that there were. -/
def rollsFrom (m : Machine) (rolls : Nat) : List Operation → Nat
  | [] => rolls
  | o :: history => (m.perform o).rollsFrom (m.rollsAfter rolls o) history

theorem upcoming?_of_random {m : Machine} (h : m.Executes [some 0xc, none, none, none]) :
    m.upcoming? = some (.random m.currentX (UInt8.ofNat m.currentWord.toNat)) := by
  refine upcoming?_eq_some_iff.2 ⟨h.2.1, ?_⟩
  unfold Instruction.decode?
  simp only [h.firstDigit]
  rfl

theorem generator_load {m : Machine} {seed : UInt64} (hseed : m.config.seed = some seed) (program : List UInt8) :
    (m.load program).generator = .ofSeed seed := by
  rw [load_eq]
  exact Config.generator_of_seed hseed m.generator

/-- A step draws one word if it executes an instruction that asks for one, and none if it does not. -/
theorem generator_step (m : Machine) (ticks : Nat) :
    (m.step ticks).generator =
      if m.Executes [some 0xc, none, none, none] then m.generator.next.2 else m.generator := by
  by_cases h : m.Executes [some 0xc, none, none, none]
  · rw [if_pos h, step_eq_after h.1 (upcoming?_of_random h)]
    rfl
  · rw [if_neg h]
    by_cases ok : m.status = .ok
    · exact sharesWith_step ok ticks (c := .generator) h
    · rw [step_of_not_ok ok]

/-- **An operation leaves the generator of a seed in the place that its rolls say.** -/
theorem generator_perform {m : Machine} {seed : UInt64} {rolls : Nat} (hseed : m.config.seed = some seed)
    (hg : m.generator = { key := .ofSeed seed, drawn := rolls }) (o : Operation) :
    (m.perform o).generator = { key := .ofSeed seed, drawn := m.rollsAfter rolls o } := by
  cases o with
  | load program => exact generator_load hseed program
  | step ticks =>
    rw [perform_step, generator_step, hg]
    unfold rollsAfter
    split <;> rfl
  | _ => exact hg

/-- **A history leaves the generator of a seed in the place that its rolls say.** -/
theorem generator_run {m : Machine} {seed : UInt64} {rolls : Nat} (hseed : m.config.seed = some seed)
    (hg : m.generator = { key := .ofSeed seed, drawn := rolls }) (history : List Operation) :
    (m.run history).generator = { key := .ofSeed seed, drawn := m.rollsFrom rolls history } := by
  -- the rolls are general: the history goes on from those there were, and a load counts anew
  induction history generalizing m rolls with
  | nil => exact hg
  | cons o history ih =>
    have hseed' : (m.perform o).config.seed = some seed := (congrArg Config.seed (config_perform m o)).trans hseed
    exact ih hseed' (generator_perform hseed hg o)

/-- **Random numbers replay.**  A machine that was built with a seed and operated on in any way is in the stream of that
seed, as far from the start as random numbers were drawn since the last load.  An instruction that draws one puts the low
byte of the word in that place, under its mask, into its register, and it moves on by one word whatever the mask is. -/
theorem random_replays {config : Config} {seed : UInt64} (hseed : config.seed = some seed) (entropy : Random.Key)
    (history : List Operation) :
    let built := build config entropy
    let m := built.run history
    let rolls := built.rollsFrom 0 history
    m.generator = { key := .ofSeed seed, drawn := rolls } ∧
    (m.Executes [some 0xc, none, none, none] → ∀ ticks,
      (m.step ticks).register m.currentX =
        (Random.streamWord (.ofSeed seed) rolls).toUInt8 &&& UInt8.ofNat m.currentWord.toNat ∧
      (m.step ticks).generator = { key := .ofSeed seed, drawn := rolls + 1 }) := by
  intro built m rolls
  have hbuilt : built.generator = { key := .ofSeed seed, drawn := 0 } := Config.generator_of_seed hseed _
  have hg : m.generator = { key := .ofSeed seed, drawn := rolls } := generator_run hseed hbuilt history
  refine ⟨hg, fun h ticks => ⟨?_, ?_⟩⟩
  · rw [step_eq, if_pos h.1, upcoming?_of_random h]
    show (m.registers.write m.currentX (m.generator.next.1.toUInt8 &&& _)).read m.currentX = _
    rw [Registers.read_write, if_pos rfl, hg]
    rfl
  · rw [generator_step, if_pos h, hg]
    rfl

/-- A machine that was told to draw three random numbers, loaded anew after the first and has drawn one under an empty
mask since then. -/
def redrawing : List Operation :=
  [.load [0xC0, 0xFF], .step 0, .keyDown 3, .load [0xC1, 0x00, 0x61, 0x07, 0xC2, 0x0F], .step 5, .takeDirty, .step 1]

/-- The next one is made of the second word of the stream. -/
theorem random_replays_redrawing :
    let m := (build { seed := some 7 } (Vector.replicate 8 0)).run redrawing
    m.Executes [some 0xc, none, none, none] ∧
    (m.step 2).register 2 = (Random.streamWord (.ofSeed 7) 1).toUInt8 &&& 0x0F := by
  intro m
  have hruns : m.Executes [some 0xc, none, none, none] ∧ m.currentX = 2 ∧ UInt8.ofNat m.currentWord.toNat = 0x0F ∧
      (build { seed := some 7 } (Vector.replicate 8 0)).rollsFrom 0 redrawing = 1 := by
    decide +kernel
  obtain ⟨hdraws, hx, hmask, hrolls⟩ := hruns
  have hseed : ({ seed := some 7 } : Config).seed = some 7 := rfl
  obtain ⟨-, hnext⟩ := random_replays hseed (Vector.replicate 8 0) redrawing
  obtain ⟨hregister, -⟩ := hnext hdraws 2
  rw [hrolls] at hregister
  refine ⟨hdraws, ?_⟩
  rw [← hx, hregister, hmask]

end Machine

end Chip8
