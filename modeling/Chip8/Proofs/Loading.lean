import Mathlib
import Chip8.Proofs.Cells.Places
/-!
# Loading — what a load leaves of the past

A load resets the machine, and what a reset leaves is a function of what the machine was built with and of where its
random numbers have come to.  Of the settings that it was built with the last of each kind counts, and with a seed among
them the random numbers start over too.  So two machines that were built alike are the same machine after a load,
whatever was done to them before, and stay the same for as long as the same is done to both (`load_forgets`); without a
seed they are the same up to their random numbers.  This goes for their cells as well, down to the return addresses that
no call uses any more.
-/
namespace Chip8

/-! ## The last setting of each kind -/

namespace Setting

def font? : Setting → Option (List UInt8)
  | font bytes => some bytes
  | _ => none

def dialect? : Setting → Option Dialect
  | interpreter i => some i.dialect
  | dialect d => some d
  | _ => none

def seed? : Setting → Option UInt64
  | seed s => some s
  | _ => none

/-- What the last setting of a kind says, if there is one of that kind. -/
def last? {α : Type} (kind? : Setting → Option α) (settings : List Setting) : Option α :=
  (settings.filterMap kind?).getLast?

theorem last?_concat {α : Type} (kind? : Setting → Option α) (settings : List Setting) (s : Setting) :
    last? kind? (settings ++ [s]) = (kind? s).or (last? kind? settings) := by
  unfold last?
  rw [List.filterMap_append, List.getLast?_append]
  cases h : kind? s <;> simp [h]

end Setting

/-- Two lists of settings agree in the last of each kind, where the default stands for a setting that was not made. -/
structure SameSettings (s₁ s₂ : List Setting) : Prop where
  font : (Setting.last? Setting.font? s₁).getD Font.standard.toList =
    (Setting.last? Setting.font? s₂).getD Font.standard.toList
  dialect : (Setting.last? Setting.dialect? s₁).getD {} = (Setting.last? Setting.dialect? s₂).getD {}
  seed : Setting.last? Setting.seed? s₁ = Setting.last? Setting.seed? s₂

namespace Config

/-- The configuration is the one that the last settings say. -/
structure Follows (c : Config) (settings : List Setting) : Prop where
  font : c.font.toList = (Setting.last? Setting.font? settings).getD Font.standard.toList
  dialect : c.dialect = (Setting.last? Setting.dialect? settings).getD {}
  seed : c.seed = Setting.last? Setting.seed? settings

theorem ofSettings_concat (settings : List Setting) (s : Setting) :
    ofSettings (settings ++ [s]) = (ofSettings settings).bind (·.set s) := by
  unfold ofSettings
  rw [List.foldlM_append]
  simp only [List.foldlM_cons, List.foldlM_nil, bind_pure]
  rfl

theorem Follows.set {c c' : Config} {settings : List Setting} {s : Setting} (h : c.Follows settings)
    (hs : c.set s = .ok c') : c'.Follows (settings ++ [s]) := by
  cases s with
  | interpreter i =>
    obtain rfl := Except.ok.inj hs
    constructor <;> rw [Setting.last?_concat]
    exacts [h.font, rfl, h.seed]
  | dialect d =>
    obtain rfl := Except.ok.inj hs
    constructor <;> rw [Setting.last?_concat]
    exacts [h.font, rfl, h.seed]
  | seed n =>
    obtain rfl := Except.ok.inj hs
    constructor <;> rw [Setting.last?_concat]
    exacts [h.font, h.dialect, rfl]
  | font bytes =>
    change (Font.ofBytes? bytes).map (fun font => { c with font }) = .ok c' at hs
    unfold Font.ofBytes? at hs
    split at hs
    · obtain rfl := Except.ok.inj hs
      constructor <;> rw [Setting.last?_concat]
      exacts [List.toList_toArray, h.dialect, h.seed]
    · exact nomatch hs

/-- **A configuration follows the settings that it is made of.** -/
theorem follows_ofSettings {c : Config} {settings : List Setting} (h : ofSettings settings = .ok c) :
    c.Follows settings := by
  induction settings using List.reverseRecOn generalizing c with
  | nil =>
    obtain rfl : {} = c := Except.ok.inj h
    exact ⟨rfl, rfl, rfl⟩
  | append_singleton settings s ih =>
    rw [ofSettings_concat] at h
    cases hc : ofSettings settings with
    | error e => rw [hc] at h; exact nomatch h
    | ok c₀ =>
      rw [hc] at h
      exact (ih hc).set h

theorem eq_of_sameSettings {c₁ c₂ : Config} {s₁ s₂ : List Setting} (h₁ : ofSettings s₁ = .ok c₁)
    (h₂ : ofSettings s₂ = .ok c₂) (same : SameSettings s₁ s₂) : c₁ = c₂ := by
  have h₁ := follows_ofSettings h₁
  have h₂ := follows_ofSettings h₂
  have hfont : c₁.font = c₂.font := Vector.toList_inj.1 (h₁.font.trans (same.font.trans h₂.font.symm))
  have hdialect : c₁.dialect = c₂.dialect := h₁.dialect.trans (same.dialect.trans h₂.dialect.symm)
  have hseed : c₁.seed = c₂.seed := h₁.seed.trans (same.seed.trans h₂.seed.symm)
  cases c₁
  cases c₂
  rw [Config.mk.injEq]
  exact ⟨hfont, hdialect, hseed⟩

end Config

/-! ## What a load leaves -/

namespace Machine

/-- **A load leaves the same of any two machines that were built alike**, up to their random numbers. -/
theorem load_congr {m m' : Machine} (h : m'.config = m.config) (program : List UInt8) :
    m'.load program = { m.load program with generator := m.config.generator m'.generator } := by
  rw [load_eq, load_eq]
  unfold reset
  rw [h]
  rfl

/-- With a seed the random numbers are the same too. -/
theorem load_of_seed {m m' : Machine} {s : UInt64} (h : m'.config = m.config) (hs : m.config.seed = some s)
    (program : List UInt8) : m'.load program = m.load program := by
  rw [load_congr h, Config.generator_of_seed hs, ← Config.generator_of_seed hs m.generator, load_eq]
  rfl

section

variable (c : Config) (entropy₁ entropy₂ : Random.Key) (before₁ before₂ : List Operation) (program : List UInt8)

theorem config_after_runs : ((build c entropy₂).run before₂).config = ((build c entropy₁).run before₁).config :=
  (config_run (build c entropy₂) before₂).trans (config_run (build c entropy₁) before₁).symm

/-- A load leaves the same cells, up to the random numbers. -/
theorem cells_load :
    let generator := (((build c entropy₂).run before₂).load program).generator
    ∃ r, Cells.reached? c entropy₁ (before₁ ++ [.load program]) = some r ∧
      Cells.reached? c entropy₂ (before₂ ++ [.load program]) = some { r with generator } := by
  intro generator
  have hload := load_congr (config_after_runs c entropy₁ entropy₂ before₁ before₂) program
  obtain ⟨r, hr, hs⟩ := Cells.stores_reached c entropy₁ (before₁ ++ [.load program])
  refine ⟨r, hr, Cells.reached?_eq_some_iff.2 ?_⟩
  rw [placesOver_append, run_concat] at hs ⊢
  rw [perform_load, show generator = (((build c entropy₂).run before₂).load program).generator from rfl, hload]
  exact { hs with generator := rfl }

/-- With a seed it leaves the same cells altogether, and so does all that is done from then on. -/
theorem cells_of_seed {s : UInt64} (hs : c.seed = some s) (after : List Operation) :
    ∃ r, Cells.reached? c entropy₁ (before₁ ++ .load program :: after) = some r ∧
      Cells.reached? c entropy₂ (before₂ ++ .load program :: after) = some r := by
  have hseed : ((build c entropy₁).run before₁).config.seed = some s := by
    rw [config_run]
    exact hs
  have hload : ((build c entropy₂).run before₂).perform (.load program) =
      ((build c entropy₁).run before₁).perform (.load program) :=
    load_of_seed (config_after_runs c entropy₁ entropy₂ before₁ before₂) hseed program
  obtain ⟨r, hr, hstores⟩ := Cells.stores_reached c entropy₁ (before₁ ++ .load program :: after)
  refine ⟨r, hr, Cells.reached?_eq_some_iff.2 ?_⟩
  rw [placesOver_append, run_append] at hstores ⊢
  rw [run_cons, placesOver, hload]
  exact hstores

end

/-- **A load forgets everything that was done before.**  Two machines are built with settings that agree in the last of
each kind, and any operations are done to each.  Then loading the same program is answered alike, and leaves the same
machine and the same cells up to the random numbers.  With a seed it leaves the same altogether, and so does everything
that is done to both from then on, with the same answers. -/
theorem load_forgets {s₁ s₂ : List Setting} {c₁ c₂ : Config} (h₁ : Config.ofSettings s₁ = .ok c₁)
    (h₂ : Config.ofSettings s₂ = .ok c₂) (same : SameSettings s₁ s₂) (entropy₁ entropy₂ : Random.Key)
    (before₁ before₂ : List Operation) (program : List UInt8) :
    let used₁ := (build c₁ entropy₁).run before₁
    let used₂ := (build c₂ entropy₂).run before₂
    let generator := (used₂.load program).generator
    (used₁.answer (.load program) = used₂.answer (.load program) ∧
      used₂.load program = { used₁.load program with generator } ∧
      ∃ r, Cells.reached? c₁ entropy₁ (before₁ ++ [.load program]) = some r ∧
        Cells.reached? c₂ entropy₂ (before₂ ++ [.load program]) = some { r with generator }) ∧
    ((Setting.last? Setting.seed? s₁).isSome → ∀ after : List Operation,
      let history := .load program :: after
      used₁.answers history = used₂.answers history ∧ used₁.run history = used₂.run history ∧
        ∃ r, Cells.reached? c₁ entropy₁ (before₁ ++ history) = some r ∧
          Cells.reached? c₂ entropy₂ (before₂ ++ history) = some r) := by
  obtain rfl := Config.eq_of_sameSettings h₁ h₂ same
  intro used₁ used₂ generator
  have hconfig : used₂.config = used₁.config := config_after_runs c₁ entropy₁ entropy₂ before₁ before₂
  have hload : used₂.load program = { used₁.load program with generator } := by
    rw [show generator = (used₂.load program).generator from rfl, load_congr hconfig]
  refine ⟨⟨?_, hload, cells_load c₁ entropy₁ entropy₂ before₁ before₂ program⟩, fun hseed after => ?_⟩
  · show Answer.status _ = Answer.status _
    rw [hload]
  · obtain ⟨s, hs⟩ := Option.isSome_iff_exists.1 hseed
    have hseeded : c₁.seed = some s := (Config.follows_ofSettings h₁).seed.trans hs
    have hsame : used₂.load program = used₁.load program :=
      load_of_seed hconfig ((congrArg Config.seed (config_run _ before₁)).trans hseeded) program
    refine ⟨?_, ?_, cells_of_seed c₁ entropy₁ entropy₂ before₁ before₂ program hseeded after⟩
    · show Answer.status _ :: _ = Answer.status _ :: _
      rw [perform_load, perform_load, hsame]
    · rw [run_cons, run_cons, perform_load, perform_load, hsame]

/-- A machine that stopped at a return and one that waits for a key are the same after a load, and draw the same random
byte. -/
theorem load_forgets_waiting :
    let config : Config := { dialect := { shift := .vx }, seed := some 7 }
    let stopped := (build config (Vector.replicate 8 0)).run [.load [0x00, 0xEE], .step 0]
    let waiting := (build config (Vector.replicate 8 1)).run [.load [0xF3, 0x0A], .keyDown 5, .step 0]
    stopped.status = .halted .stackUnderflow ∧ waiting.keyWait = .awaiting 5 ∧
      stopped.run [.load [0xC1, 0xFF], .step 0] = waiting.run [.load [0xC1, 0xFF], .step 0] := by
  intro config stopped waiting
  have h₁ : Config.ofSettings [.seed 3, .interpreter .chip48, .seed 7] = .ok config := rfl
  have h₂ : Config.ofSettings [.dialect { shift := .vx }, .seed 7, .font Font.standard.toList] = .ok config := rfl
  exact ⟨by decide +kernel, by decide +kernel,
    ((load_forgets h₁ h₂ ⟨rfl, rfl, rfl⟩ (Vector.replicate 8 0) (Vector.replicate 8 1) [.load [0x00, 0xEE], .step 0]
      [.load [0xF3, 0x0A], .keyDown 5, .step 0] [0xC1, 0xFF]).2 rfl [.step 0]).2.1⟩

end Machine

end Chip8
