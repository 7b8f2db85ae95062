import Mathlib
import Chip8.Proofs.KeyWait
import Chip8.Proofs.Timers
/-!
# Tone — where the tone and the sound counter part

The tone is meant to play while the sound counter runs, and while a key that is waited for is held.  Counter and tone
are stored apart, and each of the two has one gap.

* A program can set the counter to zero while the tone plays.  Nothing stops the tone then but the next step, and a
  machine that stops at that very instruction takes none.  In every other state a tone has a counter that runs
  (`tone_needs_counter_iff`).
* While a key is held the counter is put back to its most at every step, but the tone is not put back on.  So it plays
  until a step lets the whole counter run down, and not after it (`tone_iff_of_awaiting`).
-/
namespace Chip8

/-- A tone without a counter that runs. -/
def Timers.Stray (t : Timers) : Prop :=
  t.tone = true ∧ t.sound = 0

theorem Timers.not_stray_elapse (t : Timers) (ticks : Nat) : ¬(t.elapse ticks).Stray := by
  rintro ⟨htone, hsound⟩
  have htone : (t.tone && countDown t.sound ticks != 0) = true := htone
  have hsound : countDown t.sound ticks = 0 := hsound
  rw [hsound] at htone
  simp at htone

theorem Timers.stray_setSound_iff (t : Timers) (v : UInt8) : (t.setSound v).Stray ↔ t.tone = true ∧ v = 0 := by
  constructor
  · rintro ⟨htone, rfl⟩
    have htone : (t.tone || decide (leastAudible ≤ (0 : UInt8))) = true := htone
    rw [show decide (leastAudible ≤ (0 : UInt8)) = false from rfl, Bool.or_false] at htone
    exact ⟨htone, rfl⟩
  · rintro ⟨htone, rfl⟩
    refine ⟨?_, rfl⟩
    show (t.tone || _) = true
    rw [htone, Bool.true_or]

theorem Timers.not_stray_iff (t : Timers) : ¬t.Stray ↔ (t.tone = true → 0 < t.sound) := by
  unfold Stray
  rw [not_and, UInt8.pos_iff_ne_zero]

namespace Machine

/-! ## A tone without a counter -/

theorem not_stray_waitKey {m : Machine} (h : ¬m.timers.Stray) (x : Register) :
    ¬(m.timersAfter (.waitKey x)).Stray := by
  have hmost : (255 : UInt8) ≠ 0 := by decide
  unfold timersAfter
  cases m.keyWait with
  | idle =>
    simp only
    split
    · exact fun hs => hmost hs.2
    · exact h
  | awaiting key =>
    simp only
    split
    · exact fun hs => hmost hs.2
    · exact fun hs => Bool.false_ne_true hs.1

theorem not_stray_timersAfter {m : Machine} (h : ¬m.timers.Stray) {i : Instruction} (hi : ∀ x, i ≠ .setSound x) :
    ¬(m.timersAfter i).Stray := by
  cases i with
  | setSound x => exact absurd rfl (hi x)
  | waitKey x => exact not_stray_waitKey h x
  | _ => exact h

theorem stray_timersAfter_iff {m : Machine} (h : ¬m.timers.Stray) (i : Instruction) :
    (m.timersAfter i).Stray ↔ m.timers.tone = true ∧ ∃ x, i = .setSound x ∧ m.register x = 0 := by
  by_cases hi : ∃ x, i = .setSound x
  · obtain ⟨x, rfl⟩ := hi
    show (m.timers.setSound (m.register x)).Stray ↔ _
    rw [Timers.stray_setSound_iff]
    refine and_congr_right fun _ => ⟨fun hv => ⟨x, rfl, hv⟩, ?_⟩
    rintro ⟨y, hy, hv⟩
    rw [Instruction.setSound.inj hy]
    exact hv
  · refine iff_of_false (not_stray_timersAfter h fun x hx => hi ⟨x, hx⟩) ?_
    rintro ⟨-, x, hx, -⟩
    exact hi ⟨x, hx⟩

/-- Whether a step of a machine sets the sound counter to zero while the tone plays. -/
def ZeroesCounter (m : Machine) (ticks : Nat) : Prop :=
  m.status = .ok ∧ (m.timers.elapse ticks).tone = true ∧ ∃ x, m.upcoming? = some (.setSound x) ∧ m.register x = 0

theorem stray_step_iff {m : Machine} (ok : m.status = .ok) (ticks : Nat) :
    (m.step ticks).timers.Stray ↔ m.ZeroesCounter ticks := by
  have helapse : ¬(m.elapse ticks).timers.Stray := m.timers.not_stray_elapse ticks
  unfold ZeroesCounter
  rw [timers_step ok, and_iff_right ok]
  cases hu : m.upcoming? with
  | none => exact iff_of_false helapse fun ⟨_, _, hx, _⟩ => nomatch hx
  | some i =>
    show ((m.elapse ticks).timersAfter i).Stray ↔ _
    rw [stray_timersAfter_iff helapse]
    exact and_congr_right fun _ => exists_congr fun x => and_congr_left fun _ => Option.some_inj.symm

/-- Whether a history loads nothing and takes no step of a machine that runs. -/
def Rests (m : Machine) (history : List Operation) : Prop :=
  ∀ o ∈ history, (∀ program, o ≠ .load program) ∧ ∀ ticks, o = .step ticks → m.status ≠ .ok

theorem rests_concat {m : Machine} {history : List Operation} {o : Operation} :
    m.Rests (history ++ [o]) ↔
      m.Rests history ∧ (∀ program, o ≠ .load program) ∧ ∀ ticks, o = .step ticks → m.status ≠ .ok := by
  unfold Rests
  rw [List.forall_mem_append, List.forall_mem_singleton]

/-- **A machine that rests keeps its status and its timers.** -/
theorem Rests.run {m : Machine} {history : List Operation} (h : m.Rests history) :
    (m.run history).status = m.status ∧ (m.run history).timers = m.timers := by
  induction history using List.reverseRecOn with
  | nil => exact ⟨rfl, rfl⟩
  | append_singleton history o ih =>
    obtain ⟨hrests, hload, hstep⟩ := rests_concat.1 h
    obtain ⟨hstatus, htimers⟩ := ih hrests
    rw [run_concat]
    cases o with
    | load program => exact absurd rfl (hload program)
    | step ticks =>
      rw [perform_step, step_of_not_ok (by rw [hstatus]; exact hstep ticks rfl)]
      exact ⟨hstatus, htimers⟩
    | keyDown key => exact ⟨hstatus, htimers⟩
    | keyUp key => exact ⟨hstatus, htimers⟩
    | takeDirty => exact ⟨hstatus, htimers⟩

/-- A history whose last step, but for those that change nothing, sets the counter to zero while the tone plays. -/
def EndsInZero (m : Machine) (history : List Operation) : Prop :=
  ∃ earlier ticks later, history = earlier ++ .step ticks :: later ∧ (m.run earlier).ZeroesCounter ticks ∧
    (m.run (earlier ++ [.step ticks])).Rests later

theorem EndsInZero.concat {m : Machine} {history : List Operation} (h : m.EndsInZero history) {o : Operation}
    (hload : ∀ program, o ≠ .load program) (hstep : ∀ ticks, o = .step ticks → (m.run history).status ≠ .ok) :
    m.EndsInZero (history ++ [o]) := by
  obtain ⟨earlier, ticks, later, rfl, hzero, hrests⟩ := h
  refine ⟨earlier, ticks, later ++ [o], List.append_assoc .., hzero, rests_concat.2 ⟨hrests, hload, fun t ht => ?_⟩⟩
  rw [← hrests.run.1, ← run_append, List.append_assoc]
  exact hstep t ht

theorem stray_of_endsInZero {m : Machine} {history : List Operation} (h : m.EndsInZero history) :
    (m.run history).timers.Stray := by
  obtain ⟨earlier, ticks, later, rfl, hzero, hrests⟩ := h
  rw [show earlier ++ .step ticks :: later = (earlier ++ [.step ticks]) ++ later by simp, run_append, hrests.run.2,
    run_concat]
  exact (stray_step_iff hzero.1 ticks).2 hzero

theorem endsInZero_of_stray {m : Machine} (hm : ¬m.timers.Stray) (history : List Operation)
    (h : (m.run history).timers.Stray) : m.EndsInZero history := by
  induction history using List.reverseRecOn with
  | nil => exact absurd h hm
  | append_singleton history o ih =>
    rw [run_concat] at h
    cases o with
    | load program =>
      rw [perform_load, timers_load] at h
      exact nomatch h.1
    | step ticks =>
      by_cases ok : (m.run history).status = .ok
      · exact ⟨history, ticks, [], rfl, (stray_step_iff ok ticks).1 h, nofun⟩
      · rw [perform_step, step_of_not_ok ok] at h
        exact (ih h).concat nofun fun _ _ => ok
    | keyDown key => exact (ih h).concat nofun nofun
    | keyUp key => exact (ih h).concat nofun nofun
    | takeDirty => exact (ih h).concat nofun nofun

/-- **A tone has a counter that runs, unless a program has just set it to zero**: after any history, a tone goes with a
counter above zero exactly if the last step that was taken did not set the counter to zero while the tone played. -/
theorem tone_needs_counter_iff (config : Config) (entropy : Random.Key) (history : List Operation) :
    (((build config entropy).run history).timers.tone = true →
        0 < ((build config entropy).run history).timers.sound) ↔
      ¬(build config entropy).EndsInZero history := by
  have hbuilt : ¬(build config entropy).timers.Stray := fun h => nomatch h.1
  rw [← Timers.not_stray_iff, not_iff_not]
  exact ⟨endsInZero_of_stray hbuilt history, stray_of_endsInZero⟩

/-- A machine that has set the counter to zero in the last word of memory, where there is nothing to go on to. -/
def strayTone : Machine :=
  (build {} (Vector.replicate 8 0)).run
    (.load [0x60, 0xF2, 0x61, 0x18, 0xAF, 0xFE, 0xF1, 0x55, 0x63, 0x05, 0xF3, 0x18, 0x1F, 0xFE] ::
      List.replicate 8 (.step 0))

/-- It is reachable, its tone plays with the counter at zero, and no step ends that. -/
theorem tone_without_counter : strayTone.Reachable ∧ strayTone.timers.tone = true ∧ strayTone.timers.sound = 0 ∧
    ∀ ticks, strayTone.step ticks = strayTone := by
  have halted : strayTone.status = .halted (.outOfBounds 0x1000) ∧ strayTone.timers.tone = true ∧
      strayTone.timers.sound = 0 := by decide +kernel
  exact ⟨(reachable_build _ _).run _, halted.2.1, halted.2.2, fun ticks => step_of_not_ok (by rw [halted.1]; nofun) ticks⟩

/-! ## The tone while a key is held -/

theorem awaiting_step {m : Machine} (hm : m.AtWait) {ticks : Nat} {key : Fin keyCount}
    (h : (m.step ticks).keyWait = .awaiting key) :
    (m.keyWait = .idle ∧ (m.step ticks).timers = (m.timers.elapse ticks).start) ∨
    (m.keyWait = .awaiting key ∧ (m.step ticks).timers = (m.timers.elapse ticks).hold) := by
  cases hw : m.keyWait with
  | idle =>
    left
    have hstands : m.status = .ok ∧ ∃ x, m.StandsAtWait x := by
      by_contra hn
      have hsame : (m.step ticks).keyWait = m.keyWait := by
        by_cases ok : m.status = .ok
        · exact keyWait_step ok (fun hx => hn ⟨ok, hx⟩) ticks
        · rw [step_of_not_ok ok]
      rw [hsame, hw] at h
      exact nomatch h
    obtain ⟨-, x, stands⟩ := hstands
    cases hd : m.keypad.firstDown? with
    | none =>
      rw [step_of_none_down stands ticks hw ((Keypad.firstDown?_eq_none_iff _).1 hd)] at h
      exact nomatch hw.symm.trans h
    | some taken =>
      rw [step_of_down stands ticks hw hd]
      exact ⟨rfl, rfl⟩
  | awaiting taken =>
    right
    obtain ⟨x, stands⟩ := hm taken hw
    cases hk : m.keypad.holds taken with
    | true =>
      rw [step_of_held stands ticks hw hk] at h ⊢
      exact ⟨hw.symm.trans h, rfl⟩
    | false =>
      rw [(stored_of_released stands ticks hw hk).machine] at h
      exact nomatch h

/-- In a history, the step before `later` took a key, and it has not been stored since. -/
def TakenBefore (m : Machine) (key : Fin keyCount) (later history : List Operation) : Prop :=
  ∃ earlier ticks, history = earlier ++ .step ticks :: later ∧ (m.run earlier).keyWait = .idle ∧
    (m.run (earlier ++ [.step ticks])).Throughout (·.keyWait = .awaiting key) later

theorem takenBefore_nil {m : Machine} {key : Fin keyCount} {history : List Operation} {ticks : Nat}
    (hidle : (m.run history).keyWait = .idle) (hk : (m.run (history ++ [.step ticks])).keyWait = .awaiting key) :
    m.TakenBefore key [] (history ++ [.step ticks]) :=
  ⟨history, ticks, rfl, hidle, throughout_nil.2 hk⟩

theorem TakenBefore.concat {m : Machine} {key : Fin keyCount} {later history : List Operation}
    (h : m.TakenBefore key later history) {o : Operation} (hk : (m.run (history ++ [o])).keyWait = .awaiting key) :
    m.TakenBefore key (later ++ [o]) (history ++ [o]) := by
  obtain ⟨earlier, ticks, rfl, hidle, hlater⟩ := h
  refine ⟨earlier, ticks, List.append_assoc .., hidle, throughout_concat.2 ⟨hlater, ?_⟩⟩
  rw [← run_append]
  simpa using hk

/-- The tone of a wait that has taken a key, by the ticks of the steps since. -/
def ToneOfWait (m : Machine) (key : Fin keyCount) (history : List Operation) : Prop :=
  (m.run history).timers.sound = 255 ∧
    ∃ later, m.TakenBefore key later history ∧
      ((m.run history).timers.tone = true ↔ ∀ ticks, .step ticks ∈ later → ticks < 255)

section

variable {m : Machine} {key : Fin keyCount} {history : List Operation} {o : Operation} {ticks : Nat}

theorem toneOfWait_taken (hidle : (m.run history).keyWait = .idle)
    (hk : (m.run (history ++ [.step ticks])).keyWait = .awaiting key)
    (ht : ((m.run history).step ticks).timers = ((m.run history).timers.elapse ticks).start) :
    m.ToneOfWait key (history ++ [.step ticks]) := by
  unfold ToneOfWait
  rw [run_concat, perform_step, ht]
  exact ⟨rfl, [], takenBefore_nil hidle hk, iff_of_true rfl nofun⟩

theorem ToneOfWait.held (h : m.ToneOfWait key history)
    (hk : (m.run (history ++ [.step ticks])).keyWait = .awaiting key)
    (ht : ((m.run history).step ticks).timers = ((m.run history).timers.elapse ticks).hold) :
    m.ToneOfWait key (history ++ [.step ticks]) := by
  obtain ⟨hsound, later, htaken, htone⟩ := h
  unfold ToneOfWait
  rw [run_concat, perform_step, ht]
  refine ⟨rfl, later ++ [.step ticks], htaken.concat hk, ?_⟩
  -- holding puts the counter back and not the tone, so what the ticks have left of the tone stays
  show ((m.run history).timers.elapse ticks).tone = true ↔ _
  rw [Timers.tone_elapse, hsound, Bool.and_eq_true, decide_eq_true_eq, htone]
  simp [or_imp, forall_and]

theorem ToneOfWait.rest (h : m.ToneOfWait key history) (hk : (m.run (history ++ [o])).keyWait = .awaiting key)
    (ho : ∀ ticks, o ≠ .step ticks) (ht : ((m.run history).perform o).timers = (m.run history).timers) :
    m.ToneOfWait key (history ++ [o]) := by
  obtain ⟨hsound, later, htaken, htone⟩ := h
  unfold ToneOfWait
  rw [run_concat, ht]
  refine ⟨hsound, later ++ [o], htaken.concat hk, htone.trans ?_⟩
  simp [fun ticks => (ho ticks).symm]

end

/-- **While a key is held, the tone plays until a step lets the whole counter run down**: a machine whose wait has taken
a key has its sound counter at its most, and its tone plays exactly if no step since that took as many ticks. -/
theorem tone_iff_of_awaiting (config : Config) (entropy : Random.Key) (history : List Operation) (key : Fin keyCount)
    (h : ((build config entropy).run history).keyWait = .awaiting key) :
    ((build config entropy).run history).timers.sound = 255 ∧
      ∃ later, (build config entropy).TakenBefore key later history ∧
        (((build config entropy).run history).timers.tone = true ↔ ∀ ticks, .step ticks ∈ later → ticks < 255) := by
  show (build config entropy).ToneOfWait key history
  induction history using List.reverseRecOn with
  | nil => exact nomatch h
  | append_singleton history o ih =>
    have hwait : ((build config entropy).run history).AtWait := ((reachable_build config entropy).run history).atWait
    have hk := h
    rw [run_concat] at hk
    cases o with
    | load program =>
      rw [perform_load, load_eq] at hk
      exact nomatch hk
    | step ticks =>
      rcases awaiting_step hwait hk with ⟨hidle, ht⟩ | ⟨hheld, ht⟩
      · exact toneOfWait_taken hidle h ht
      · exact (ih hheld).held h ht
    | keyDown key => exact (ih hk).rest h nofun rfl
    | keyUp key => exact (ih hk).rest h nofun rfl
    | takeDirty => exact (ih hk).rest h nofun rfl

/-- A history at whose end a key is held. -/
def holdFive : List Operation :=
  [.load [0xF3, 0x0A], .keyDown 9, .keyDown 5, .step 0, .keyUp 9, .step 254]

theorem tone_of_holdFive : ((build {} (Vector.replicate 8 0)).run holdFive).keyWait = .awaiting 5 ∧
    ((build {} (Vector.replicate 8 0)).run holdFive).timers.sound = 255 ∧
    ∃ later, (build {} (Vector.replicate 8 0)).TakenBefore 5 later holdFive ∧
      (((build {} (Vector.replicate 8 0)).run holdFive).timers.tone = true ↔
        ∀ ticks, .step ticks ∈ later → ticks < 255) :=
  have held : ((build {} (Vector.replicate 8 0)).run holdFive).keyWait = .awaiting 5 := by decide +kernel
  ⟨held, tone_iff_of_awaiting {} (Vector.replicate 8 0) holdFive 5 held⟩

/-- One more tick, and the tone is lost while the key is held and the counter stands at its most. -/
theorem tone_lost_while_held : (waiting.run [.keyDown 5, .step 0, .step 255]).Reachable ∧
    (waiting.run [.keyDown 5, .step 0, .step 255]).keyWait = .awaiting 5 ∧
    (waiting.run [.keyDown 5, .step 0, .step 255]).timers.sound = 255 ∧
    (waiting.run [.keyDown 5, .step 0, .step 255]).timers.tone = false :=
  ⟨((reachable_build _ _).run _).run _, by decide +kernel⟩

end Machine

end Chip8
