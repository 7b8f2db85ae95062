import Mathlib
import Chip8.Proofs.Filtering
import Chip8.Proofs.Messages
import Chip8.Proofs.Outcome
import Chip8.Proofs.Redraw
/-!
# Watching — what a session tells of the tone and of the screen

After each step that does not stop the machine a session looks at it twice.  It compares the tone with the one that it
heard last, and tells of a difference; and it asks whether the screen was drawn on, which takes the mark away, and
counts.  The load leaves a mark too, and so the first step counts in any case.

What is told of the tone are the changes of a signal (`changes`), the tone as it was last heard (`Machine.heard`), and
the signal can be had back from its changes.  What is counted are rounds that update the screen (`Machine.UpdatesIn`).
One round adds to both what is due to it (`Progress.Sees.advance`), and so a session does (`Progress.Sees.play`).
-/
namespace Chip8

/-! ## The changes of a signal -/

/-- The changes of a signal in its first steps: what it changes to, and the step of the change. -/
def changes (f : Nat → Bool) : Nat → List (Bool × Nat)
  | 0 => []
  | step + 1 => changes f step ++ if f (step + 1) = f step then [] else [(f (step + 1), step)]

section

variable {f : Nat → Bool}

theorem changes_succ_of_eq {step : Nat} (h : f (step + 1) = f step) : changes f (step + 1) = changes f step := by
  rw [changes, if_pos h, List.append_nil]

theorem changes_succ_of_ne {step : Nat} (h : f (step + 1) ≠ f step) :
    changes f (step + 1) = changes f step ++ [(f (step + 1), step)] := by
  rw [changes, if_neg h]

theorem mem_changes_iff {steps : Nat} {c : Bool × Nat} :
    c ∈ changes f steps ↔ c.2 < steps ∧ f (c.2 + 1) ≠ f c.2 ∧ c.1 = f (c.2 + 1) := by
  induction steps with
  | zero => exact iff_of_false List.not_mem_nil fun h => Nat.not_lt_zero _ h.1
  | succ steps ih =>
    rw [Nat.lt_succ_iff_lt_or_eq]
    by_cases h : f (steps + 1) = f steps
    · rw [changes_succ_of_eq h, ih]
      constructor
      · exact fun ⟨hlt, hc⟩ => ⟨Or.inl hlt, hc⟩
      · rintro ⟨hlt | heq, hc⟩
        · exact ⟨hlt, hc⟩
        · exact absurd (heq ▸ h) hc.1
    · rw [changes_succ_of_ne h, List.mem_append, List.mem_singleton, ih]
      constructor
      · rintro (⟨hlt, hc⟩ | rfl)
        · exact ⟨Or.inl hlt, hc⟩
        · exact ⟨Or.inr rfl, h, rfl⟩
      · rintro ⟨hlt | heq, hc⟩
        · exact Or.inl ⟨hlt, hc⟩
        · exact Or.inr (Prod.ext (heq ▸ hc.2) heq)

theorem pairwise_changes (f : Nat → Bool) (steps : Nat) : (changes f steps).Pairwise (·.2 < ·.2) := by
  induction steps with
  | zero => exact List.Pairwise.nil
  | succ steps ih =>
    by_cases h : f (steps + 1) = f steps
    · rwa [changes_succ_of_eq h]
    · rw [changes_succ_of_ne h, List.pairwise_append]
      refine ⟨ih, List.pairwise_singleton _ _, fun c hc d hd => ?_⟩
      rw [List.mem_singleton.1 hd]
      exact (mem_changes_iff.1 hc).1

/-- **The changes up to a step** are those of the first steps. -/
theorem filter_changes (f : Nat → Bool) {step steps : Nat} (hlt : step < steps) :
    (changes f steps).filter (·.2 ≤ step) = changes f (step + 1) := by
  induction steps, hlt using Nat.le_induction with
  | base =>
    refine List.filter_eq_self.2 fun c hc => decide_eq_true ?_
    exact Nat.lt_succ_iff.1 (mem_changes_iff.1 hc).1
  | succ steps hle ih =>
    by_cases h : f (steps + 1) = f steps
    · rw [changes_succ_of_eq h, ih]
    · rw [changes_succ_of_ne h, List.filter_append, ih, List.filter_cons_of_neg, List.filter_nil, List.append_nil]
      simpa using hle

variable (silent : f 0 = false)
include silent

/-- A signal that is off first is on exactly after an odd number of changes. -/
theorem odd_length_changes_iff (steps : Nat) : Odd (changes f steps).length ↔ f steps = true := by
  induction steps with
  | zero => exact iff_of_false Nat.not_odd_zero (by rw [silent]; exact Bool.false_ne_true)
  | succ steps ih =>
    by_cases h : f (steps + 1) = f steps
    · rw [changes_succ_of_eq h, h, ih]
    · rw [changes_succ_of_ne h, List.length_append, List.length_singleton, Nat.odd_add_one, ih,
        Bool.eq_not_of_ne h, Bool.not_eq_true', Bool.not_eq_true]

/-- **The changes alternate**, and the first of them is to on. -/
theorem changes_alternate {steps i : Nat} {c : Bool × Nat} (hc : (changes f steps)[i]? = some c) :
    c.1 = true ↔ Even i := by
  induction steps with
  | zero => exact nomatch hc
  | succ steps ih =>
    by_cases h : f (steps + 1) = f steps
    · rw [changes_succ_of_eq h] at hc
      exact ih hc
    · rw [changes_succ_of_ne h, List.getElem?_append] at hc
      split at hc
      · exact ih hc
      · -- the last change is to the other value, and its number is that of the changes before it
        rw [List.getElem?_singleton, Option.ite_none_right_eq_some] at hc
        have hlast : i = (changes f steps).length := by omega
        rw [← Option.some.inj hc.2, hlast, ← Nat.not_odd_iff_even, odd_length_changes_iff silent,
          Bool.eq_not_of_ne h, Bool.not_eq_true', Bool.not_eq_true]

/-- **A signal is what it changed to last.** -/
theorem last_change_iff (steps : Nat) : f steps = true ↔ ∃ step, (changes f steps).getLast? = some (true, step) := by
  induction steps with
  | zero => exact iff_of_false (by rw [silent]; exact Bool.false_ne_true) fun ⟨_, h⟩ => nomatch h
  | succ steps ih =>
    by_cases h : f (steps + 1) = f steps
    · rw [changes_succ_of_eq h, h, ih]
    · rw [changes_succ_of_ne h, List.getLast?_concat]
      constructor
      · exact fun hon => ⟨steps, by rw [hon]⟩
      · exact fun ⟨_, hon⟩ => congrArg Prod.fst (Option.some.inj hon)

end

/-! ## What a session sees of its machine -/

/-- A notice that tells neither of the tone nor of the screen. -/
def Notice.Aside (n : Notice) : Prop :=
  n.sound? = none ∧ n.updates? = none

theorem aside_machine (events : List Event) : ∀ n ∈ events.map Notice.machine, n.Aside :=
  List.forall_mem_map.2 fun _ _ => ⟨rfl, rfl⟩

namespace Machine

variable (m : Machine) (script : List KeyPress) (rate : Nat)

/-- The tone as it is last heard in the rounds of a machine: silence at first, and then the tone after each round that
does not stop the machine. -/
def heard : Nat → Bool
  | 0 => false
  | step + 1 =>
    if (m.afterRounds script rate (step + 1)).status = .ok then (m.afterRounds script rate (step + 1)).timers.tone
    else heard step

/-- Whether a round of a machine updates the screen: it does not stop the machine, and it is the first one, or its step
clears the screen, `00E0`, or draws a sprite, `DXYN`. -/
def UpdatesIn (step : Nat) : Prop :=
  (m.afterRounds script rate (step + 1)).status = .ok ∧
    (step = 0 ∨ ((m.afterRounds script rate step).moveKeys script step).Redraws (.step (TickClock.ticksAt rate step)))

instance : DecidablePred (m.UpdatesIn script rate) :=
  fun _ => inferInstanceAs (Decidable (_ ∧ (_ ∨ _)))

end Machine

namespace Progress

open Machine

theorem told_tell (p : Progress) (shown : Notice → Bool) (notices : List Notice) :
    (p.tell shown notices).told.reverse = p.told.reverse ++ notices.filter shown := by
  show ((notices.filter shown).reverse ++ p.told).reverse = _
  rw [List.reverse_append, List.reverse_reverse]

/-- A session has told and counted what is due to its first rounds. -/
structure Told (m : Machine) (script : List KeyPress) (rate : Nat) (p : Progress) (steps : Nat) : Prop where
  sounds : p.told.reverse.filterMap Notice.sound? = changes (m.heard script rate) steps
  counted : p.updates = Nat.count (m.UpdatesIn script rate) steps
  unsaid : p.told.reverse.filterMap Notice.updates? = []

/-- A session that goes on has told and counted what is due, and knows the tone; and only the mark of the load can be
left. -/
structure Sees (m : Machine) (script : List KeyPress) (rate : Nat) (p : Progress) (steps : Nat) : Prop
    extends Told m script rate p steps where
  running : (m.afterRounds script rate steps).status = .ok
  machine : SameBut .mark (m.afterRounds script rate steps) p.machine
  clock : p.clock = .after rate steps
  playing : p.playing = m.heard script rate steps
  dirty : p.machine.display.dirty = true ↔ steps = 0

section

variable {m : Machine} {script : List KeyPress} {rate : Nat} {shown : Notice → Bool} {p : Progress} {step : Nat}

theorem Told.tell (h : Told m script rate p step) {notices : List Notice} (aside : ∀ n ∈ notices, n.Aside) :
    Told m script rate (p.tell shown notices) step where
  sounds := by
    rw [told_tell, List.filterMap_append, h.sounds,
      List.filterMap_eq_nil_iff.2 fun n hn => (aside n (List.mem_filter.1 hn).1).1, List.append_nil]
  counted := h.counted
  unsaid := by
    rw [told_tell, List.filterMap_append, h.unsaid,
      List.filterMap_eq_nil_iff.2 fun n hn => (aside n (List.mem_filter.1 hn).1).2, List.append_nil]

/-- A step by itself tells neither of the tone nor of the screen. -/
theorem Told.takeStep (h : Told m script rate p step) : Told m script rate (p.takeStep script shown step) step := by
  let t := (p.machine.moveKeys script step).stepTraced p.clock.tick.1
  have hsame : Told m script rate { p with machine := t.machine, clock := p.clock.tick.2 } step :=
    ⟨h.sounds, h.counted, h.unsaid⟩
  refine hsame.tell fun n hn => ?_
  rcases List.mem_append.1 hn with hkey | hevent
  · obtain ⟨c, -, rfl⟩ := List.mem_map.1 hkey
    exact ⟨rfl, rfl⟩
  · exact aside_machine _ n hevent

/-- Nothing is due to a round that stops the machine, or that comes after it has stopped. -/
theorem Told.succ (h : Told m script rate p step) (stopped : (m.afterRounds script rate (step + 1)).status ≠ .ok) :
    Told m script rate p (step + 1) where
  sounds := by
    rw [changes_succ_of_eq (if_neg stopped)]
    exact h.sounds
  counted := by
    rw [Nat.count_succ, if_neg fun hupdates => stopped hupdates.1]
    exact h.counted
  unsaid := h.unsaid

theorem Told.later (h : Told m script rate p step) (stopped : (m.afterRounds script rate (step + 1)).status ≠ .ok)
    {steps : Nat} (hle : step + 1 ≤ steps) : Told m script rate p steps := by
  induction steps, hle using Nat.le_induction with
  | base => exact h.succ stopped
  | succ steps hle ih =>
    refine ih.succ ?_
    rwa [afterRounds_of_not_ok stopped (Nat.le_succ_of_le hle)]

theorem watchTone_eq (hsound : ∀ playing step, shown (.sound playing step) = true) (p : Progress) (step : Nat) :
    p.watchTone shown step = { p with
      playing := p.machine.timers.tone
      told := (if p.machine.timers.tone = p.playing then [] else [.sound p.machine.timers.tone step]) ++ p.told } := by
  unfold watchTone
  split
  · rename_i h
    rw [h]
    rfl
  · unfold Progress.tell
    simp only [List.filter_cons_of_pos (hsound _ _)]
    rfl

/-! ### One round -/

variable (hrate : 0 < rate) (h : Sees m script rate p step)
include hrate h

theorem Sees.takeStep_machine :
    (p.takeStep script shown step).machine = (p.machine.moveKeys script step).step (TickClock.ticksAt rate step) := by
  rw [Progress.takeStep_machine, h.clock, TickClock.tick_after hrate]

theorem Sees.sameBut_takeStep :
    SameBut .mark (m.afterRounds script rate (step + 1)) (p.takeStep script shown step).machine := by
  rw [h.takeStep_machine hrate, afterRounds_succ, round_of_ok h.running]
  exact (h.machine.moveKeys script step).step (Or.inr rfl) id

/-- **The mark that a step leaves** says whether its round updates the screen. -/
theorem Sees.dirty_takeStep_iff (ok : (m.afterRounds script rate (step + 1)).status = .ok) :
    (p.takeStep script shown step).machine.display.dirty = true ↔ m.UpdatesIn script rate step := by
  let moved := p.machine.moveKeys script step
  have hredraws : ((m.afterRounds script rate step).moveKeys script step).Redraws
      (.step (TickClock.ticksAt rate step)) ↔ moved.Redraws (.step (TickClock.ticksAt rate step)) := by
    have hmoved : SameBut .mark _ moved := h.machine.moveKeys script step
    rw [hmoved]
    rfl
  have hdirty : moved.display.dirty = p.machine.display.dirty := by
    have hkeys : SameBut .keys p.machine moved := sameBut_moveKeys ..
    rw [hkeys]
    rfl
  rw [h.takeStep_machine hrate]
  unfold UpdatesIn
  rw [and_iff_right ok, hredraws]
  rcases display_step moved (TickClock.ticksAt rate step) with ⟨hr, hd⟩ | ⟨hr, hd⟩
  · exact iff_of_true hd (Or.inr hr)
  · show (moved.step _).display.dirty = true ↔ _
    rw [hd, hdirty, h.dirty]
    exact (or_iff_left hr).symm

/-- **A round that does not stop the machine** adds what is due to it. -/
theorem Sees.advance (hsound : ∀ playing step, shown (.sound playing step) = true)
    (ok : (m.afterRounds script rate (step + 1)).status = .ok) :
    Sees m script rate (p.advance script shown step) (step + 1) := by
  let taken := p.takeStep script shown step
  have htaken : SameBut .mark (m.afterRounds script rate (step + 1)) taken.machine := h.sameBut_takeStep hrate
  have htold : Told m script rate taken step := h.toTold.takeStep
  have hplaying : taken.playing = m.heard script rate step := h.playing
  have htone : taken.machine.timers.tone = m.heard script rate (step + 1) := by
    rw [htaken]
    exact (if_pos ok).symm
  have hadvance : p.advance script shown step = (taken.watchTone shown step).watchScreen :=
    if_pos (Status.isOk_iff.2 (htaken.status.trans ok))
  obtain ⟨hmachine, hclock⟩ := sameBut_advance_afterRounds hrate h.machine h.clock h.running shown
  rw [hadvance, watchTone_eq hsound, hplaying, htone] at hmachine hclock ⊢
  refine ⟨⟨?_, ?_, ?_⟩, ok, hmachine, hclock, rfl, iff_of_false Bool.false_ne_true (Nat.succ_ne_zero step)⟩
  · show (_ ++ taken.told).reverse.filterMap Notice.sound? = _
    rw [List.reverse_append, List.filterMap_append, htold.sounds, changes]
    split <;> rfl
  · show taken.updates + taken.machine.display.dirty.toNat = _
    rw [htold.counted, Nat.count_succ]
    by_cases hupdates : m.UpdatesIn script rate step
    · rw [if_pos hupdates, (h.dirty_takeStep_iff hrate ok).2 hupdates]
      rfl
    · rw [if_neg hupdates, Bool.eq_false_iff.2 (mt (h.dirty_takeStep_iff hrate ok).1 hupdates)]
      rfl
  · show (_ ++ taken.told).reverse.filterMap Notice.updates? = _
    rw [List.reverse_append, List.filterMap_append, htold.unsaid]
    split <;> rfl

/-- A round that stops the machine adds nothing. -/
theorem Sees.stop (stopped : (m.afterRounds script rate (step + 1)).status ≠ .ok) :
    Told m script rate (p.advance script shown step) step := by
  have htaken : SameBut .mark _ (p.takeStep script shown step).machine := h.sameBut_takeStep hrate
  have hadvance : p.advance script shown step = p.takeStep script shown step :=
    if_neg (by rw [Status.isOk_iff, htaken.status]; exact stopped)
  rw [hadvance]
  exact h.toTold.takeStep

/-- **A session tells and counts what is due to its rounds.** -/
theorem Sees.play (hsound : ∀ playing step, shown (.sound playing step) = true) (count : Nat) :
    Told m script rate (play script shown count step p) (step + count) := by
  induction count generalizing p step with
  | zero => exact h.toTold
  | succ count ih =>
    have hnext := (sameBut_advance_afterRounds hrate h.machine h.clock h.running shown).1
    rw [← Nat.succ_add_eq_add_succ step count, Progress.play]
    by_cases ok : (m.afterRounds script rate (step + 1)).status = .ok
    · rw [if_pos (Status.isOk_iff.2 (hnext.status.trans ok))]
      exact ih (h.advance hrate hsound ok)
    · rw [if_neg (by rw [Status.isOk_iff, hnext.status]; exact ok)]
      exact (h.stop hrate ok).later ok (Nat.le_add_right ..)

end

end Progress

/-! ## What a command line is told -/

theorem Options.aside_start (o : Options) (read : FileReader) (entropy : Random.Key) :
    ∀ n ∈ (o.start read entropy).1, n.Aside := by
  have hbuilt : ∀ n ∈ Machine.buildEvents.map Notice.machine, n.Aside := aside_machine _
  unfold start
  by_cases hscale : o.scale = 0 ∨ 100 < o.scale
  · rw [if_pos hscale]
    exact fun _ hn => nomatch hn
  · rw [if_neg hscale]
    cases o.config read with
    | error failure => exact fun _ hn => nomatch hn
    | ok config =>
      simp only
      cases read o.rom with
      | error e => exact hbuilt
      | ok program =>
        simp only
        let t := (Machine.build config entropy).loadTraced program
        have hloaded : ∀ n ∈ Machine.buildEvents.map Notice.machine ++ t.events.map Notice.machine, n.Aside :=
          List.forall_mem_append.2 ⟨hbuilt, aside_machine _⟩
        cases t.machine.status.fault? with
        | some fault => exact hloaded
        | none => exact List.forall_mem_append.2 ⟨hloaded, List.forall_mem_singleton.2 ⟨rfl, rfl⟩⟩

/-- **A session tells where the tone changes, as it is heard**, and once in how many steps the screen was updated, if
this is shown. -/
theorem Session.told_run {o : Options} {filter : LogFilter}
    (shown : ∀ n : Notice, n.source = "chip_8_frontend" → n.level = .info → filter.shows n = true)
    {start : Machine} (ok : start.status = .ok) (marked : start.display.dirty = true) {told : List Notice}
    (aside : ∀ n ∈ told, n.Aside) :
    let rate := (TickClock.ofRate o.rate).rate
    (run o filter start told).told.filterMap Notice.sound? = changes (start.heard o.presses rate) o.steps.toNat ∧
      (run o filter start told).told.filterMap Notice.updates? =
        [Nat.count (start.UpdatesIn o.presses rate) o.steps.toNat] := by
  intro rate
  let begun : Progress := { machine := start, clock := .ofRate o.rate }
  let opening := told ++ [.running o.steps.toNat rate]
  have hopening : ∀ n ∈ opening, n.Aside :=
    List.forall_mem_append.2 ⟨aside, List.forall_mem_singleton.2 ⟨rfl, rfl⟩⟩
  have hbegun : Progress.Told start o.presses rate begun 0 := ⟨rfl, rfl, rfl⟩
  have hsees : (begun.tell filter.shows opening).Sees start o.presses rate 0 :=
    { hbegun.tell hopening with
      running := ok
      machine := .refl _ _
      clock := TickClock.ofRate_eq_after o.rate
      playing := rfl
      dirty := iff_of_true marked rfl }
  have hplay := hsees.play (TickClock.rate_ofRate_pos o.rate) (fun _ _ => shown _ rfl rfl) o.steps.toNat
  rw [Nat.zero_add] at hplay
  let played := Progress.play o.presses filter.shows o.steps.toNat 0 (begun.tell filter.shows opening)
  have hrun : (run o filter start told).told = played.told.reverse ++ [.updates played.updates] := by
    have htold := Progress.told_tell played filter.shows [.updates played.updates]
    rwa [List.filter_cons_of_pos (shown _ rfl rfl), List.filter_nil] at htold
  rw [hrun, List.filterMap_append, List.filterMap_append, hplay.sounds, hplay.unsaid, ← hplay.counted]
  exact ⟨List.append_nil _, rfl⟩

/-- **What is told of the tone and of the screen is true.**  Let the arguments be accepted and ask for what happens, let
the run begin, and let the names in the filter that stand for the run itself ask for its notices at INFO, and every text
fit the pattern.  Then of the lines of the messages, those that tell of the tone alternate, the first of them tells that
it is on, each is about a later step than the one before it, and only of steps that did not stop the machine.  After
every step that did not stop the machine its tone plays exactly if the last of them up to this step tells that it is on.
And a single line tells the number of updates: it is the number of steps that did not stop the machine and are the first
one, or executed `00E0` or `DXYN`. -/
theorem told_of_arguments {args : List String} {o : Options} (hargs : Options.ofArguments args = .ok o)
    (hdebug : o.debug = true) (around : Surroundings) (hfit : ¬o.Unfit around.read)
    (hnamed : ∀ d ∈ around.filter.named, d.1.toList <+: "chip_8_frontend".toList →
      d.2 ∈ [some .info, some .debug, some .trace])
    (hpattern : ∀ message, around.filter.pattern message = true) (entropy : Random.Key) :
    let r := Report.ofArguments args around entropy
    ∃ font program, o.Names around.read font program ∧
      let start := o.loaded font program entropy
      let rate := max 100 (min o.rate 2000)
      let machine := start.afterRounds o.presses rate
      ∃ lines : List String,
        r.messages = around.filter.warning ++ String.join (lines.map (· ++ "\n")) ∧ (∀ l ∈ lines, '\n' ∉ l.toList) ∧
        (∃ sounds : List (Bool × Nat),
          lines.filter (fun l => "[INFO  chip_8_frontend] Sound ".toList.isPrefixOf l.toList) =
            sounds.map (fun sound => "[INFO  chip_8_frontend] Sound " ++ (if sound.1 then "on" else "off") ++
              " at step " ++ toString sound.2) ∧
          (∀ (i : Nat) (sound : Bool × Nat), sounds[i]? = some sound → (sound.1 = true ↔ Even i)) ∧
          sounds.Pairwise (·.2 < ·.2) ∧
          (∀ sound ∈ sounds, sound.2 < o.steps.toNat ∧ (machine (sound.2 + 1)).status = .ok) ∧
          ∀ step < o.steps.toNat, (machine (step + 1)).status = .ok →
            ((machine (step + 1)).timers.tone = true ↔
              ∃ last, (sounds.filter (·.2 ≤ step)).getLast? = some (true, last))) ∧
        ∀ count, lines.count ("[INFO  chip_8_frontend] " ++ toString count ++ " screen updates") =
          if count = Nat.count (start.UpdatesIn o.presses rate) o.steps.toNat then 1 else 0 := by
  intro r
  have hr : r = o.report around entropy := Report.ofArguments_eq hargs around entropy
  obtain ⟨font, program, hnames⟩ := Options.exists_names hfit
  refine ⟨font, program, hnames, ?_⟩
  intro start rate machine
  have ok : start.status = .ok := Options.status_loaded o font entropy hnames.fits
  have marked : start.display.dirty = true := congrArg (·.display.dirty) (Machine.load_eq _ program)
  obtain ⟨opening, hstart⟩ := Options.start_of_names hnames entropy
  have aside : ∀ n ∈ opening, n.Aside := by
    have haside := o.aside_start around.read entropy
    rwa [hstart] at haside
  let filter := around.filter.withDebug o.debug
  have shown (n : Notice) (hsource : n.source = "chip_8_frontend") (hlevel : n.level = .info) :
      filter.shows n = true := by
    rw [show filter = around.filter.withDebug true from congrArg around.filter.withDebug hdebug]
    exact LogFilter.shows_withDebug hlevel (hsource ▸ hnamed) hpattern
  let s := Session.run o filter start opening
  obtain ⟨hsounds, hupdates⟩ := Session.told_run shown ok marked aside
  have hmessages : r.messages = around.filter.warning ++ Report.noticeText s.told := by
    have hwarning : filter.warning = around.filter.warning :=
      congrArg (fun debug => (around.filter.withDebug debug).warning) hdebug
    rw [hr, ← hwarning]
    unfold Options.report Session.ofOptions
    rw [hstart]
    exact congrArg (filter.warning ++ ·) String.append_empty
  have heard : s.told.filterMap Notice.sound? = changes (start.heard o.presses rate) o.steps.toNat := hsounds
  have hlines := Report.filter_flatMap_lines s.told
  rw [heard] at hlines
  refine ⟨s.told.flatMap Notice.lines, hmessages.trans (by rw [Report.noticeText_eq_lines]), fun l hl => ?_,
    ⟨_, hlines, fun i sound hi => changes_alternate rfl hi, pairwise_changes _ _, fun sound hs => ?_,
      fun step hlt hok => ?_⟩, fun count => ?_⟩
  · obtain ⟨n, -, hn⟩ := List.mem_flatMap.1 hl
    exact Notice.not_mem_of_mem_lines l hn
  · obtain ⟨hlt, hchange, -⟩ := mem_changes_iff.1 hs
    exact ⟨hlt, by_contra fun stopped => hchange (if_neg stopped)⟩
  · rw [filter_changes _ hlt, ← last_change_iff rfl]
    have hlast : start.heard o.presses rate (step + 1) = (machine (step + 1)).timers.tone := if_pos hok
    rw [hlast]
  · have hcount := Report.count_flatMap_lines s.told count
    rw [show s.told.filterMap Notice.updates? = _ from hupdates, List.count_singleton] at hcount
    refine hcount.trans (if_congr ?_ rfl rfl)
    rw [beq_iff_eq]
    exact eq_comm

/-- One file, with a program that starts the tone, draws a digit and clears the screen, and then comes to a word that is
no instruction.  The filter is for warnings, for nothing of the machine, and for what the run itself tells. -/
def soundingProgram : Surroundings where
  read path :=
    if path = "a.ch8" then .ok [0x60, 0x02, 0xF0, 0x18, 0xD0, 0x05, 0x00, 0xE0, 0x60, 0x00, 0x00, 0x00]
    else .error ⟨"No such file or directory", 2⟩
  write _ := .ok ()
  filter := { root := some .warn, named := [("chip_8_core", none), ("chip_8_frontend", some .info)] }

/-- At a hundred steps in a second the tone is on after the fourth step of this program and off after the fifth, and the
sixth stops the machine; three steps update the screen. -/
theorem told_of_soundingProgram :
    ∃ (lines : List String) (sounds : List (Bool × Nat)),
      (Report.ofArguments ["a.ch8", "--ips", "100", "--steps", "9", "--debug"] soundingProgram
        (Vector.replicate 8 0)).messages = String.join (lines.map (· ++ "\n")) ∧
      lines.filter (fun l => "[INFO  chip_8_frontend] Sound ".toList.isPrefixOf l.toList) =
        sounds.map (fun sound => "[INFO  chip_8_frontend] Sound " ++ (if sound.1 then "on" else "off") ++
          " at step " ++ toString sound.2) ∧
      (∃ last, (sounds.filter (·.2 ≤ 3)).getLast? = some (true, last)) ∧
      (¬∃ last, (sounds.filter (·.2 ≤ 4)).getLast? = some (true, last)) ∧
      "[INFO  chip_8_frontend] 3 screen updates" ∈ lines := by
  let image : List UInt8 := [0x60, 0x02, 0xF0, 0x18, 0xD0, 0x05, 0x00, 0xE0, 0x60, 0x00, 0x00, 0x00]
  let o : Options := { rom := "a.ch8", rate := 100, steps := 9, debug := true }
  let start := o.loaded .standard image (Vector.replicate 8 0)
  have hargs : Options.ofArguments ["a.ch8", "--ips", "100", "--steps", "9", "--debug"] = .ok o := by rfl
  have hnamed : o.Names soundingProgram.read .standard image := ⟨by decide, rfl, rfl, by decide⟩
  have hasked : ∀ d ∈ soundingProgram.filter.named, d.1.toList <+: "chip_8_frontend".toList →
      d.2 ∈ [some .info, some .debug, some .trace] := by decide
  obtain ⟨font, program, hnames, lines, hmessages, -, ⟨sounds, hlines, -, -, -, htone⟩, hupdates⟩ :=
    told_of_arguments hargs rfl soundingProgram hnamed.not_unfit hasked (fun _ => rfl) (Vector.replicate 8 0)
  obtain rfl : font = .standard := hnames.font
  obtain rfl : image = program := Except.ok.inj hnames.reads
  obtain ⟨hok, hon, hok', hoff⟩ : (start.afterRounds o.presses 100 4).status = .ok ∧
      (start.afterRounds o.presses 100 4).timers.tone = true ∧ (start.afterRounds o.presses 100 5).status = .ok ∧
      (start.afterRounds o.presses 100 5).timers.tone = false := by decide +kernel
  have hcount : 3 = Nat.count (start.UpdatesIn o.presses 100) 9 := by decide +kernel
  refine ⟨lines, sounds, hmessages.trans String.empty_append, hlines, (htone 3 (by decide) hok).1 hon,
    fun hlast => ?_, ?_⟩
  · exact Bool.false_ne_true (hoff.symm.trans ((htone 4 (by decide) hok').2 hlast))
  · refine List.count_pos_iff.1 (Nat.lt_of_lt_of_eq Nat.one_pos ?_)
    exact ((hupdates 3).trans (if_pos hcount)).symm

end Chip8
