import Mathlib
import Chip8.CommandLine.Report
import Chip8.Proofs.Rendering
import Chip8.Proofs.Rounds
/-!
# Outcome — what a command line comes to

What a command line asks for cannot begin if its scale is out of range, if a file that it names cannot be read, or if
the font or the program in one of them has the wrong size; this is all (`Options.Unfit`).  Otherwise it names a font and
a program, and what the run leaves behind can be told from the machine that the rounds of the program come to: the text
of its screen, the picture of it, and whether and where it has stopped (`outcome_of_arguments`).  As a machine that has
stopped stays as it is, more steps than it takes make no difference.
-/
namespace Chip8

theorem Font.ofBytes?_eq_ok_iff {bytes : List UInt8} {font : Font} :
    Font.ofBytes? bytes = .ok font ↔ bytes = font.toList := by
  unfold ofBytes?
  constructor
  · intro h
    split at h
    · rw [← Except.ok.inj h]
      rfl
    · exact nomatch h
  · rintro rfl
    rw [dif_pos font.length_toList]
    rfl

namespace Options

/-- Whether what the options ask for cannot begin: the scale is out of range, a file that they name cannot be read, or
the font or the program has the wrong size. -/
def Unfit (o : Options) (read : FileReader) : Prop :=
  (o.scale < 1 ∨ 100 < o.scale) ∨
  (∃ path e, (o.font = some path ∨ o.rom = path) ∧ read path = .error e) ∨
  (∃ path bytes, o.font = some path ∧ read path = .ok bytes ∧ bytes.length ≠ 80) ∨
  ∃ program, read o.rom = .ok program ∧ 3584 < program.length

/-- The options can be followed, with this font and this program. -/
structure Names (o : Options) (read : FileReader) (font : Font) (program : List UInt8) : Prop where
  scale : 1 ≤ o.scale ∧ o.scale ≤ 100
  font : o.font.elim (font = .standard) fun path => read path = .ok font.toList
  reads : read o.rom = .ok program
  fits : program.length ≤ 3584

section

variable {o : Options} {read : FileReader} {font : Font} {program : List UInt8}

theorem Names.not_unfit (h : o.Names read font program) : ¬o.Unfit read := by
  rintro (hscale | ⟨path, e, hpath, he⟩ | ⟨path, bytes, hpath, hbytes, hlength⟩ | ⟨program', hp, hlong⟩)
  · have := h.scale
    omega
  · rcases hpath with hpath | rfl
    · have hfont := h.font
      rw [hpath, Option.elim_some, he] at hfont
      exact nomatch hfont
    · rw [h.reads] at he
      exact nomatch he
  · have hfont := h.font
    rw [hpath, Option.elim_some, hbytes] at hfont
    rw [Except.ok.inj hfont] at hlength
    exact hlength font.length_toList
  · rw [h.reads] at hp
    rw [← Except.ok.inj hp] at hlong
    exact absurd h.fits (Nat.not_le.2 hlong)

/-- **Options that can begin name a font and a program.** -/
theorem exists_names (h : ¬o.Unfit read) : ∃ font program, o.Names read font program := by
  unfold Unfit at h
  simp only [not_or, not_lt] at h
  obtain ⟨hscale, hread, hlength, hlong⟩ := h
  have hreadable (path : String) (hpath : o.font = some path ∨ o.rom = path) : ∃ bytes, read path = .ok bytes := by
    cases hr : read path with
    | error e => exact absurd ⟨path, e, hpath, hr⟩ hread
    | ok bytes => exact ⟨bytes, rfl⟩
  obtain ⟨program, hprogram⟩ := hreadable o.rom (Or.inr rfl)
  have hfits : program.length ≤ 3584 := Nat.not_lt.1 fun hlt => hlong ⟨program, hprogram, hlt⟩
  cases hfont : o.font with
  | none => exact ⟨.standard, program, hscale, by rw [hfont]; rfl, hprogram, hfits⟩
  | some path =>
    obtain ⟨bytes, hbytes⟩ := hreadable path (Or.inl hfont)
    have hsize : bytes.length = 80 := by_contra fun hne => hlength ⟨path, bytes, hfont, hbytes, hne⟩
    refine ⟨⟨bytes.toArray, hsize⟩, program, hscale, ?_, hprogram, hfits⟩
    rw [hfont]
    exact hbytes

theorem config_of_names (h : o.Names read font program) :
    o.config read = .ok { font, dialect := o.interpreter.dialect, seed := o.seed } := by
  have hfont := h.font
  unfold config
  cases hf : o.font with
  | none =>
    rw [hf, Option.elim_none] at hfont
    rw [hfont]
    rfl
  | some path =>
    rw [hf, Option.elim_some] at hfont
    simp only [hfont, Font.ofBytes?_eq_ok_iff.2 rfl]
    rfl

/-- The machine of a font and a program that the options name, when the program is loaded. -/
def loaded (o : Options) (font : Font) (program : List UInt8) (entropy : Random.Key) : Machine :=
  (Machine.build { font, dialect := o.interpreter.dialect, seed := o.seed } entropy).load program

theorem status_loaded (o : Options) (font : Font) (entropy : Random.Key) (hfits : program.length ≤ 3584) :
    (o.loaded font program entropy).status = .ok := by
  unfold loaded
  rw [Machine.load_eq]
  exact if_pos hfits

theorem start_of_names (h : o.Names read font program) (entropy : Random.Key) :
    ∃ told, o.start read entropy = (told, .ok (o.loaded font program entropy)) := by
  have hscale : ¬(o.scale = 0 ∨ 100 < o.scale) := by
    have := h.scale
    omega
  have hfault : (o.loaded font program entropy).status.fault? = none := by
    rw [status_loaded o font entropy h.fits]
    rfl
  unfold start
  rw [if_neg hscale, config_of_names h]
  simp only [h.reads]
  rw [show ((Machine.build _ entropy).loadTraced program).machine = o.loaded font program entropy from rfl, hfault]
  exact ⟨_, rfl⟩

theorem font_of_config {config : Config} (h : o.config read = .ok config) :
    o.font.elim (config.font = .standard) fun path => read path = .ok config.font.toList := by
  unfold Options.config at h
  cases hf : o.font with
  | none =>
    rw [hf] at h
    rw [← Except.ok.inj h]
    rfl
  | some path =>
    rw [hf] at h
    cases hr : read path with
    | error e =>
      simp only [hr] at h
      exact nomatch h
    | ok bytes =>
      simp only [hr] at h
      cases hb : Font.ofBytes? bytes with
      | error e =>
        rw [hb] at h
        exact nomatch h
      | ok font =>
        rw [hb] at h
        rw [Font.ofBytes?_eq_ok_iff.1 hb] at hr
        rw [← Except.ok.inj h]
        exact hr

theorem start_of_unfit (h : o.Unfit read) (entropy : Random.Key) :
    ∃ told failure, o.start read entropy = (told, .error failure) := by
  unfold start
  by_cases hscale : o.scale = 0 ∨ 100 < o.scale
  · rw [if_pos hscale]
    exact ⟨_, _, rfl⟩
  · rw [if_neg hscale]
    cases hconfig : o.config read with
    | error failure => exact ⟨_, _, rfl⟩
    | ok config =>
      simp only
      cases hreads : read o.rom with
      | error e => exact ⟨_, _, rfl⟩
      | ok program =>
        simp only
        cases hfault : ((Machine.build config entropy).loadTraced program).machine.status.fault? with
        | some fault => exact ⟨_, _, rfl⟩
        | none =>
          have hfits : program.length ≤ 3584 := by
            by_contra hlong
            rw [show ((Machine.build config entropy).loadTraced program).machine.status = .halted _ from
              (congrArg Machine.status (Machine.load_eq _ program)).trans (if_neg hlong)] at hfault
            exact nomatch hfault
          have hnames : o.Names read config.font program :=
            ⟨by omega, font_of_config hconfig, hreads, hfits⟩
          exact absurd h hnames.not_unfit

end

end Options

/-! ## What a session leaves behind -/

open Machine

/-- What is written when a fault has stopped a machine, with its program counter here. -/
def haltText (pc : UInt16) (fault : Fault) : String :=
  let hex (n : Nat) := String.ofList ((Nat.toDigits 16 n).leftpad 4 '0')
  "Error: program halted at 0x" ++ hex pc.toNat ++ "\n\nCaused by:\n    " ++
    (match fault with
    | .programTooBig size => "program of " ++ toString size ++ " bytes does not fit in the program area"
    | .outOfBounds address => "memory accessed out of bounds at 0x" ++ hex address
    | .notRecognized word => "instruction 0x" ++ hex word.toNat ++ " not recognized"
    | .machineRoutine word => "machine code routine 0x" ++ hex word.toNat ++ " (0NNN) is not implemented"
    | .stackOverflow => "stack overflowed"
    | .stackUnderflow => "stack underflowed") ++ "\n"

/-- A report shows the last machine of a run: its screen, as 32 lines of text and in the file that is asked for, and if
it was stopped, where and why.  Unless notices are asked for, nothing else is written. -/
structure Report.Shows (r : Report) (o : Options) (filter : LogFilter) (last : Machine) : Prop where
  output : r.output.toList = (List.range 32).flatMap fun y =>
    ((List.range 64).map fun x => if last.display.screen.pixel x y then '█' else ' ') ++ ['\n']
  picture : r.picture.map (·.data.toList) = o.snapshot.map fun _ =>
    ("P6\n" ++ toString (64 * o.scale) ++ " " ++ toString (32 * o.scale) ++ "\n255\n").toUTF8.data.toList ++
      (List.range (32 * o.scale)).flatMap fun v => (List.range (64 * o.scale)).flatMap fun u =>
        let c := if last.display.screen.pixel (u / o.scale) (v / o.scale) then o.foreground else o.background
        [c.red, c.green, c.blue]
  exitCode : r.exitCode = if last.status = .ok then 0 else 1
  halted : ∀ fault, last.status = .halted fault → ∃ before, r.closing = before ++ haltText last.pc fault
  quiet : o.debug = false → (∀ n, filter.shows n = false) →
    r.messages = filter.warning ∧ r.closing = last.status.fault?.elim "" (haltText last.pc)

theorem Report.failureText_halted (pc : UInt16) (fault : Fault) :
    failureText (.halted pc fault) = haltText pc fault := by
  have hfault : failureText (.halted pc fault) = "Error: " ++ ("program halted at 0x" ++ Text.hex 4 pc.toNat) ++
      ("\n\nCaused by:\n    " ++ fault.message) ++ "\n" := rfl
  have hopening : "Error: program halted at 0x" = "Error: " ++ "program halted at 0x" := rfl
  rw [hfault]
  unfold haltText
  rw [hopening]
  simp only [String.append_assoc]
  cases fault <;> rfl

namespace Session

/-- **A session ends with the machine of its rounds**, but for the mark that the screen was drawn on. -/
theorem sameBut_run {o : Options} {start : Machine} (ok : start.status = .ok) (filter : LogFilter)
    (told : List Notice) :
    SameBut .mark (start.afterRounds o.presses (TickClock.ofRate o.rate).rate o.steps.toNat)
      (run o filter start told).machine := by
  let rate := (TickClock.ofRate o.rate).rate
  let begun : Progress := { machine := start, clock := .ofRate o.rate }
  let p := begun.tell filter.shows (told ++ [.running o.steps.toNat rate])
  have hclock : p.clock = .after rate 0 := TickClock.ofRate_eq_after o.rate
  have hplay := Progress.sameBut_play (TickClock.rate_ofRate_pos o.rate) filter.shows
    (SameBut.refl .mark (start.afterRounds o.presses rate 0)) hclock ok o.steps.toNat
  rwa [Nat.zero_add] at hplay

theorem shown_run (o : Options) (filter : LogFilter) (start : Machine) (told : List Notice) :
    ∀ n ∈ (run o filter start told).told, filter.shows n = true := by
  intro n hn
  refine Progress.shown_tell ?_ _ n (List.mem_reverse.1 hn)
  exact Progress.shown_play (Progress.shown_tell (fun _ hnone => absurd hnone List.not_mem_nil) _) _ _ _

theorem exists_conclude (s : Session) : ∃ notices, s.conclude (.ok ()) = (notices, s.halt?) ∧
    ∀ n ∈ notices, s.filter.shows n = true := by
  unfold conclude
  cases s.options.snapshot with
  | none => exact ⟨[], rfl, nofun⟩
  | some path => exact ⟨_, rfl, fun n hn => (List.mem_filter.1 hn).2⟩

theorem closing_eq (s : Session) : ∃ notices, (Report.ofSession s (.ok ())).closing =
    Report.noticeText notices ++ s.machine.status.fault?.elim "" (haltText s.machine.pc) ∧
    ∀ n ∈ notices, s.filter.shows n = true := by
  obtain ⟨notices, hconclude, hshown⟩ := s.exists_conclude
  refine ⟨notices, ?_, hshown⟩
  unfold Report.ofSession
  simp only [hconclude]
  unfold Report.messagesOf halt?
  congr 1
  cases s.machine.status.fault? with
  | none => rfl
  | some fault => exact Report.failureText_halted s.machine.pc fault

theorem shows_ofSession (s : Session) (hscale : 1 ≤ s.options.scale)
    (hstatus : s.machine.status = .ok ∨ ∃ fault, s.machine.status = .halted fault)
    {filter : LogFilter} (hfilter : s.filter = filter.withDebug s.options.debug)
    (hshown : ∀ n ∈ s.told, s.filter.shows n = true) :
    (Report.ofSession s (.ok ())).Shows s.options filter s.machine where
  output := s.machine.display.screen.text_eq
  picture := by
    unfold Report.ofSession
    cases s.options.snapshot with
    | none => rfl
    | some path =>
      have hdata := s.machine.display.screen.data_pixmap s.options.foreground s.options.background s.options.scale
      rw [Screen.body_eq _ _ _ hscale] at hdata
      exact congrArg some hdata
  exitCode := by
    obtain ⟨notices, hconclude, -⟩ := s.exists_conclude
    unfold Report.ofSession
    simp only [hconclude]
    unfold halt?
    rcases hstatus with hok | ⟨fault, hf⟩
    · rw [hok]
      rfl
    · rw [hf]
      rfl
  halted fault hf := by
    obtain ⟨notices, hclosing, -⟩ := s.closing_eq
    rw [hclosing, hf]
    exact ⟨_, rfl⟩
  quiet hdebug silent := by
    have hnone {notices : List Notice} (h : ∀ n ∈ notices, s.filter.shows n = true) : notices = [] := by
      rw [hfilter, hdebug] at h
      exact List.eq_nil_iff_forall_not_mem.2 fun n hn => Bool.false_ne_true ((silent n).symm.trans (h n hn))
    obtain ⟨notices, hclosing, hlast⟩ := s.closing_eq
    rw [hnone hlast] at hclosing
    refine ⟨?_, hclosing.trans String.empty_append⟩
    show s.filter.warning ++ Report.messagesOf s.told none = filter.warning
    rw [hnone hshown, hfilter, hdebug]
    exact String.append_empty

end Session

theorem Report.Shows.of_sameBut {r : Report} {o : Options} {filter : LogFilter} {p : Part} {m n : Machine}
    (hp : p = .mark ∨ p = .chance) (h : SameBut p m n) (hr : r.Shows o filter n) : r.Shows o filter m := by
  rw [h] at hr
  rcases hp with rfl | rfl
  · exact ⟨hr.output, hr.picture, hr.exitCode, hr.halted, hr.quiet⟩
  · exact ⟨hr.output, hr.picture, hr.exitCode, hr.halted, hr.quiet⟩

/-! ## The outcome of a command line -/

namespace Machine

/-- None of the first rounds of a machine executes a `CXNN` where `NN` is not zero. -/
def DrawsNothing (m : Machine) (script : List KeyPress) (rate steps : Nat) : Prop :=
  ∀ step < steps, ¬((m.afterRounds script rate step).moveKeys script step).Reads .chance
    (.step (TickClock.ticksAt rate step))

instance (m : Machine) (script : List KeyPress) (rate steps : Nat) : Decidable (m.DrawsNothing script rate steps) :=
  inferInstanceAs (Decidable (∀ step < steps, _))

/-- A machine that stops takes no further word, so more rounds than it takes draw nothing either. -/
theorem DrawsNothing.of_stopsIn {m : Machine} {script : List KeyPress} {rate steps step : Nat}
    (h : m.DrawsNothing script rate steps) (hstops : m.StopsIn script rate step) (hlt : step < steps) (more : Nat) :
    m.DrawsNothing script rate more := by
  intro later _ hreads
  by_cases hle : later ≤ step
  · exact h later (Nat.lt_of_le_of_lt hle hlt) hreads
  · have ok : (m.afterRounds script rate later).status = .ok := (status_moveKeys ..).symm.trans hreads.1.1
    exact hle ((hstops.ok_iff later).1 ok)

end Machine

namespace Options

section

variable {o : Options} {around : Surroundings} {font : Font} {program : List UInt8}

/-- The machine of the options when its rounds are done. -/
def last (o : Options) (start : Machine) : Machine :=
  start.afterRounds o.presses (max 100 (min o.rate 2000)) o.steps.toNat

/-- **A run shows the machine of its rounds.** -/
theorem shows_last (hnames : o.Names around.read font program)
    (hwrites : ∀ path ∈ o.snapshot, around.write path = .ok ()) (entropy : Random.Key) :
    (o.report around entropy).Shows o around.filter (o.last (o.loaded font program entropy)) := by
  have ok := status_loaded o font entropy hnames.fits
  obtain ⟨told, hstart⟩ := start_of_names hnames entropy
  have hwritten : o.snapshot.elim (.ok ()) around.write = .ok () := by
    cases hs : o.snapshot with
    | none => rfl
    | some path => exact hwrites path hs
  let filter := around.filter.withDebug o.debug
  have hlast := Session.sameBut_run (o := o) ok filter told
  have hstatus : (o.last (o.loaded font program entropy)).status = .ok ∨
      ∃ fault, (o.last (o.loaded font program entropy)).status = .halted fault := status_afterRounds ok o.steps.toNat
  rw [show (o.last _).status = _ from hlast.status.symm] at hstatus
  unfold report Session.ofOptions
  rw [hstart]
  simp only [hwritten]
  exact (Session.shows_ofSession (Session.run o filter (o.loaded font program entropy) told) hnames.scale.1 hstatus rfl
    (Session.shown_run _ _ _ _)).of_sameBut (Or.inl rfl) hlast

/-- **Entropy does not show** where a seed is given or nothing is drawn. -/
theorem shows_of_drawsNothing (hnames : o.Names around.read font program)
    (hwrites : ∀ path ∈ o.snapshot, around.write path = .ok ()) (entropy entropy' : Random.Key)
    (h : o.seed.isSome ∨
      (o.loaded font program entropy').DrawsNothing o.presses (max 100 (min o.rate 2000)) o.steps.toNat) :
    (o.report around entropy).Shows o around.filter (o.last (o.loaded font program entropy')) := by
  have hshows := shows_last hnames hwrites entropy
  rcases h with hseed | hdraws
  · have hloaded : o.loaded font program entropy = o.loaded font program entropy' :=
      congrArg (·.load program) (build_of_seed (Or.inl hseed))
    rwa [hloaded] at hshows
  · let config : Config := { font, dialect := o.interpreter.dialect, seed := o.seed }
    have hbuilt : SameBut .chance (build config entropy') (build config entropy) := rfl
    exact hshows.of_sameBut (Or.inr rfl) ((hbuilt.load program).afterRounds hdraws)

theorem exitCode_eq_zero_iff {r : Report} {filter : LogFilter} {start : Machine} (h : r.Shows o filter (o.last start))
    (ok : start.status = .ok) :
    r.exitCode = 0 ↔ ¬∃ step < o.steps.toNat, start.StopsIn o.presses (max 100 (min o.rate 2000)) step := by
  rw [← ok_afterRounds_iff ok, h.exitCode]
  by_cases hok : (o.last start).status = .ok
  · rw [if_pos hok]
    exact iff_of_true rfl hok
  · rw [if_neg hok]
    exact iff_of_false (by decide) hok

theorem report_of_unfit (h : o.Unfit around.read) (entropy : Random.Key) :
    (o.report around entropy).exitCode = 1 ∧ (o.report around entropy).output = "" ∧
      (o.report around entropy).picture = none := by
  obtain ⟨told, failure, hstart⟩ := start_of_unfit h entropy
  unfold report Session.ofOptions
  rw [hstart]
  exact ⟨rfl, rfl, rfl⟩

/-- Two reports that show the same machine are the same, but for what was told. -/
theorem same_of_shows {r r' : Report} {filter : LogFilter} {steps : UInt64} {m : Machine} (h : r.Shows o filter m)
    (h' : r'.Shows { o with steps } filter m) :
    r'.output = r.output ∧ r'.picture = r.picture ∧ r'.exitCode = r.exitCode ∧
      (o.debug = false → (∀ n, filter.shows n = false) → r'.messages = r.messages ∧ r'.closing = r.closing) := by
  have hbytes : Function.Injective fun file : ByteArray => file.data.toList :=
    fun _ _ heq => ByteArray.ext (Array.toList_inj.1 heq)
  refine ⟨String.toList_inj.1 (h'.output.trans h.output.symm),
    Option.map_injective hbytes (h'.picture.trans h.picture.symm), h'.exitCode.trans h.exitCode.symm,
    fun hdebug silent => ?_⟩
  obtain ⟨hmessages, hclosing⟩ := h.quiet hdebug silent
  obtain ⟨hmessages', hclosing'⟩ := h'.quiet hdebug silent
  exact ⟨hmessages'.trans hmessages.symm, hclosing'.trans hclosing.symm⟩

end

end Options

theorem Report.ofArguments_eq {args : List String} {o : Options} (h : Options.ofArguments args = .ok o)
    (around : Surroundings) (entropy : Random.Key) : ofArguments args around entropy = o.report around entropy := by
  unfold ofArguments
  rw [h]

/-- **The outcome of a command line.**  Let the arguments be accepted, and the picture that they ask for be writable.
If what the options ask for cannot begin, the exit code is 1, and there is neither text nor picture.  Otherwise they
name a font and a program, and where a seed is given or the rounds of the program draw nothing, the report shows the
machine that these rounds come to, and the exit code is 0 exactly if none of them stops it.  If one does, any number of
steps above the number of that round leaves the same behind, but perhaps for notices that are asked for, and with any
other number the exit code is 0. -/
theorem outcome_of_arguments {args : List String} {o : Options} (hargs : Options.ofArguments args = .ok o)
    (around : Surroundings) (hwrites : ∀ path ∈ o.snapshot, around.write path = .ok ()) (entropy : Random.Key) :
    let r := Report.ofArguments args around entropy
    (o.Unfit around.read → r.exitCode = 1 ∧ r.output = "" ∧ r.picture = none) ∧
    (¬o.Unfit around.read → ∃ font program, o.Names around.read font program ∧ ∀ entropy',
      let start := o.loaded font program entropy'
      let rate := max 100 (min o.rate 2000)
      o.seed.isSome ∨ start.DrawsNothing o.presses rate o.steps.toNat →
      r.Shows o around.filter (start.afterRounds o.presses rate o.steps.toNat) ∧
      (r.exitCode = 0 ↔ ¬∃ step < o.steps.toNat, start.StopsIn o.presses rate step) ∧
      ∀ step < o.steps.toNat, start.StopsIn o.presses rate step →
        ∀ (args' : List String) (steps : UInt64) (entropy'' : Random.Key),
          Options.ofArguments args' = .ok { o with steps } →
          let r' := Report.ofArguments args' around entropy''
          (step < steps.toNat → r'.output = r.output ∧ r'.picture = r.picture ∧ r'.exitCode = r.exitCode ∧
            (o.debug = false → (∀ n, around.filter.shows n = false) →
              r'.messages = r.messages ∧ r'.closing = r.closing)) ∧
          (steps.toNat ≤ step → r'.exitCode = 0)) := by
  intro r
  have hr : r = o.report around entropy := Report.ofArguments_eq hargs around entropy
  refine ⟨fun hunfit => hr ▸ Options.report_of_unfit hunfit entropy, fun hfit => ?_⟩
  obtain ⟨font, program, hnames⟩ := Options.exists_names hfit
  refine ⟨font, program, hnames, fun entropy' => ?_⟩
  intro start rate hdraws
  have ok : start.status = .ok := Options.status_loaded o font entropy' hnames.fits
  have hshows : r.Shows o around.filter (start.afterRounds o.presses rate o.steps.toNat) :=
    hr ▸ Options.shows_of_drawsNothing hnames hwrites entropy entropy' hdraws
  refine ⟨hshows, Options.exitCode_eq_zero_iff hshows ok, fun step hlt hstops args' steps entropy'' hargs' => ?_⟩
  intro r'
  have hdraws' : o.seed.isSome ∨ start.DrawsNothing o.presses rate steps.toNat :=
    hdraws.imp_right fun h => h.of_stopsIn hstops hlt steps.toNat
  have hnames' : Options.Names { o with steps } around.read font program := { hnames with }
  have hr' : r' = Options.report { o with steps } around entropy'' := Report.ofArguments_eq hargs' around entropy''
  have hshows' : r'.Shows { o with steps } around.filter (start.afterRounds o.presses rate steps.toNat) :=
    hr' ▸ Options.shows_of_drawsNothing hnames' hwrites entropy'' entropy' hdraws'
  constructor
  · intro hmore
    rw [hstops.afterRounds_eq hlt] at hshows
    rw [hstops.afterRounds_eq hmore] at hshows'
    exact Options.same_of_shows hshows hshows'
  · intro hfewer
    rw [hshows'.exitCode]
    exact if_pos ((hstops.ok_iff steps.toNat).2 hfewer)

/-- One file, with a program that draws a digit and then comes to a word that is no instruction. -/
def oneProgram : Surroundings where
  read path :=
    if path = "a.ch8" then .ok [0x60, 0x05, 0xD0, 0x05, 0x00, 0x00] else .error ⟨"No such file or directory", 2⟩
  write _ := .ok ()

/-- The third step stops that program, and nine steps leave behind what a thousand do; two steps do not get there, and
another path names no file. -/
theorem outcome_of_oneProgram :
    let r := Report.ofArguments ["a.ch8", "--steps", "9", "--snapshot", "a.ppm"] oneProgram (Vector.replicate 8 0)
    r.exitCode = 1 ∧
      r.closing = "Error: program halted at 0x0204\n\nCaused by:\n    instruction 0x0000 not recognized\n" ∧
      (Report.ofArguments ["a.ch8", "--snapshot", "a.ppm"] oneProgram (Vector.replicate 8 1)).output = r.output ∧
      (Report.ofArguments ["a.ch8", "--steps", "2", "--snapshot", "a.ppm"] oneProgram
        (Vector.replicate 8 1)).exitCode = 0 ∧
      (Report.ofArguments ["b.ch8"] oneProgram (Vector.replicate 8 0)).exitCode = 1 := by
  intro r
  let o : Options := { rom := "a.ch8", steps := 9, snapshot := some "a.ppm" }
  let start := o.loaded .standard [0x60, 0x05, 0xD0, 0x05, 0x00, 0x00] (Vector.replicate 8 0)
  have hargs : Options.ofArguments ["a.ch8", "--steps", "9", "--snapshot", "a.ppm"] = .ok o := by rfl
  have hmore : Options.ofArguments ["a.ch8", "--snapshot", "a.ppm"] = .ok { o with steps := 1000 } := by rfl
  have hfewer : Options.ofArguments ["a.ch8", "--steps", "2", "--snapshot", "a.ppm"] =
      .ok { o with steps := 2 } := by rfl
  have hother : Options.ofArguments ["b.ch8"] = .ok { rom := "b.ch8" } := by rfl
  have hwrites : ∀ path ∈ o.snapshot, oneProgram.write path = .ok () := fun _ _ => rfl
  have hnamed : o.Names oneProgram.read .standard [0x60, 0x05, 0xD0, 0x05, 0x00, 0x00] :=
    ⟨by decide, rfl, rfl, by decide⟩
  have hunfit : Options.Unfit { rom := "b.ch8" } oneProgram.read :=
    Or.inr (Or.inl ⟨"b.ch8", _, Or.inr rfl, rfl⟩)
  obtain ⟨hdraws, hstops, hhalted, hpc⟩ : start.DrawsNothing o.presses 500 9 ∧ start.StopsIn o.presses 500 2 ∧
      (start.afterRounds o.presses 500 9).status = .halted (.notRecognized 0) ∧
      (start.afterRounds o.presses 500 9).pc = 0x204 := by decide +kernel
  obtain ⟨font, program, hnames, hruns⟩ :=
    (outcome_of_arguments hargs oneProgram hwrites (Vector.replicate 8 0)).2 hnamed.not_unfit
  obtain rfl : font = .standard := hnames.font
  obtain rfl : [0x60, 0x05, 0xD0, 0x05, 0x00, 0x00] = program := Except.ok.inj hnames.reads
  obtain ⟨hlast, -, hlater⟩ := hruns (Vector.replicate 8 0) (Or.inr hdraws)
  have hshows : r.Shows o {} (start.afterRounds o.presses 500 9) := hlast
  have hexit : r.exitCode = 1 := hshows.exitCode.trans (by rw [hhalted]; rfl)
  have hclosing : r.closing = haltText 0x204 (.notRecognized 0) :=
    (hshows.quiet rfl fun _ => rfl).2.trans (by rw [hhalted, hpc]; rfl)
  have hothers := hlater 2 (by decide) hstops
  have hsame := (hothers _ 1000 (Vector.replicate 8 1) hmore).1 (by decide)
  have hquit := (hothers _ 2 (Vector.replicate 8 1) hfewer).2 (by decide)
  have hnone := (outcome_of_arguments hother oneProgram nofun (Vector.replicate 8 0)).1 hunfit
  exact ⟨hexit, hclosing.trans (by decide), hsame.1, hquit, hnone.1⟩

end Chip8
