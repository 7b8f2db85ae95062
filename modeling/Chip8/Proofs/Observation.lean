import Mathlib
import Chip8.Proofs.Cells.Places
/-!
# Observation — parts of a machine that few instructions read

Time, keys and random numbers come from outside, and a program learns of each through a few instructions only: `FX07`
reads a timer, `EX9E`, `EXA1` and `FX0A` look at the keys, and `CXNN` takes a random byte, of which it keeps nothing if
`NN` is zero.  No instruction at all reads the mark that the screen was drawn on.  As long as a part is not read, what
is done to it makes no difference to the rest: machines that differ in it go on to differ in nothing else, through any
histories that are the same without what they do to it (`SameBut.run`).
-/
namespace Chip8

/-- A part of a machine that few instructions read. -/
inductive Part where
  /-- both counters and the tone -/
  | timers
  /-- the keys that are down -/
  | keys
  /-- the seed and the source of random numbers -/
  | chance
  /-- the mark that the screen was drawn on -/
  | mark
  deriving DecidableEq

/-- What is left of an operation without what it does to a part: the ticks of a step, the keys that are put down and let
up, the asking for the mark. -/
def Operation.without : Part → Operation → Option Operation
  | .timers, .step _ => some (.step 0)
  | .keys, .keyDown _ => none
  | .keys, .keyUp _ => none
  | .mark, .takeDirty => none
  | _, o => some o

/-- The part that an instruction reads. -/
def Instruction.sees? : Instruction → Option Part
  | .readDelay _ => some .timers
  | .skip (.keyDown _) => some .keys
  | .skip (.keyUp _) => some .keys
  | .waitKey _ => some .keys
  | .random _ nn => if nn = 0 then none else some .chance
  | _ => none

namespace Machine

/-- Whether an operation of a machine reads a part: a step that executes `FX07`, one that executes `EX9E`, `EXA1` or
`FX0A`, and one that executes `CXNN` where `NN` is not zero. -/
def Reads (m : Machine) : Part → Operation → Prop
  | .timers, .step _ => m.Executes [some 0xf, none, some 0x0, some 0x7]
  | .keys, .step _ =>
    m.Executes [some 0xe, none, some 0x9, some 0xe] ∨ m.Executes [some 0xe, none, some 0xa, some 0x1] ∨
      m.Executes [some 0xf, none, some 0x0, some 0xa]
  | .chance, .step _ => m.Executes [some 0xc, none, none, none] ∧ m.currentWord.toNat % 0x100 ≠ 0
  | _, _ => False

instance (m : Machine) : (p : Part) → (o : Operation) → Decidable (m.Reads p o)
  | .timers, .step _ => inferInstanceAs (Decidable (m.Executes _))
  | .keys, .step _ => inferInstanceAs (Decidable (_ ∨ _))
  | .chance, .step _ => inferInstanceAs (Decidable (_ ∧ _))
  | .mark, .step _ => inferInstanceAs (Decidable False)
  | _, .load _ | _, .keyDown _ | _, .keyUp _ | _, .takeDirty => .isFalse (by cases ‹Part› <;> exact id)

/-- A machine with a part of another one. -/
def withPart (m : Machine) : Part → Machine → Machine
  | .timers, n => { m with timers := n.timers }
  | .keys, n => { m with keypad := n.keypad }
  | .chance, n => { m with config := { m.config with seed := n.config.seed }, generator := n.generator }
  | .mark, n => { m with display := { m.display with dirty := n.display.dirty } }

/-- The machines agree in everything but a part. -/
def SameBut (p : Part) (m n : Machine) : Prop :=
  n = m.withPart p n

theorem SameBut.refl (p : Part) (m : Machine) : SameBut p m m := by
  cases p <;> rfl

theorem SameBut.trans {p : Part} {a b c : Machine} (h : SameBut p a b) (h' : SameBut p b c) : SameBut p a c := by
  unfold SameBut at *
  rw [h', h]
  cases p <;> rfl

theorem SameBut.symm {p : Part} {a b : Machine} (h : SameBut p a b) : SameBut p b a := by
  unfold SameBut at *
  rw [h]
  cases p <;> rfl

/-! ## One instruction -/

section

variable {p : Part} {m n : Machine} {i : Instruction}

theorem upcoming?_withPart (m : Machine) (p : Part) (n : Machine) : (m.withPart p n).upcoming? = m.upcoming? := by
  cases p <;> rfl

theorem byte_of_random {x : Register} {nn : UInt8} (hu : m.upcoming? = some (.random x nn)) :
    m.currentWord.toNat % 0x100 = 0 ↔ nn = 0 := by
  have hnn : UInt8.ofNat m.currentWord.toNat = nn := byte_of_digits (digits_of_decode? (upcoming?_eq_some_iff.1 hu).2)
  rw [← hnn, ← UInt8.toNat_inj, UInt8.toNat_ofNat']
  rfl

/-- **Whether an instruction reads a part** shows in the digits of its word. -/
theorem reads_iff (ok : m.status = .ok) (hu : m.upcoming? = some i) (ticks : Nat) :
    m.Reads p (.step ticks) ↔ i.sees? = some p := by
  cases i with
  | skip condition =>
    cases p <;> cases condition <;>
      simp [Reads, executes_iff ok hu, Instruction.sees?, Instruction.digits, Condition.digits, Pattern.fits]
  | random x nn =>
    cases p <;> by_cases hnn : nn = 0 <;>
      simp [Reads, executes_iff ok hu, byte_of_random hu, Instruction.sees?, Instruction.digits, byteDigits,
        Pattern.fits, hnn]
  | _ => cases p <;> simp [Reads, executes_iff ok hu, Instruction.sees?, Instruction.digits, Pattern.fits]

/-! ### What it leaves, by its name -/

theorem combine_withPart (m : Machine) (p : Part) (n : Machine) (op : Operator) (x y : Register) :
    ((m.withPart p n).combine op x y).registers = (m.combine op x y).registers := by
  unfold combine
  rw [show op.apply (m.withPart p n).config.dialect.shift ((m.withPart p n).register x) ((m.withPart p n).register y) =
    op.apply m.config.dialect.shift (m.register x) (m.register y) by cases p <;> rfl]
  split <;> cases p <;> rfl

theorem pointToGlyph_withPart (m : Machine) (p : Part) (n : Machine) (x : Register) :
    ((m.withPart p n).pointToGlyph x).index = (m.pointToGlyph x).index := by
  unfold pointToGlyph
  rw [show (m.withPart p n).register x = m.register x by cases p <;> rfl]
  split <;> cases p <;> rfl

theorem registersAfter_withPart (n : Machine) (hi : i.sees? ≠ some p) :
    (m.withPart p n).registersAfter i = m.registersAfter i := by
  cases i with
  | combine op x y => exact combine_withPart m p n op x y
  | random x nn =>
    by_cases hnn : nn = 0
    · -- the words that are drawn may differ, but nothing of them is kept
      have hnone (a : UInt8) : a &&& nn = 0 := by rw [hnn, UInt8.and_zero]
      unfold registersAfter
      simp only [hnone]
      cases p <;> rfl
    · cases p with
      | chance => exact absurd (if_neg hnn) hi
      | _ => rfl
  | readDelay x =>
    cases p with
    | timers => exact absurd rfl hi
    | _ => rfl
  | waitKey x =>
    cases p with
    | keys => exact absurd rfl hi
    | _ => rfl
  | _ => cases p <;> rfl

theorem indexAfter_withPart (m : Machine) (p : Part) (n : Machine) (i : Instruction) :
    (m.withPart p n).indexAfter i = m.indexAfter i := by
  cases i with
  | fontGlyph x => exact pointToGlyph_withPart m p n x
  | _ => cases p <;> rfl

theorem control_withPart (n : Machine) (hi : i.sees? ≠ some p) :
    (m.withPart p n).faultOf? i = m.faultOf? i ∧ (m.withPart p n).pcAfter i = m.pcAfter i ∧
      (m.withPart p n).stackAfter i = m.stackAfter i ∧ (m.withPart p n).waitAfter i = m.waitAfter i := by
  cases i with
  | skip condition =>
    cases p with
    | keys =>
      cases condition with
      | keyDown x | keyUp x => exact absurd rfl hi
      | _ => exact ⟨rfl, rfl, rfl, rfl⟩
    | _ => exact ⟨rfl, rfl, rfl, rfl⟩
  | waitKey x =>
    cases p with
    | keys => exact absurd rfl hi
    | _ => exact ⟨rfl, rfl, rfl, rfl⟩
  | _ => cases p <;> exact ⟨rfl, rfl, rfl, rfl⟩

theorem memoryAfter_withPart (m : Machine) (p : Part) (n : Machine) (i : Instruction) :
    (m.withPart p n).memoryAfter i = m.memoryAfter i := by
  cases p <;> cases i <;> rfl

theorem after_withPart (n : Machine) (hi : i.sees? ≠ some p) :
    (m.withPart p n).after i = (m.after i).withPart p ((m.withPart p n).after i) := by
  obtain ⟨hfault, hpc, hstack, hwait⟩ := control_withPart (m := m) n hi
  have hregisters := registersAfter_withPart (m := m) n hi
  unfold after
  rw [hfault, hpc, hstack, hwait, hregisters, indexAfter_withPart, memoryAfter_withPart]
  cases p with
  | timers => cases i <;> rfl
  | keys =>
    cases i with
    | waitKey x => exact absurd rfl hi -- only the wait for a key looks at the keys to set the timers
    | _ => rfl
  | chance => cases i <;> rfl
  | mark => cases i <;> rfl

/-! ## One operation -/

theorem SameBut.upcoming? (h : SameBut p m n) : n.upcoming? = m.upcoming? := by
  rw [h]
  exact upcoming?_withPart m p n

theorem SameBut.status (h : SameBut p m n) : n.status = m.status := by
  rw [h]
  cases p <;> rfl

theorem SameBut.missingFault (h : SameBut p m n) : n.missingFault = m.missingFault := by
  rw [h]
  cases p <;> rfl

theorem SameBut.halted (h : SameBut p m n) (fault : Fault) :
    SameBut p { m with status := .halted fault } { n with status := .halted fault } := by
  rw [h]
  cases p <;> rfl

theorem SameBut.elapse (h : SameBut p m n) {ticks₁ ticks₂ : Nat} (ht : p = .timers ∨ ticks₁ = ticks₂) :
    SameBut p (m.elapse ticks₁) (n.elapse ticks₂) := by
  rw [h]
  rcases ht with rfl | rfl
  · rfl
  · cases p <;> rfl

theorem SameBut.after (h : SameBut p m n) (hi : i.sees? ≠ some p) : SameBut p (m.after i) (n.after i) := by
  have hafter := after_withPart (m := m) n hi
  rwa [← h] at hafter

/-- **A step that does not read a part** leaves nothing else apart than was before. -/
theorem SameBut.step (h : SameBut p m n) {ticks₁ ticks₂ : Nat} (ht : p = .timers ∨ ticks₁ = ticks₂)
    (unread : ¬m.Reads p (.step ticks₁)) : SameBut p (m.step ticks₁) (n.step ticks₂) := by
  rw [step_eq, step_eq, h.status, h.upcoming?, h.missingFault]
  by_cases ok : m.status = .ok
  · rw [if_pos ok, if_pos ok]
    cases hu : m.upcoming? with
    | none => exact (h.elapse ht).halted m.missingFault
    | some i => exact (h.elapse ht).after (mt (reads_iff ok hu ticks₁).2 unread)
  · rw [if_neg ok, if_neg ok]
    exact h

theorem SameBut.load (h : SameBut p m n) (program : List UInt8) : SameBut p (m.load program) (n.load program) := by
  rw [load_eq, load_eq, h]
  cases p <;> rfl

/-- An operation of which nothing is left without a part changes nothing else. -/
theorem sameBut_perform_hidden (m : Machine) {o : Operation} (ho : o.without p = none) : SameBut p m (m.perform o) := by
  cases o with
  | load program | step ticks => cases p <;> exact nomatch ho
  | keyDown key | keyUp key =>
    cases p with
    | keys => rfl
    | _ => exact nomatch ho
  | takeDirty =>
    cases p with
    | mark => rfl
    | _ => exact nomatch ho

theorem eq_or_step_of_without {o o' : Operation} (h : o.without p = some o') :
    o = o' ∨ p = .timers ∧ ∃ ticks, o = .step ticks ∧ o' = .step 0 := by
  cases o with
  | load program => cases p <;> exact Or.inl (Option.some.inj h)
  | step ticks =>
    cases p with
    | timers => exact Or.inr ⟨rfl, ticks, rfl, (Option.some.inj h).symm⟩
    | _ => exact Or.inl (Option.some.inj h)
  | keyDown key | keyUp key =>
    cases p with
    | keys => exact nomatch h
    | _ => exact Or.inl (Option.some.inj h)
  | takeDirty =>
    cases p with
    | mark => exact nomatch h
    | _ => exact Or.inl (Option.some.inj h)

theorem same_or_steps {o₁ o₂ o : Operation} (h₁ : o₁.without p = some o) (h₂ : o₂.without p = some o) :
    o₁ = o₂ ∨ p = .timers ∧ ∃ ticks₁ ticks₂, o₁ = .step ticks₁ ∧ o₂ = .step ticks₂ := by
  rcases eq_or_step_of_without h₁ with rfl | ⟨rfl, ticks₁, rfl, rfl⟩
  · rcases eq_or_step_of_without h₂ with rfl | ⟨rfl, ticks₂, rfl, rfl⟩
    · exact Or.inl rfl
    · exact Or.inr ⟨rfl, 0, ticks₂, rfl, rfl⟩
  · rcases eq_or_step_of_without h₂ with rfl | ⟨-, ticks₂, rfl, -⟩
    · exact Or.inr ⟨rfl, ticks₁, 0, rfl, rfl⟩
    · exact Or.inr ⟨rfl, ticks₁, ticks₂, rfl, rfl⟩

/-- **Two operations that are the same without a part** leave nothing else apart than was before. -/
theorem SameBut.perform (h : SameBut p m n) {o₁ o₂ o : Operation} (h₁ : o₁.without p = some o)
    (h₂ : o₂.without p = some o) (unread : ¬m.Reads p o₁) : SameBut p (m.perform o₁) (n.perform o₂) := by
  rcases same_or_steps h₁ h₂ with rfl | ⟨rfl, ticks₁, ticks₂, rfl, rfl⟩
  · cases o₁ with
    | load program => exact h.load program
    | step ticks => exact h.step (Or.inr rfl) unread
    | keyDown key | keyUp key | takeDirty =>
      rw [h]
      cases p <;> rfl
  · exact h.step (Or.inl rfl) unread

/-! ### The places of return addresses -/

theorem placesAfter_of_hidden (m : Machine) {o : Operation} (ho : o.without p = none) (places : Places) :
    m.placesAfter places o = places := by
  cases o with
  | load program | step ticks => cases p <;> exact nomatch ho
  | _ => rfl

theorem SameBut.placesAfter (h : SameBut p m n) {o₁ o₂ o : Operation} (h₁ : o₁.without p = some o)
    (h₂ : o₂.without p = some o) (places : Places) : n.placesAfter places o₂ = m.placesAfter places o₁ := by
  rw [h]
  rcases same_or_steps h₁ h₂ with rfl | ⟨rfl, ticks₁, ticks₂, rfl, rfl⟩
  · cases p <;> cases o₁ <;> rfl
  · rfl

end

/-! ## Histories -/

theorem run_hidden {p : Part} {history : List Operation} (h : ∀ o ∈ history, o.without p = none) (m : Machine)
    (places : Places) : SameBut p m (m.run history) ∧ m.placesOver places history = places := by
  induction history generalizing m with
  | nil => exact ⟨.refl p m, rfl⟩
  | cons o history ih =>
    have ho : o.without p = none := h o List.mem_cons_self
    obtain ⟨hrun, hplaces⟩ := ih (fun o' ho' => h o' (List.mem_cons_of_mem o ho')) (m.perform o)
    refine ⟨(sameBut_perform_hidden m ho).trans hrun, ?_⟩
    rw [placesOver, placesAfter_of_hidden m ho]
    exact hplaces

/-- **What is done to a part that is not read is not seen in the rest.**  Two machines differ in one part only, and go
through histories that are the same without what they do to that part.  If no operation of the first reads the part, the
machines behind them differ in that part only, and their calls have left the same return addresses. -/
theorem SameBut.run {p : Part} {m n : Machine} (h : SameBut p m n) {h₁ h₂ : List Operation}
    (hsame : h₁.filterMap (Operation.without p) = h₂.filterMap (Operation.without p))
    (unread : m.Each (fun m o => ¬m.Reads p o) h₁) (places : Places) :
    SameBut p (m.run h₁) (n.run h₂) ∧ n.placesOver places h₂ = m.placesOver places h₁ := by
  -- along the first history; what the second does to nothing but the part is passed over up to its next other operation
  induction h₁ generalizing m n h₂ places with
  | nil =>
    have hhidden : ∀ o ∈ h₂, o.without p = none := List.filterMap_eq_nil_iff.1 hsame.symm
    obtain ⟨hrun, hplaces⟩ := run_hidden hhidden n places
    exact ⟨h.trans hrun, hplaces⟩
  | cons o₁ h₁ ih =>
    obtain ⟨hread, hrest⟩ := unread
    cases ho₁ : o₁.without p with
    | none =>
      rw [List.filterMap_cons_none ho₁] at hsame
      have hpart := (sameBut_perform_hidden m ho₁).symm.trans h
      rw [placesOver, placesAfter_of_hidden m ho₁]
      exact ih hpart hsame hrest places
    | some o =>
      rw [List.filterMap_cons_some ho₁] at hsame
      obtain ⟨before, o₂, after, rfl, hbefore, ho₂, hsame'⟩ := List.filterMap_eq_cons_iff.1 hsame.symm
      obtain ⟨hrun, hplaces⟩ := run_hidden hbefore n places
      have hpart := h.trans hrun
      rw [run_append, placesOver_append, hplaces, run_cons, run_cons, placesOver, placesOver,
        hpart.placesAfter ho₁ ho₂ places]
      exact ih (hpart.perform ho₁ ho₂ hread) hsame'.symm hrest _

end Machine

end Chip8
