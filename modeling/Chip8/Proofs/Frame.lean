import Mathlib
import Chip8.Proofs.Words
/-!
# Frame — what each instruction leaves alone

Instructions have their own components of the machine: jumps and calls move the program counter, two instructions draw,
five move the index, and so on.  Which of them may write to a component is written down here by the patterns of their
words (`Touches`).  A step that executes none of these leaves the component as the timers left it when they ran down,
whether it ends well or stops the machine; keys, font, dialect and seed belong to no instruction at all
(`touches_of_change`).  The other operations have one component each.
-/
namespace Chip8

/-- A component of a machine. -/
inductive Component where
  | pixels
  | index
  /-- the calls that are open -/
  | calls
  | register (j : Register)
  | memory
  | delay
  /-- the sound counter and the tone -/
  | sound
  | keyWait
  | generator
  | keypad
  /-- font, dialect and seed -/
  | config
  deriving DecidableEq

namespace Machine

/-- Whether a machine has a component in common with another one. -/
def SharesWith (m n : Machine) : Component → Prop
  | .pixels => m.display.screen = n.display.screen
  | .index => m.index = n.index
  | .calls => m.stack = n.stack
  | .register j => m.register j = n.register j
  | .memory => m.memory = n.memory
  | .delay => m.timers.delay = n.timers.delay
  | .sound => m.timers.sound = n.timers.sound ∧ m.timers.tone = n.timers.tone
  | .keyWait => m.keyWait = n.keyWait
  | .generator => m.generator = n.generator
  | .keypad => m.keypad = n.keypad
  | .config => m.config = n.config

instance (m n : Machine) : (c : Component) → Decidable (m.SharesWith n c)
  | .pixels | .index | .calls | .register _ | .memory | .delay | .keyWait | .generator | .keypad | .config =>
    inferInstanceAs (Decidable (_ = _))
  | .sound => inferInstanceAs (Decidable (_ ∧ _))

/-- Whether a step of a machine executes a word that fits one of these patterns. -/
def ExecutesOne (m : Machine) (patterns : List Pattern) : Prop :=
  ∃ pattern ∈ patterns, m.Executes pattern

instance (m : Machine) (patterns : List Pattern) : Decidable (m.ExecutesOne patterns) :=
  inferInstanceAs (Decidable (∃ pattern ∈ patterns, m.Executes pattern))

/-- The patterns of the instructions that write to the register `X` and to no other but the flag. -/
def writeX : List Pattern := [
  [some 0x6, none, none, none],
  [some 0x7, none, none, none],
  [some 0x8, none, none, some 0x0],
  [some 0x8, none, none, some 0x1],
  [some 0x8, none, none, some 0x2],
  [some 0x8, none, none, some 0x3],
  [some 0x8, none, none, some 0x4],
  [some 0x8, none, none, some 0x5],
  [some 0x8, none, none, some 0x6],
  [some 0x8, none, none, some 0x7],
  [some 0x8, none, none, some 0xe],
  [some 0xc, none, none, none],
  [some 0xf, none, some 0x0, some 0x7]]

/-- The patterns of the instructions that write to the flag, whatever their operands are. -/
def writeFlag : List Pattern := [
  [some 0x8, none, none, some 0x4],
  [some 0x8, none, none, some 0x5],
  [some 0x8, none, none, some 0x6],
  [some 0x8, none, none, some 0x7],
  [some 0x8, none, none, some 0xe],
  [some 0xd, none, none, none]]

/-- Whether a step of a machine executes an instruction that may write to a component. -/
def Touches (m : Machine) : Component → Prop
  | .pixels => m.ExecutesOne [[some 0x0, some 0x0, some 0xe, some 0x0], [some 0xd, none, none, none]]
  | .index =>
    m.ExecutesOne [[some 0xa, none, none, none], [some 0xf, none, some 0x1, some 0xe]] ∨
    (m.Executes [some 0xf, none, some 0x2, some 0x9] ∧ m.register m.currentX < 16) ∨
    (m.ExecutesOne [[some 0xf, none, some 0x5, some 0x5], [some 0xf, none, some 0x6, some 0x5]] ∧
      m.index.toNat + m.currentX.val < 0x1000 ∧ m.config.dialect.transfer = .advanced)
  | .calls => m.ExecutesOne [[some 0x2, none, none, none], [some 0x0, some 0x0, some 0xe, some 0xe]]
  | .register j =>
    (m.ExecutesOne writeX ∧ m.currentX = j) ∨
    (m.Executes [some 0xf, none, some 0x0, some 0xa] ∧ m.waitEnds = true ∧ m.currentX = j) ∨
    (m.Executes [some 0xf, none, some 0x6, some 0x5] ∧ j ≤ m.currentX) ∨
    (m.ExecutesOne writeFlag ∧ j = .flag)
  | .memory => m.ExecutesOne [[some 0xf, none, some 0x3, some 0x3], [some 0xf, none, some 0x5, some 0x5]]
  | .delay => m.Executes [some 0xf, none, some 0x1, some 0x5]
  | .sound => m.ExecutesOne [[some 0xf, none, some 0x1, some 0x8], [some 0xf, none, some 0x0, some 0xa]]
  | .keyWait => m.Executes [some 0xf, none, some 0x0, some 0xa]
  | .generator => m.Executes [some 0xc, none, none, none]
  | .keypad => False
  | .config => False

instance (m : Machine) : (c : Component) → Decidable (m.Touches c)
  | .pixels | .calls | .memory | .sound => inferInstanceAs (Decidable (m.ExecutesOne _))
  | .index | .register _ => inferInstanceAs (Decidable (_ ∨ _))
  | .delay | .keyWait | .generator => inferInstanceAs (Decidable (m.Executes _))
  | .keypad | .config => inferInstanceAs (Decidable False)

/-! ## Index and registers -/

section

variable {m : Machine} {x j : Register}

theorem indexAfterTransfer_eq {n : Nat}
    (h : ¬(m.index.toNat + n < 0x1000 ∧ m.config.dialect.transfer = .advanced)) :
    m.indexAfterTransfer (n + 1) = m.index := by
  unfold indexAfterTransfer
  by_cases hfits : m.index.toNat + n < memorySize
  · rw [if_neg (mt isSome_blockFault?_iff.1 (Nat.not_le.2 hfits))]
    cases ht : m.config.dialect.transfer with
    | advanced => exact absurd ⟨hfits, ht⟩ h
    | restored => rfl
  · rw [if_pos (isSome_blockFault?_iff.2 (Nat.not_lt.1 hfits))]

theorem register_combine {op : Operator} {y : Register} (hx : x ≠ j)
    (hflag : ∀ flag, (op.apply m.config.dialect.shift (m.register x) (m.register y)).2 = some flag → .flag ≠ j) :
    (m.combine op x y).register j = m.register j := by
  unfold combine
  split
  case h_1 value _ => exact m.registers.read_write_of_ne hx value
  case h_2 value flag happly =>
    have hne : .flag ≠ j := hflag flag (by rw [happly])
    exact (Registers.read_write_of_ne _ hne _).trans (m.registers.read_write_of_ne hx value)

theorem register_loadRegisters (h : x < j) :
    (m.after (.loadRegisters x)).register j = m.register j := by
  have hout : ¬(j.val < x.val + 1 ∧ m.index.toNat + j.val < memorySize) := fun hin =>
    Nat.not_lt.2 (Nat.le_of_lt_succ hin.1) h
  show (m.registers.overwrite _).read j = m.registers.read j
  rw [Registers.read_overwrite, Memory.getElem?_load, if_neg hout]
  rfl

theorem register_waitKey (h : m.waitEnds = true → x ≠ j) :
    (m.after (.waitKey x)).register j = m.register j := by
  show (m.registersAfter (.waitKey x)).read j = m.registers.read j
  simp only [registersAfter]
  unfold waitEnds at h
  cases hw : m.keyWait with
  | idle => rfl
  | awaiting key =>
    simp only [hw, Bool.not_eq_true'] at h ⊢
    split
    · rfl
    · next hk => exact m.registers.read_write_of_ne (h (Bool.eq_false_iff.2 hk)) _

end

/-! ## One instruction -/

section

variable {m : Machine} {i : Instruction} (ok : m.status = .ok) (hu : m.upcoming? = some i)
include ok hu

theorem executesOne_iff {patterns : List Pattern} :
    m.ExecutesOne patterns ↔ patterns.any (·.fits i.digits) = true := by
  unfold ExecutesOne
  simp only [executes_iff ok hu, List.any_eq_true]

theorem screen_after (h : ¬m.Touches .pixels) : (m.after i).display.screen = m.display.screen := by
  cases i with
  | clearScreen => exact absurd ((executesOne_iff ok hu).2 rfl) h
  | draw x y n => exact absurd ((executesOne_iff ok hu).2 rfl) h
  | _ => rfl

theorem calls_after (h : ¬m.Touches .calls) : (m.after i).stack = m.stack := by
  rw [after]
  cases i with
  | call nnn => exact absurd ((executesOne_iff ok hu).2 rfl) h
  | returnFromCall => exact absurd ((executesOne_iff ok hu).2 rfl) h
  | _ => rfl

theorem memory_after (h : ¬m.Touches .memory) : (m.after i).memory = m.memory := by
  rw [after]
  cases i with
  | storeDecimal x => exact absurd ((executesOne_iff ok hu).2 rfl) h
  | storeRegisters x => exact absurd ((executesOne_iff ok hu).2 rfl) h
  | _ => rfl

theorem keyWait_after (h : ¬m.Touches .keyWait) : (m.after i).keyWait = m.keyWait := by
  rw [after]
  cases i with
  | waitKey x => exact absurd ((executes_iff ok hu).2 rfl) h
  | _ => rfl

theorem generator_after (h : ¬m.Touches .generator) : (m.after i).generator = m.generator := by
  rw [after]
  cases i with
  | random x nn => exact absurd ((executes_iff ok hu).2 rfl) h
  | _ => rfl

theorem delay_after (h : ¬m.Touches .delay) : (m.after i).timers.delay = m.timers.delay := by
  refine delay_timersAfter ?_
  rintro x rfl
  exact h ((executes_iff ok hu).2 rfl)

theorem sound_after (h : ¬m.Touches .sound) :
    (m.after i).timers.sound = m.timers.sound ∧ (m.after i).timers.tone = m.timers.tone := by
  have htimers : (m.after i).timers = { m.timers with delay := (m.after i).timers.delay } := by
    refine timersAfter_eq ?_ ?_
    · rintro x rfl
      exact h ((executesOne_iff ok hu).2 rfl)
    · rintro x rfl
      exact h ((executesOne_iff ok hu).2 rfl)
  rw [htimers]
  exact ⟨rfl, rfl⟩

theorem index_after (h : ¬m.Touches .index) : (m.after i).index = m.index := by
  obtain ⟨hone, hrest⟩ := not_or.1 h
  obtain ⟨hglyph, htransfer⟩ := not_or.1 hrest
  cases i with
  | setIndex nnn => exact absurd ((executesOne_iff ok hu).2 rfl) hone
  | addIndex x => exact absurd ((executesOne_iff ok hu).2 rfl) hone
  | fontGlyph x =>
    have hlarge : ¬m.register x < 16 := fun hlt =>
      hglyph ⟨(executes_iff ok hu).2 rfl, by rwa [currentX_eq hu rfl]⟩
    show (m.pointToGlyph x).index = m.index
    rw [pointToGlyph, if_neg hlarge]
  | storeRegisters x =>
    refine indexAfterTransfer_eq fun hfits => htransfer ⟨(executesOne_iff ok hu).2 rfl, ?_⟩
    rwa [currentX_eq hu rfl]
  | loadRegisters x =>
    refine indexAfterTransfer_eq fun hfits => htransfer ⟨(executesOne_iff ok hu).2 rfl, ?_⟩
    rwa [currentX_eq hu rfl]
  | _ => rfl

theorem register_after {j : Register} (h : ¬m.Touches (.register j)) : (m.after i).register j = m.register j := by
  obtain ⟨hx, hrest⟩ := not_or.1 h
  obtain ⟨hkey, hrest⟩ := not_or.1 hrest
  obtain ⟨hload, hflag⟩ := not_or.1 hrest
  cases i with
  | setByte x nn | addByte x nn | random x nn | readDelay x =>
    have hne : x ≠ j := fun hxj => hx ⟨(executesOne_iff ok hu).2 rfl, (currentX_eq hu rfl).trans hxj⟩
    exact m.registers.read_write_of_ne hne _
  | combine op x y =>
    refine register_combine (fun hxj => hx ⟨?_, (currentX_eq hu rfl).trans hxj⟩) fun flag hset hj => ?_
    · cases op <;> exact (executesOne_iff ok hu).2 rfl
    · cases op with
      | copy | or | and | xor => exact nomatch hset
      | _ => exact hflag ⟨(executesOne_iff ok hu).2 rfl, hj.symm⟩
  | draw x y n =>
    show (m.registersAfter (.draw x y n)).read j = m.registers.read j
    simp only [registersAfter]
    split
    · rfl
    · exact m.registers.read_write_of_ne (fun hj => hflag ⟨(executesOne_iff ok hu).2 rfl, hj.symm⟩) _
  | waitKey x =>
    exact register_waitKey fun hends hxj => hkey ⟨(executes_iff ok hu).2 rfl, hends, (currentX_eq hu rfl).trans hxj⟩
  | loadRegisters x =>
    refine register_loadRegisters (Fin.not_le.1 fun hle => hload ⟨(executes_iff ok hu).2 rfl, ?_⟩)
    rwa [currentX_eq hu rfl]
  | _ => rfl

/-- **An instruction leaves a component that it does not touch.** -/
theorem sharesWith_after {c : Component} (h : ¬m.Touches c) : (m.after i).SharesWith m c := by
  cases c with
  | pixels => exact screen_after ok hu h
  | index => exact index_after ok hu h
  | calls => exact calls_after ok hu h
  | register j => exact register_after ok hu h
  | memory => exact memory_after ok hu h
  | delay => exact delay_after ok hu h
  | sound => exact sound_after ok hu h
  | keyWait => exact keyWait_after ok hu h
  | generator => exact generator_after ok hu h
  | keypad => rfl
  | config => rfl

end

/-! ## One operation -/

theorem sharesWith_halted (m : Machine) (fault : Fault) (c : Component) :
    SharesWith { m with status := .halted fault } m c := by
  cases c with
  | sound => exact ⟨rfl, rfl⟩
  | _ => rfl

/-- **A step leaves a component that its instruction does not touch**, as the timers left it. -/
theorem sharesWith_step {m : Machine} (ok : m.status = .ok) (ticks : Nat) {c : Component} (h : ¬m.Touches c) :
    (m.step ticks).SharesWith (m.elapse ticks) c := by
  rw [step_eq, if_pos ok]
  cases hu : m.upcoming? with
  | none => exact sharesWith_halted (m.elapse ticks) m.missingFault c
  -- nothing that `Touches` asks for is different when the timers have run down
  | some i => exact sharesWith_after (m := m.elapse ticks) ok hu (c := c) h

/-- **Every instruction touches its own components only.**  Where a step of a machine that runs leaves a component other
than it was when the timers had run down, it executed an instruction that the component is for, be it that the step ended
well or stopped the machine.  Putting a key down and letting it up change nothing but the keypad, and asking whether the
screen was drawn on changes nothing but the mark for that. -/
theorem touches_of_change (m : Machine) :
    (m.status = .ok → ∀ ticks c, ¬(m.step ticks).SharesWith (m.elapse ticks) c → m.Touches c) ∧
    (∀ key, m.perform (.keyDown key) = { m with keypad := m.keypad.press key }) ∧
    (∀ key, m.perform (.keyUp key) = { m with keypad := m.keypad.release key }) ∧
    m.perform .takeDirty = { m with display := { m.display with dirty := false } } := by
  refine ⟨fun ok ticks c hchange => ?_, fun _ => rfl, fun _ => rfl, rfl⟩
  by_contra h
  exact hchange (sharesWith_step ok ticks h)

/-- A machine that is to draw two rows, the second of which lies behind the end of memory. -/
def overdrawing : Machine :=
  (build {} (Vector.replicate 8 0)).run
    (.load [0x60, 0xFF, 0xAF, 0xFF, 0xF0, 0x55, 0xAF, 0xFF, 0xD1, 0x22] :: List.replicate 4 (.step 0))

/-- It stops with the first row drawn, which the word at the program counter accounts for, and with its index as it
was. -/
theorem touches_of_change_overdrawing :
    (overdrawing.step 9).status = .halted (.outOfBounds 0x1000) ∧
    ¬(overdrawing.step 9).SharesWith (overdrawing.elapse 9) .pixels ∧ overdrawing.Touches .pixels ∧
    ¬overdrawing.Touches .index ∧ (overdrawing.step 9).SharesWith (overdrawing.elapse 9) .index := by
  have hruns : overdrawing.status = .ok ∧ (overdrawing.step 9).status = .halted (.outOfBounds 0x1000) ∧
      ¬(overdrawing.step 9).SharesWith (overdrawing.elapse 9) .pixels ∧ ¬overdrawing.Touches .index := by
    decide +kernel
  obtain ⟨ok, hstops, hdrawn, hindex⟩ := hruns
  have htouches := (touches_of_change overdrawing).1 ok 9
  exact ⟨hstops, hdrawn, htouches .pixels hdrawn, hindex, not_not.1 (mt (htouches .index) hindex)⟩

end Machine

end Chip8
