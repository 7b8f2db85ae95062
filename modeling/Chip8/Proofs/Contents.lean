import Mathlib
import Chip8.Proofs.Timers
/-!
# Contents — what a step leaves in registers, memory and on the screen

What an instruction does to the control of a machine and to its timers is told elsewhere.  Here is the rest of it: what
stands in the registers, the index and memory behind it, what is on the screen, and how far the random numbers have come
(`contents_execute`), whether it meets a fault or not.  With that an instruction is known in full, and a step with it:
every component of the machine behind it is a function of the machine before (`step_eq`).
-/
namespace Chip8

/-- What a block transfer of `n` bytes leaves in the index. -/
def IndexAfterTransfer.pass (t : IndexAfterTransfer) (index : UInt16) (n : Nat) : UInt16 :=
  match t with
  | .advanced => UInt16.ofNat (index.toNat + n)
  | .restored => index

namespace Machine

/-! ## The contents behind an instruction, by its name -/

def registersAfter (m : Machine) : Instruction → Registers
  | .setByte x nn => m.registers.write x nn
  | .addByte x nn => m.registers.write x (m.register x + nn)
  | .combine op x y => (m.combine op x y).registers
  | .random x nn => m.registers.write x (m.generator.next.1.toUInt8 &&& nn)
  | .draw x y n =>
    if (blockFault? m.index (m.visibleRows y n)).isSome then m.registers
    else m.registers.write .flag (m.display.screen.meets (m.spriteMask x y n)).toUInt8
  | .readDelay x => m.registers.write x m.timers.delay
  | .waitKey x =>
    match m.keyWait with
    | .idle => m.registers
    | .awaiting key => if m.keypad.holds key then m.registers else m.registers.write x (UInt8.ofNat key.val)
  | .loadRegisters x => m.registers.overwrite (m.memory.load m.index.toNat (x.val + 1))
  | _ => m.registers

/-- The index behind a transfer of `n` bytes, which passes the block only if all of it lies in memory. -/
def indexAfterTransfer (m : Machine) (n : Nat) : UInt16 :=
  if (blockFault? m.index n).isSome then m.index else m.config.dialect.transfer.pass m.index n

def indexAfter (m : Machine) : Instruction → UInt16
  | .setIndex nnn => UInt16.ofNat nnn.val
  | .addIndex x => m.index + (m.register x).toUInt16
  | .fontGlyph x => (m.pointToGlyph x).index
  | .storeRegisters x => m.indexAfterTransfer (x.val + 1)
  | .loadRegisters x => m.indexAfterTransfer (x.val + 1)
  | _ => m.index

def memoryAfter (m : Machine) : Instruction → Memory
  | .storeDecimal x => m.memory.store m.index.toNat (decimalDigits (m.register x))
  | .storeRegisters x => m.memory.store m.index.toNat (m.registers.upTo x)
  | _ => m.memory

def displayAfter (m : Machine) : Instruction → Display
  | .clearScreen => m.display.clear
  | .draw x y n => m.display.draw (m.spriteMask x y n)
  | _ => m.display

def generatorAfter (m : Machine) : Instruction → Random.Generator
  | .random _ _ => m.generator.next.2
  | _ => m.generator

/-- An outcome whose machine has these contents. -/
structure Contents (o : Outcome) (registers : Registers) (index : UInt16) (memory : Memory) (display : Display)
    (generator : Random.Generator) : Prop where
  registers : o.machine.registers = registers := by rfl
  index : o.machine.index = index := by rfl
  memory : o.machine.memory = memory := by rfl
  display : o.machine.display = display := by rfl
  generator : o.machine.generator = generator := by rfl

/-! ## What an instruction does to the contents -/

theorem contents_advance (m : Machine) (distance : Nat) :
    Contents (m.advance distance) m.registers m.index m.memory m.display m.generator := by
  rw [advance_eq]
  exact {}

theorem contents_next (m : Machine) : Contents m.next m.registers m.index m.memory m.display m.generator :=
  contents_advance m 2

theorem passBlock_eq_pass (m : Machine) (n : Nat) :
    m.passBlock n = { m with index := m.config.dialect.transfer.pass m.index n } := by
  unfold passBlock IndexAfterTransfer.pass
  cases m.config.dialect.transfer <;> rfl

theorem contents_afterTransfer (m : Machine) (x : Register) :
    Contents (m.afterTransfer x) m.registers (m.indexAfterTransfer (x.val + 1)) m.memory m.display m.generator := by
  unfold afterTransfer indexAfterTransfer
  rw [ifBlockFits_eq]
  cases blockFault? m.index (x.val + 1) with
  | some fault => exact {}
  | none =>
    simp only [passBlock_eq_pass]
    exact contents_next _

theorem contents_draw (m : Machine) (x y : Register) (n : Nibble) :
    Contents (m.draw x y n) (m.registersAfter (.draw x y n)) m.index m.memory (m.displayAfter (.draw x y n))
      m.generator := by
  rw [draw_eq, ifBlockFits_eq]
  simp only [registersAfter, displayAfter]
  cases blockFault? m.index (m.visibleRows y n) with
  | some fault => exact {}
  | none => exact contents_next _

theorem contents_waitKey (m : Machine) (x : Register) :
    Contents (m.waitKey x) (m.registersAfter (.waitKey x)) m.index m.memory m.display m.generator := by
  unfold registersAfter
  cases hw : m.keyWait with
  | idle =>
    cases hd : m.keypad.firstDown? with
    | none => rw [waitKey_of_none_down hw hd]; exact {}
    | some key => rw [waitKey_of_down hw hd]; exact {}
  | awaiting key =>
    cases hk : m.keypad.holds key with
    | true =>
      rw [waitKey_of_held hw hk]
      exact { registers := (if_pos hk).symm }
    | false =>
      rw [waitKey_of_released hw hk]
      simp only [hk, Bool.false_eq_true, ↓reduceIte]
      exact contents_next _

/-- **What an instruction leaves in registers, index, memory, on the screen and of the random numbers**, whether it
meets a fault or not. -/
theorem contents_execute (m : Machine) (i : Instruction) :
    Contents (m.execute i) (m.registersAfter i) (m.indexAfter i) (m.memoryAfter i) (m.displayAfter i)
      (m.generatorAfter i) := by
  cases i with
  | machineRoutine nnn => exact {}
  | returnFromCall =>
    show Contents m.returnFromCall m.registers m.index m.memory m.display m.generator
    unfold returnFromCall
    cases m.stack with
    | nil => exact {}
    | cons caller stack => exact contents_next _
  | jump nnn => exact {}
  | call nnn =>
    show Contents (m.call nnn) m.registers m.index m.memory m.display m.generator
    unfold call
    split <;> exact {}
  | jumpOffset nnn => exact {}
  | skip condition => exact contents_advance _ _
  | combine op x y =>
    obtain ⟨registers, h⟩ := combine_eq m op x y
    show Contents (m.combine op x y).next (m.combine op x y).registers m.index m.memory m.display m.generator
    rw [h]
    exact contents_next _
  | draw x y n => exact contents_draw m x y n
  | waitKey x => exact contents_waitKey m x
  | fontGlyph x =>
    obtain ⟨index, h⟩ := pointToGlyph_eq m x
    show Contents (m.pointToGlyph x).next m.registers (m.pointToGlyph x).index m.memory m.display m.generator
    rw [h]
    exact contents_next _
  | storeDecimal x =>
    show Contents ((m.storeAtIndex (decimalDigits (m.register x))).ifBlockFits 3 next) m.registers m.index
      (m.memoryAfter (.storeDecimal x)) m.display m.generator
    rw [ifBlockFits_eq]
    cases blockFault? (m.storeAtIndex (decimalDigits (m.register x))).index 3 with
    | some fault => exact {}
    | none => exact contents_next _
  | storeRegisters x => exact contents_afterTransfer (m.storeAtIndex (m.registers.upTo x)) x
  | loadRegisters x => exact contents_afterTransfer (m.loadFromIndex (x.val + 1)) x
  | _ => exact contents_next _

/-! ## A step in full -/

/-- The machine behind an instruction, stopped if that met a fault. -/
def after (m : Machine) (i : Instruction) : Machine where
  config := m.config
  registers := m.registersAfter i
  index := m.indexAfter i
  pc := m.pcAfter i
  stack := m.stackAfter i
  timers := m.timersAfter i
  memory := m.memoryAfter i
  display := m.displayAfter i
  keypad := m.keypad
  keyWait := m.waitAfter i
  status := (m.faultOf? i).elim m.status .halted
  generator := m.generatorAfter i

theorem settled_execute (m : Machine) (i : Instruction) : (m.execute i).settled = m.after i := by
  obtain ⟨hset, hfault, hpc, hstack, hwait⟩ := controls_execute m i
  obtain ⟨hregisters, hindex, hmemory, hdisplay, hgenerator⟩ := contents_execute m i
  have htimers := timers_execute m i
  unfold Outcome.settled after
  rw [← hfault, ← hset.status, ← hset.config, ← hset.keypad, ← hpc, ← hstack, ← hwait, ← htimers, ← hregisters,
    ← hindex, ← hmemory, ← hdisplay, ← hgenerator]
  cases (m.execute i).fault <;> rfl

/-- **A step in full**: nothing on a machine that does not run; on one that does, the ticks, and then a halt if there
is no instruction, or the instruction that there is. -/
theorem step_eq (m : Machine) (ticks : Nat) :
    m.step ticks =
      if m.status = .ok then
        m.upcoming?.elim { m.elapse ticks with status := .halted m.missingFault } (m.elapse ticks).after
      else m := by
  by_cases ok : m.status = .ok
  · rw [if_pos ok]
    cases hu : m.upcoming? with
    | none => exact step_of_missing ok hu ticks
    | some i => exact (step_of_upcoming? ok hu ticks).trans (settled_execute _ i)
  · rw [if_neg ok]
    exact step_of_not_ok ok ticks

theorem step_eq_after {m : Machine} {i : Instruction} (ok : m.status = .ok) (hu : m.upcoming? = some i) (ticks : Nat) :
    m.step ticks = (m.elapse ticks).after i := by
  rw [step_eq, if_pos ok, hu, Option.elim_some]

/-- A step leaves a machine that runs running, or stops it. -/
theorem status_step_of_ok {m : Machine} (ok : m.status = .ok) (ticks : Nat) :
    (m.step ticks).status = .ok ∨ ∃ fault, (m.step ticks).status = .halted fault := by
  rw [step_eq, if_pos ok]
  cases m.upcoming? with
  | none => exact Or.inr ⟨_, rfl⟩
  | some i =>
    show ((m.elapse ticks).faultOf? i).elim m.status .halted = .ok ∨
      ∃ fault, ((m.elapse ticks).faultOf? i).elim m.status .halted = .halted fault
    cases (m.elapse ticks).faultOf? i with
    | none => exact Or.inl ok
    | some fault => exact Or.inr ⟨fault, rfl⟩

/-! ## What a machine was built with -/

theorem config_perform (m : Machine) (o : Operation) : (m.perform o).config = m.config := by
  cases o with
  | load program =>
    rw [perform_load, load_eq]
    rfl
  | step ticks =>
    rw [perform_step, step_eq]
    split
    · cases m.upcoming? <;> rfl
    · rfl
  | _ => rfl

/-- **No operation changes what a machine was built with.** -/
theorem config_run (m : Machine) (history : List Operation) : (m.run history).config = m.config :=
  run_induction (P := fun n => n.config = m.config) (fun n o h => (config_perform n o).trans h) rfl history

/-- A machine with a seed does not depend on the entropy that it is built with. -/
theorem build_of_seed {config : Config} {entropy₁ entropy₂ : Random.Key}
    (hseed : config.seed.isSome ∨ entropy₁ = entropy₂) : build config entropy₂ = build config entropy₁ := by
  rcases hseed with hseed | rfl
  · obtain ⟨s, hs⟩ := Option.isSome_iff_exists.1 hseed
    rw [build, build, Config.generator_of_seed hs, Config.generator_of_seed hs]
  · rfl

end Machine

end Chip8
