import Mathlib
import Chip8.Proofs.Execution
/-!
# Invariant — the bounds that every history keeps

The bounds hold each other up.  A call is only made from an address that a word could be read at, so a return address
has a word behind it (`callers`); going on stays in memory, so only a jump with an offset leaves it, and that one by at
most a byte (`pc`); and a call is refused when every place is taken (`depth`).  Every reachable machine keeps all three
(`Reachable.wellFormed`), and one whose program counter is past memory got there by a jump with an offset
(`pc_past_memory`).
-/
namespace Chip8

theorem movedPc_le {pc : UInt16} {bound : Nat} (hpc : pc.toNat ≤ bound) (hb : 0xFFF ≤ bound) (distance : Nat) :
    (movedPc pc distance).toNat ≤ bound := by
  unfold movedPc
  split
  · rename_i h
    rw [UInt16.toNat_ofNat_of_lt' (Nat.lt_trans h (by decide))]
    have : pc.toNat + distance < 4096 := h
    omega
  · exact hpc

@[simp] theorem Outcome.settled_pc (o : Outcome) : o.settled.pc = o.machine.pc := by
  unfold settled
  cases o.fault <;> rfl

@[simp] theorem Outcome.settled_stack (o : Outcome) : o.settled.stack = o.machine.stack := by
  unfold settled
  cases o.fault <;> rfl

@[simp] theorem Outcome.settled_keyWait (o : Outcome) : o.settled.keyWait = o.machine.keyWait := by
  unfold settled
  cases o.fault <;> rfl

@[simp] theorem Outcome.settled_keypad (o : Outcome) : o.settled.keypad = o.machine.keypad := by
  unfold settled
  cases o.fault <;> rfl

theorem Outcome.settled_status (o : Outcome) : o.settled.status = o.fault.elim o.machine.status .halted := by
  unfold settled
  cases o.fault <;> rfl

namespace Machine

/-- **What a step does to the control of the machine**, if it finds an instruction. -/
theorem controls_step {m : Machine} {i : Instruction} (ok : m.status = .ok) (h : m.upcoming? = some i) (ticks : Nat) :
    (m.step ticks).pc = m.pcAfter i ∧ (m.step ticks).stack = m.stackAfter i ∧
      (m.step ticks).keyWait = m.waitAfter i ∧ (m.step ticks).status = (m.faultOf? i).elim .ok .halted := by
  have hc := controls_execute (m.elapse ticks) i
  rw [step_of_upcoming? ok h, Outcome.settled_pc, Outcome.settled_stack, Outcome.settled_keyWait,
    Outcome.settled_status, hc.pc, hc.stack, hc.keyWait, hc.fault, hc.status, ← ok]
  exact ⟨rfl, rfl, rfl, rfl⟩

section

variable {m : Machine} {i : Instruction} (ok : m.status = .ok) (h : m.upcoming? = some i) (ticks : Nat)
include ok h

theorem ok_step_iff : (m.step ticks).status = .ok ↔ m.faultOf? i = none := by
  rw [(controls_step ok h ticks).2.2.2]
  cases m.faultOf? i with
  | none => exact iff_of_true rfl rfl
  | some fault => exact iff_of_false nofun nofun

theorem halted_step_iff {fault : Fault} : (m.step ticks).status = .halted fault ↔ m.faultOf? i = some fault := by
  rw [(controls_step ok h ticks).2.2.2]
  cases m.faultOf? i with
  | none => exact iff_of_false nofun nofun
  | some f => exact ⟨fun hs => congrArg some (Status.halted.inj hs), fun hf => congrArg _ (Option.some.inj hf)⟩

end

/-- The bounds of a machine's program counter and of its stack. -/
structure WellFormed (m : Machine) : Prop where
  /-- there is a place for every call that is open -/
  depth : m.stack.length ≤ stackLimit
  /-- a whole word stands at every return address -/
  callers : ∀ caller ∈ m.stack, caller.toNat ≤ 0xFFE
  /-- a jump with an offset goes at most a byte further than an address -/
  pc : m.pc.toNat ≤ 0x10FE

theorem wellFormed_initial (config : Config) (generator : Random.Generator) :
    (initial config generator).WellFormed where
  depth := Nat.zero_le _
  callers := nofun
  pc := Nat.zero_le _

/-- **An instruction that is no jump with an offset keeps the program counter in memory.** -/
theorem pcAfter_lt {m : Machine} (wf : m.WellFormed) (hpc : m.pc.toNat ≤ 0xFFE) {i : Instruction}
    (hi : ∀ nnn, i ≠ .jumpOffset nnn) : (m.pcAfter i).toNat ≤ 0xFFF := by
  have hmoved : ∀ distance, (movedPc m.pc distance).toNat ≤ 0xFFF := movedPc_le (by omega) (by omega)
  have haddress : ∀ nnn : Address, (UInt16.ofNat nnn.val).toNat ≤ 0xFFF := fun nnn => by
    rw [UInt16.toNat_ofNat_of_lt' (Nat.lt_trans nnn.isLt (by decide))]
    have : nnn.val < 4096 := nnn.isLt
    omega
  have hblock : ∀ (n distance : Nat),
      (if (blockFault? m.index n).isSome then m.pc else movedPc m.pc distance).toNat ≤ 0xFFF := fun n distance => by
    split
    · omega
    · exact hmoved distance
  cases i with
  | machineRoutine nnn => exact Nat.le_succ_of_le hpc
  | jump nnn => exact haddress nnn
  | jumpOffset nnn => exact absurd rfl (hi nnn)
  | call nnn =>
    rw [pcAfter_call]
    split
    · exact haddress nnn
    · omega
  | returnFromCall =>
    rw [pcAfter_returnFromCall]
    cases hs : m.stack with
    | nil => exact Nat.le_succ_of_le hpc
    | cons caller stack =>
      have hc : caller.toNat ≤ 0xFFE := wf.callers caller (by rw [hs]; exact List.mem_cons_self)
      exact movedPc_le (by omega) (by omega) 2
  | waitKey x =>
    rw [pcAfter_waitKey]
    split
    · exact hmoved 2
    · omega
  | _ => exact hblock _ _

theorem pcAfter_le {m : Machine} (wf : m.WellFormed) (hpc : m.pc.toNat ≤ 0xFFE) (i : Instruction) :
    (m.pcAfter i).toNat ≤ 0x10FE := by
  by_cases hi : ∃ nnn, i = .jumpOffset nnn
  · obtain ⟨nnn, rfl⟩ := hi
    have hn : nnn.val < 4096 := nnn.isLt
    have hv : (m.register .offset).toNat < 256 := UInt8.toNat_lt _
    rw [pcAfter_jumpOffset,
      UInt16.toNat_ofNat_of_lt' (show nnn.val + (m.register .offset).toNat < 65536 by omega)]
    omega
  · have := pcAfter_lt wf hpc (fun nnn h => hi ⟨nnn, h⟩)
    omega

theorem length_stackAfter_le {m : Machine} (wf : m.WellFormed) (i : Instruction) :
    (m.stackAfter i).length ≤ stackLimit := by
  have hd := wf.depth
  cases i with
  | call nnn =>
    rw [stackAfter_call]
    split
    · rw [List.length_cons]; omega
    · exact hd
  | returnFromCall =>
    rw [stackAfter_returnFromCall, List.length_tail]
    omega
  | _ => exact hd

theorem callers_stackAfter {m : Machine} (wf : m.WellFormed) (hpc : m.pc.toNat ≤ 0xFFE) (i : Instruction) :
    ∀ caller ∈ m.stackAfter i, caller.toNat ≤ 0xFFE := by
  cases i with
  | call nnn =>
    rw [stackAfter_call]
    split
    · exact List.forall_mem_cons.2 ⟨hpc, wf.callers⟩
    · exact wf.callers
  | returnFromCall => exact fun caller hc => wf.callers caller (List.mem_of_mem_tail hc)
  | _ => exact wf.callers

theorem wellFormed_settled {m : Machine} (wf : m.WellFormed) (hpc : m.pc.toNat ≤ 0xFFE) (i : Instruction) :
    (m.execute i).settled.WellFormed := by
  have hc := controls_execute m i
  constructor
  · rw [Outcome.settled_stack, hc.stack]
    exact length_stackAfter_le wf i
  · rw [Outcome.settled_stack, hc.stack]
    exact callers_stackAfter wf hpc i
  · rw [Outcome.settled_pc, hc.pc]
    exact pcAfter_le wf hpc i

theorem wellFormed_elapse {m : Machine} (wf : m.WellFormed) (ticks : Nat) : (m.elapse ticks).WellFormed :=
  { wf with }

theorem wellFormed_halt {m : Machine} (wf : m.WellFormed) (fault : Fault) : (m.halt fault).machine.WellFormed :=
  { wf with }

/-- **A step keeps the bounds.** -/
theorem wellFormed_step {m : Machine} (wf : m.WellFormed) (ticks : Nat) : (m.step ticks).WellFormed := by
  unfold step
  by_cases ok : m.status = .ok
  · rcases stepTraced_of_ok ok ticks with ⟨-, h⟩ | ⟨-, -, h⟩ | ⟨hpc, i, -, h⟩
    · rw [h]; exact wellFormed_halt (wellFormed_elapse wf ticks) _
    · rw [h]; exact wellFormed_halt (wellFormed_elapse wf ticks) _
    · rw [h]; exact wellFormed_settled (wellFormed_elapse wf ticks) hpc i
  · rw [stepTraced_of_not_ok ok]
    exact wf

theorem pc_load (m : Machine) (program : List UInt8) : (m.load program).pc = UInt16.ofNat programStart := by
  rw [load_eq]

theorem wellFormed_load (m : Machine) (program : List UInt8) : (m.load program).WellFormed := by
  have hs : (m.load program).stack = [] := by rw [load_eq]; rfl
  constructor
  · rw [hs]; exact Nat.zero_le _
  · rw [hs]; exact nofun
  · rw [pc_load]; decide

theorem wellFormed_perform (m : Machine) (o : Operation) (wf : m.WellFormed) : (m.perform o).WellFormed := by
  cases o with
  | load program => exact wellFormed_load m program
  | step ticks => exact wellFormed_step wf ticks
  | keyDown key => exact { wf with }
  | keyUp key => exact { wf with }
  | takeDirty => exact { wf with }

/-- **Every reachable machine keeps the bounds.** -/
theorem Reachable.wellFormed {m : Machine} (h : m.Reachable) : m.WellFormed :=
  h.induction (fun _ _ => wellFormed_initial _ _) wellFormed_perform

/-! ## Past the end of memory -/

theorem executed?_haltEvents (o : Outcome) : o.haltEvents.filterMap Event.executed? = [] := by
  unfold Outcome.haltEvents
  cases o.fault <;> rfl

/-- **A step that leaves the program counter past memory found it there or jumped with an offset.** -/
theorem pc_past_memory_step {m : Machine} (wf : m.WellFormed) (ticks : Nat)
    (h : 0x1000 ≤ (m.step ticks).pc.toNat) :
    (0x1000 ≤ m.pc.toNat ∧ lastExecuted? (m.stepTraced ticks).events = none) ∨
      ∃ nnn, lastExecuted? (m.stepTraced ticks).events = some (.jumpOffset nnn) := by
  unfold step at h
  by_cases ok : m.status = .ok
  · rcases stepTraced_of_ok ok ticks with ⟨-, hs⟩ | ⟨-, -, hs⟩ | ⟨hpc, i, -, hs⟩
    · rw [hs] at h ⊢; exact Or.inl ⟨h, rfl⟩
    · rw [hs] at h ⊢; exact Or.inl ⟨h, rfl⟩
    · right
      rw [hs] at h ⊢
      have hpc' : ((m.elapse ticks).execute i).settled.pc = (m.elapse ticks).pcAfter i := by
        rw [Outcome.settled_pc, (controls_execute _ i).pc]
      obtain ⟨nnn, rfl⟩ : ∃ nnn, i = .jumpOffset nnn := by
        by_contra hi
        have := pcAfter_lt (wellFormed_elapse wf ticks) hpc (fun nnn hn => hi ⟨nnn, hn⟩)
        simp only [hpc'] at h
        omega
      exact ⟨nnn, lastExecuted?_executing _ _ _ (executed?_haltEvents _)⟩
  · rw [stepTraced_of_not_ok ok] at h ⊢
    exact Or.inl ⟨h, rfl⟩

/-- **The program counter is past memory only where the last instruction executed was a jump with an offset.** -/
theorem pc_past_memory {m : Machine} (wf : m.WellFormed) (hpc : m.pc.toNat < 0x1000) (history : List Operation)
    (h : 0x1000 ≤ (m.run history).pc.toNat) : ∃ nnn, lastExecuted? (m.trace history) = some (.jumpOffset nnn) := by
  induction history using List.reverseRecOn with
  | nil => exact absurd h (Nat.not_le.2 hpc)
  | append_singleton history o ih =>
    have hwf : (m.run history).WellFormed := run_induction wellFormed_perform wf history
    rw [run_append] at h
    have htrace : lastExecuted? (m.trace (history ++ [o])) =
        (lastExecuted? ((m.run history).performTraced o).events).or (lastExecuted? (m.trace history)) := by
      rw [trace_append, lastExecuted?_append, trace_singleton]
    rw [htrace]
    cases o with
    | load program =>
      rw [run_cons, run_nil, perform_load, pc_load] at h
      exact absurd h (by decide)
    | step ticks =>
      rcases pc_past_memory_step hwf ticks h with ⟨hp, hl⟩ | ⟨nnn, hl⟩
      · obtain ⟨nnn, hn⟩ := ih hp
        exact ⟨nnn, by rw [performTraced_step, hl, hn]; rfl⟩
      · exact ⟨nnn, by rw [performTraced_step, hl]; rfl⟩
    | keyDown key => exact ih h
    | keyUp key => exact ih h
    | takeDirty => exact ih h

end Machine

end Chip8
