import Mathlib
import Chip8.Proofs.Lifecycle
/-!
# Records — what is written down of a machine follows what it does

Every event of a machine becomes a record: how much it matters, and a text.  A step writes down the word that it is
about to execute, if it finds one, and behind it the fault that it stops with, if it does; a load writes down that it
resets the machine, and then the size of the program or that it is too big.  Nothing else writes anything, and neither
does a step of a machine that does not run.

So the records of words, read one after the other, are the words that were executed (`traces_of_history`), and from one
load to the next there is one warning at most, with nothing behind it (`records_of_history`).
-/
namespace Chip8

/-- What is written down of an event. -/
structure Record where
  level : Level
  text : String
  deriving DecidableEq, Repr

namespace Record

/-- The record of a word that is executed: its address, the word, and the instruction that it is. -/
def ofWord (pc word : UInt16) : Record where
  level := .trace
  text := "0x" ++ Text.hex 4 pc.toNat ++ ": 0x" ++ Text.hex 4 word.toNat ++ " " ++
    (Instruction.decode? word).elim "" Instruction.text

/-- The record of a machine that stops: where, and why. -/
def ofHalt (pc : UInt16) (fault : Fault) : Record where
  level := .warn
  text := "Halted at 0x" ++ Text.hex 4 pc.toNat ++ ": " ++ fault.message

end Record

def Event.record (e : Event) : Record where
  level := e.level
  text := e.message

theorem Event.record_executing {word : UInt16} {i : Instruction} (h : Instruction.decode? word = some i)
    (pc : UInt16) : (Event.executing pc word i).record = .ofWord pc word := by
  unfold Record.ofWord
  rw [h]
  rfl

theorem Outcome.haltEvents_eq {o : Outcome} (ok : o.machine.status = .ok) :
    o.haltEvents = o.settled.status.fault?.toList.map (.halted o.settled.pc) := by
  rw [settled_status, settled_pc]
  unfold haltEvents
  cases o.fault with
  | none =>
    rw [Option.elim_none, ok]
    rfl
  | some fault => rfl

namespace Machine

/-- The records of a history, one after the other. -/
def records (m : Machine) (history : List Operation) : List Record :=
  (m.trace history).map Event.record

/-- The word that an operation executes, with its address: a step does if the machine runs, and a whole word stands at
its program counter and is an instruction. -/
def executed? (m : Machine) : Operation → Option (UInt16 × UInt16)
  | .step _ =>
    if m.status = .ok ∧ m.pc.toNat + 1 < 4096 ∧ (Instruction.decode? m.currentWord).isSome then
      some (m.pc, m.currentWord)
    else none
  | _ => none

/-- The words that a history executes, with their addresses. -/
def executed (m : Machine) : List Operation → List (UInt16 × UInt16)
  | [] => []
  | o :: history => (m.executed? o).toList ++ (m.perform o).executed history

/-! ## One operation -/

theorem records_append (m : Machine) (h₁ h₂ : List Operation) :
    m.records (h₁ ++ h₂) = m.records h₁ ++ (m.run h₁).records h₂ := by
  unfold records
  rw [trace_append, List.map_append]

theorem records_singleton (m : Machine) (o : Operation) :
    m.records [o] = (m.performTraced o).events.map Event.record := by
  unfold records
  rw [trace_singleton]

theorem records_concat (m : Machine) (history : List Operation) (o : Operation) :
    m.records (history ++ [o]) = m.records history ++ (m.run history).records [o] :=
  records_append m history [o]

theorem records_step_of_not_ok {m : Machine} (h : m.status ≠ .ok) (ticks : Nat) : m.records [.step ticks] = [] := by
  rw [records_singleton, performTraced_step, stepTraced_of_not_ok h]
  rfl

/-- **What a step of a machine that runs writes down**: the word that it executes, and then the fault that it stops
with. -/
theorem records_step {m : Machine} (ok : m.status = .ok) (ticks : Nat) :
    m.records [.step ticks] =
      ((m.executed? (.step ticks)).toList.map fun e => .ofWord e.1 e.2) ++
        (m.step ticks).status.fault?.toList.map (.ofHalt (m.step ticks).pc) := by
  rw [records_singleton, performTraced_step]
  unfold step executed?
  rcases stepTraced_of_ok ok ticks with ⟨hpc, h⟩ | ⟨hpc, hd, h⟩ | ⟨hpc, i, hd, h⟩
  · rw [h, if_neg fun hex => by omega]
    rfl
  · rw [h, if_neg fun hex => by rw [hd] at hex; exact nomatch hex.2.2]
    rfl
  · have hevents := Outcome.haltEvents_eq (o := (m.elapse ticks).execute i)
      ((controls_execute (m.elapse ticks) i).status.trans ok)
    rw [h, if_pos ⟨ok, by omega, by rw [hd]; rfl⟩]
    simp only [hevents]
    rw [List.map_cons, Event.record_executing hd, List.map_map]
    rfl

/-- **What a load writes down**: the reset, and then the size of the program or that it is too big. -/
theorem records_load (m : Machine) (program : List UInt8) :
    m.records [.load program] =
      [⟨.debug, "Machine reset"⟩,
        if program.length ≤ 3584 then ⟨.debug, s!"Loaded {program.length} byte program"⟩
        else .ofHalt 0 (.programTooBig program.length)] := by
  rw [records_singleton]
  show (m.loadTraced program).events.map Event.record = _
  unfold loadTraced
  by_cases hp : program.length ≤ programCapacity
  · rw [if_pos (show program.length ≤ 3584 from hp)]
    simp only [if_pos hp]
    rfl
  · rw [if_neg (show ¬program.length ≤ 3584 from hp)]
    simp only [if_neg hp]
    rfl

theorem executed?_of_not_ok {m : Machine} (h : m.status ≠ .ok) (o : Operation) : m.executed? o = none := by
  cases o with
  | step ticks => exact if_neg fun hex => h hex.1
  | _ => rfl

/-- The records of words that an operation writes are those of the word that it executes. -/
theorem traces_perform (m : Machine) (o : Operation) :
    (m.records [o]).filter (·.level = .trace) = (m.executed? o).toList.map fun e => .ofWord e.1 e.2 := by
  cases o with
  | load program =>
    rw [records_load]
    split <;> rfl
  | step ticks =>
    by_cases ok : m.status = .ok
    · rw [records_step ok, List.filter_append]
      cases m.executed? (.step ticks) <;> cases (m.step ticks).status.fault? <;> rfl
    · rw [records_step_of_not_ok ok, executed?_of_not_ok ok]
      rfl
  | _ => rfl

/-- An operation that writes a warning leaves a machine that does not run. -/
theorem not_ok_of_warning {m : Machine} {o : Operation} {r : Record} (hr : r ∈ m.records [o])
    (hwarn : r.level = .warn) : (m.perform o).status ≠ .ok := by
  cases o with
  | load program =>
    rw [records_load] at hr
    rw [perform_load, status_load]
    by_cases hp : program.length ≤ 3584
    · rw [if_pos hp, List.mem_pair] at hr
      rcases hr with rfl | rfl <;> exact nomatch hwarn
    · rw [if_neg (show ¬program.length ≤ programCapacity from hp)]
      exact nofun
  | step ticks =>
    by_cases ok : m.status = .ok
    · rw [records_step ok, List.mem_append] at hr
      rw [perform_step]
      intro hok
      rw [hok] at hr
      rcases hr with hr | hr
      · obtain ⟨e, -, rfl⟩ := List.mem_map.1 hr
        exact nomatch hwarn
      · exact List.not_mem_nil hr
    · rw [records_step_of_not_ok ok] at hr
      exact absurd hr List.not_mem_nil
  | _ => exact absurd hr List.not_mem_nil

theorem warnings_perform_le (m : Machine) (o : Operation) : (m.records [o]).countP (·.level = .warn) ≤ 1 := by
  cases o with
  | load program =>
    rw [records_load, List.countP_cons_of_neg (by decide)]
    exact List.countP_le_length
  | step ticks =>
    by_cases ok : m.status = .ok
    · have hwords : ((m.executed? (.step ticks)).toList.map fun e => Record.ofWord e.1 e.2).countP
          (·.level = .warn) = 0 := by
        rw [List.countP_map]
        exact List.countP_eq_zero.2 fun _ _ => nofun
      rw [records_step ok, List.countP_append, hwords, Nat.zero_add]
      refine List.countP_le_length.trans ?_
      rw [List.length_map]
      exact Option.length_toList_le
    · rw [records_step_of_not_ok ok]
      exact Nat.zero_le 1
  | _ => exact Nat.zero_le 1

/-! ## Histories -/

/-- **The records of words are those of the words that were executed**, in their order. -/
theorem traces_of_history (m : Machine) (history : List Operation) :
    (m.records history).filter (·.level = .trace) = (m.executed history).map fun e => .ofWord e.1 e.2 := by
  induction history generalizing m with
  | nil => rfl
  | cons o history ih =>
    rw [← List.singleton_append, records_append, List.filter_append, traces_perform, run_cons, run_nil, ih,
      ← List.map_append]
    rfl

/-- **A machine that does not run writes nothing down** until the next load. -/
theorem records_of_not_ok {m : Machine} (h : m.status ≠ .ok) {history : List Operation}
    (hload : ∀ program, .load program ∉ history) : m.records history = [] := by
  induction history generalizing m with
  | nil => rfl
  | cons o history ih =>
    have hhead : m.records [o] = [] ∧ (m.perform o).status ≠ .ok := by
      cases o with
      | load program => exact absurd List.mem_cons_self (hload program)
      | step ticks => exact ⟨records_step_of_not_ok h ticks, by rwa [perform_step, step_of_not_ok h]⟩
      | _ => exact ⟨rfl, h⟩
    rw [← List.singleton_append, records_append, hhead.1, List.nil_append]
    exact ih hhead.2 fun program hp => hload program (List.mem_cons_of_mem o hp)

section

variable {m : Machine} {o : Operation} {later : List Operation} (hload : ∀ program, .load program ∉ later)
include hload

/-- A warning among the records of a history, of which only the first operation can be a load, is the last word of a
machine that does not run any more. -/
theorem not_ok_of_warnings {r : Record} (hr : r ∈ m.records (o :: later)) (hwarn : r.level = .warn) :
    (m.run (o :: later)).status ≠ .ok := by
  induction later using List.reverseRecOn with
  | nil => exact not_ok_of_warning hr hwarn
  | append_singleton later last ih =>
    simp only [List.mem_append, List.mem_singleton, not_or] at hload
    rw [← List.cons_append, records_concat, List.mem_append] at hr
    rw [← List.cons_append, run_concat]
    rcases hr with hr | hr
    · have hstopped := ih (fun program => (hload program).1) hr
      rw [perform_of_not_ok hstopped fun program hl => (hload program).2 hl.symm]
      exact hstopped
    · exact not_ok_of_warning hr hwarn

theorem warnings_le : (m.records (o :: later)).countP (·.level = .warn) ≤ 1 := by
  induction later using List.reverseRecOn with
  | nil => exact warnings_perform_le m o
  | append_singleton later last ih =>
    simp only [List.mem_append, List.mem_singleton, not_or] at hload
    rw [← List.cons_append, records_concat, List.countP_append]
    by_cases hnone : (m.records (o :: later)).countP (·.level = .warn) = 0
    · rw [hnone, Nat.zero_add]
      exact warnings_perform_le _ last
    · -- the machine has stopped with the warning that there is
      obtain ⟨r, hr, hwarn⟩ := List.countP_pos_iff.1 (Nat.pos_of_ne_zero hnone)
      have hstopped := not_ok_of_warnings (fun program => (hload program).1) hr (of_decide_eq_true hwarn)
      have hlast : ∀ program, Operation.load program ∉ [last] := fun program =>
        mt List.mem_singleton.1 (hload program).2
      rw [records_of_not_ok hstopped hlast]
      exact ih fun program => (hload program).1

end

/-- **The records follow the run.**  After any history, a step of a machine that does not run writes nothing down; on
one that does it writes the word that it executes, if the word can be read and is an instruction, and behind that the
fault, if it stops the machine.  A load writes the reset and then the size of the program, or that it is too big, and
nothing else writes anything.  So over any further history the records of words are those of the words executed, in
their order.  And if only the first operation of it can be a load, there is one warning at most, and nothing behind
it. -/
theorem records_of_history (config : Config) (entropy : Random.Key) (before : List Operation) :
    let m := (build config entropy).run before
    (∀ ticks, m.status ≠ .ok → m.records [.step ticks] = []) ∧
    (∀ ticks, m.status = .ok → m.records [.step ticks] =
      (if m.pc.toNat + 1 < 4096 ∧ (Instruction.decode? m.currentWord).isSome then [.ofWord m.pc m.currentWord]
        else []) ++
      (m.step ticks).status.fault?.toList.map (.ofHalt (m.step ticks).pc)) ∧
    (∀ program, m.records [.load program] =
      [⟨.debug, "Machine reset"⟩,
        if program.length ≤ 3584 then ⟨.debug, s!"Loaded {program.length} byte program"⟩
        else .ofHalt 0 (.programTooBig program.length)]) ∧
    (∀ key, m.records [.keyDown key] = [] ∧ m.records [.keyUp key] = []) ∧ m.records [.takeDirty] = [] ∧
    (∀ history, (m.records history).filter (·.level = .trace) =
      (m.executed history).map fun e => .ofWord e.1 e.2) ∧
    ∀ o later, (∀ program, .load program ∉ later) →
      (m.records (o :: later)).countP (·.level = .warn) ≤ 1 ∧
      ∀ earlier rest, o :: later = earlier ++ rest → (∃ r ∈ m.records earlier, r.level = .warn) →
        (m.run earlier).records rest = [] := by
  intro m
  refine ⟨fun ticks h => records_step_of_not_ok h ticks, fun ticks ok => ?_, records_load m, fun _ => ⟨rfl, rfl⟩, rfl,
    traces_of_history m, fun o later hload => ⟨warnings_le hload, ?_⟩⟩
  · rw [records_step ok]
    unfold executed?
    simp only [ok, true_and]
    split <;> rfl
  · rintro earlier rest hsplit ⟨r, hr, hwarn⟩
    cases earlier with
    | nil => exact absurd hr List.not_mem_nil
    | cons first earlier =>
      obtain ⟨rfl, rfl⟩ := List.cons_eq_cons.1 hsplit
      have hstopped := not_ok_of_warnings (fun program hp => hload program (List.mem_append_left _ hp)) hr hwarn
      exact records_of_not_ok hstopped fun program hp => hload program (List.mem_append_right _ hp)

/-- A return with no call open is written down as a word and as the fault that stops the machine, and no step behind it
is. -/
theorem records_of_history_underflow :
    let m := build {} (Vector.replicate 8 0)
    let run : List Operation := [.load [0x60, 0x05, 0x00, 0xEE], .step 0, .step 0]
    (m.records run).filter (·.level = .trace) =
      [⟨.trace, "0x0200: 0x6005 LD V0, 0x05"⟩, ⟨.trace, "0x0202: 0x00ee RET"⟩] ∧
    .ofHalt 0x202 .stackUnderflow ∈ m.records run ∧ (m.run run).records [.step 0, .keyDown 5, .step 9] = [] := by
  intro m run
  have hwarning : .ofHalt 0x202 .stackUnderflow ∈ m.records run := by decide +kernel
  obtain ⟨-, -, -, -, -, htraces, hwarnings⟩ := records_of_history {} (Vector.replicate 8 0) []
  refine ⟨(htraces run).trans (by decide +kernel), hwarning, ?_⟩
  exact (hwarnings (.load [0x60, 0x05, 0x00, 0xEE]) [.step 0, .step 0, .step 0, .keyDown 5, .step 9] (by simp)).2 run _
    rfl ⟨_, hwarning, rfl⟩

end Machine

end Chip8
