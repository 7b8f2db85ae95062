import Mathlib
import Chip8.Proofs.Cells.Total
import Chip8.Proofs.HaltPlace
/-!
# Calls — which calls are open after a run

Which calls are open can be told from a run without a look at the stack.  It is enough to know, of each step, the address
and the word that it executed and whether the machine ran on: a call that succeeds opens one, a return closes the latest,
and nothing else does either (`openCalls`).  The stack of the machine is that list after every history, and so are the
places for return addresses that are in use when the machine is stored as cells.

An entry of the stack also remembers where it comes from.  It was put there by the call at its address, when the entries
below it were all there was, and neither it nor they have been touched since (`openSince_of_stack`).  So a return goes on
behind the call that it belongs to, and leaves what was open before that call.
-/
namespace Chip8

/-- Whether a word is a call, `2NNN`. -/
def isCall (word : UInt16) : Bool :=
  fits word [some 0x2, none, none, none]

section

variable {word : UInt16} {i : Instruction}

theorem isCall_iff_of_decode? (h : Instruction.decode? word = some i) : isCall word = true ↔ ∃ nnn, i = .call nnn := by
  unfold isCall
  rw [fits_of_decode? h]
  constructor
  · intro hfits
    cases i with
    | call nnn => exact ⟨nnn, rfl⟩
    | skip condition => exact absurd hfits (Bool.eq_false_iff.1 (Machine.fits_skip condition 0x2 (by decide) _))
    | _ => exact nomatch hfits
  · rintro ⟨nnn, rfl⟩
    rfl

theorem decode?_of_isCall (h : isCall word = true) : ∃ nnn, Instruction.decode? word = some (.call nnn) := by
  have hfits : patterns.any (fits word ·) = true :=
    List.any_eq_true.2 ⟨[some 0x2, none, none, none], by decide, h⟩
  obtain ⟨i, hi⟩ := Option.isSome_iff_exists.1 ((isSome_decode? word).trans (by rw [hfits, Bool.true_or]))
  obtain ⟨nnn, rfl⟩ := (isCall_iff_of_decode? hi).1 h
  exact ⟨nnn, hi⟩

end

namespace Machine

/-- Whether a step of a machine executes a call, and the machine runs on. -/
def Calls (m : Machine) (ticks : Nat) : Prop :=
  m.status = .ok ∧ m.pc.toNat ≤ 0xFFE ∧ isCall m.currentWord = true ∧ (m.step ticks).status = .ok

/-- Whether a step of a machine executes a return, `00EE`. -/
def Returns (m : Machine) : Prop :=
  m.status = .ok ∧ m.pc.toNat ≤ 0xFFE ∧ m.currentWord = 0x00EE

instance (m : Machine) (ticks : Nat) : Decidable (m.Calls ticks) :=
  inferInstanceAs (Decidable (_ ∧ _))

instance (m : Machine) : Decidable m.Returns :=
  inferInstanceAs (Decidable (_ ∧ _))

/-- The calls that are open after an operation of a machine, the latest first, if `calls` were before it. -/
def callsAfter (m : Machine) (calls : List UInt16) : Operation → List UInt16
  | .load _ => []
  | .step ticks => if m.Calls ticks then m.pc :: calls else if m.Returns then calls.tail else calls
  | _ => calls

/-- The calls that are open after a history of a machine, the latest first, if `calls` were before it. -/
def openCalls (m : Machine) (calls : List UInt16) : List Operation → List UInt16
  | [] => calls
  | o :: history => (m.perform o).openCalls (m.callsAfter calls o) history

/-! ## The stack -/

section

variable {m : Machine} {i : Instruction} (ok : m.status = .ok) (h : m.upcoming? = some i)
include ok h

theorem calls_iff (ticks : Nat) : m.Calls ticks ↔ (∃ nnn, i = .call nnn) ∧ m.stack.length < stackLimit := by
  obtain ⟨hpc, hd⟩ := upcoming?_eq_some_iff.1 h
  unfold Calls
  rw [and_iff_right ok, and_iff_right hpc, isCall_iff_of_decode? hd]
  refine and_congr_right ?_
  rintro ⟨nnn, rfl⟩
  rw [ok_step_iff ok h, faultOf?_call]
  by_cases hl : m.stack.length < stackLimit
  · rw [if_pos hl]
    exact iff_of_true rfl hl
  · rw [if_neg hl]
    exact iff_of_false nofun hl

theorem returns_iff : m.Returns ↔ i = .returnFromCall := by
  obtain ⟨hpc, hd⟩ := upcoming?_eq_some_iff.1 h
  unfold Returns
  rw [and_iff_right ok, and_iff_right hpc]
  exact decode?_eq_return_iff hd

end

theorem stackAfter_eq {m : Machine} {i : Instruction} (hc : ∀ nnn, i ≠ .call nnn) (hr : i ≠ .returnFromCall) :
    m.stackAfter i = m.stack := by
  cases i with
  | call nnn => exact absurd rfl (hc nnn)
  | returnFromCall => exact absurd rfl hr
  | _ => rfl

theorem stack_step (m : Machine) (ticks : Nat) : (m.step ticks).stack = m.callsAfter m.stack (.step ticks) := by
  show _ = if m.Calls ticks then m.pc :: m.stack else if m.Returns then m.stack.tail else m.stack
  by_cases ok : m.status = .ok
  · cases hu : m.upcoming? with
    | none =>
      obtain ⟨fault, hs⟩ := step_of_upcoming?_eq_none ok hu ticks
      have hcalls : ¬m.Calls ticks := fun hc => by
        have hok := hc.2.2.2
        rw [hs] at hok
        exact nomatch hok
      have hreturns : ¬m.Returns := fun ⟨_, hpc, hword⟩ => by
        rw [upcoming?_eq_some_iff.2 ⟨hpc, by rw [hword]; rfl⟩] at hu
        exact nomatch hu
      rw [if_neg hcalls, if_neg hreturns, hs]
      rfl
    | some i =>
      rw [(controls_step ok hu ticks).2.1]
      by_cases hc : ∃ nnn, i = .call nnn
      · obtain ⟨nnn, rfl⟩ := hc
        rw [stackAfter_call, if_neg fun hr => nomatch (returns_iff ok hu).1 hr]
        exact if_congr ((calls_iff ok hu ticks).trans (and_iff_right ⟨nnn, rfl⟩)).symm rfl rfl
      · rw [if_neg fun hcalls => hc ((calls_iff ok hu ticks).1 hcalls).1]
        by_cases hr : i = .returnFromCall
        · subst hr
          rw [if_pos ((returns_iff ok hu).2 rfl)]
          rfl
        · rw [if_neg fun hreturns => hr ((returns_iff ok hu).1 hreturns)]
          exact stackAfter_eq (fun nnn hn => hc ⟨nnn, hn⟩) hr
  · rw [step_of_not_ok ok, if_neg fun hc => ok hc.1, if_neg fun hr => ok hr.1]

theorem stack_perform (m : Machine) (o : Operation) : (m.perform o).stack = m.callsAfter m.stack o := by
  cases o with
  | load program =>
    rw [perform_load, load_eq]
    rfl
  | step ticks => exact stack_step m ticks
  | keyDown key => rfl
  | keyUp key => rfl
  | takeDirty => rfl

/-- **The stack holds the calls that are open.** -/
theorem stack_run (m : Machine) (history : List Operation) : (m.run history).stack = m.openCalls m.stack history := by
  induction history generalizing m with
  | nil => rfl
  | cons o history ih =>
    rw [run_cons, ih, stack_perform]
    rfl

-- a call at 0x200, another within it at 0x204, and the return from that one
example : (build {} (Vector.replicate 8 0)).openCalls []
    (.load [0x22, 0x04, 0x00, 0x00, 0x22, 0x08, 0x00, 0x00, 0x00, 0xEE] :: List.replicate 3 (.step 0)) = [0x200] := by
  decide +kernel

/-! ## Where an open call comes from -/

/-- In a history, a call was made from `caller` when the calls `outer` were open, and it has been open since. -/
def OpenSince (m : Machine) (caller : UInt16) (outer : List UInt16) (history : List Operation) : Prop :=
  ∃ earlier ticks later, history = earlier ++ .step ticks :: later ∧
    (m.run earlier).Calls ticks ∧ (m.run earlier).pc = caller ∧ (m.run earlier).stack = outer ∧
    (m.run (earlier ++ [.step ticks])).Throughout (fun n => ∃ inner, n.stack = inner ++ caller :: outer) later

section

variable {m : Machine} {caller : UInt16} {inner outer : List UInt16} {history : List Operation}

theorem openSince_nil {ticks : Nat} (hcalls : (m.run history).Calls ticks) :
    m.OpenSince (m.run history).pc (m.run history).stack (history ++ [.step ticks]) := by
  refine ⟨history, ticks, [], rfl, hcalls, rfl, rfl, throughout_nil.2 ⟨[], ?_⟩⟩
  rw [run_concat, perform_step, stack_step]
  exact if_pos hcalls

theorem OpenSince.concat (h : m.OpenSince caller outer history) {o : Operation}
    (hs : (m.run (history ++ [o])).stack = inner ++ caller :: outer) : m.OpenSince caller outer (history ++ [o]) := by
  obtain ⟨earlier, ticks, later, rfl, hcalls, hpc, hstack, hlater⟩ := h
  refine ⟨earlier, ticks, later ++ [o], List.append_assoc .., hcalls, hpc, hstack,
    throughout_concat.2 ⟨hlater, inner, ?_⟩⟩
  rw [← run_append]
  simpa using hs

/-- **An entry of the stack was put there by the call at its address**, on the entries below it, and has been there
since. -/
theorem openSince_of_stack (hm : m.stack = []) (hs : (m.run history).stack = inner ++ caller :: outer) :
    m.OpenSince caller outer history := by
  induction history using List.reverseRecOn generalizing inner with
  | nil =>
    rw [run_nil, hm] at hs
    simp at hs
  | append_singleton history o ih =>
    have hafter := hs
    rw [run_concat, stack_perform] at hafter
    cases o with
    | load program => simp [callsAfter] at hafter
    | step ticks =>
      simp only [callsAfter] at hafter
      by_cases hcalls : (m.run history).Calls ticks
      · rw [if_pos hcalls] at hafter
        cases inner with
        | nil =>
          obtain ⟨rfl, rfl⟩ := List.cons_eq_cons.1 hafter
          exact openSince_nil hcalls
        | cons latest inner => exact (ih (List.cons_eq_cons.1 hafter).2).concat hs
      · rw [if_neg hcalls] at hafter
        by_cases hreturns : (m.run history).Returns
        · -- the entry was there below the one that the return took
          rw [if_pos hreturns] at hafter
          have hne : (m.run history).stack ≠ [] := fun hnil => by
            rw [hnil] at hafter
            simp at hafter
          have hbefore : (m.run history).stack = ((m.run history).stack.head hne :: inner) ++ caller :: outer := by
            rw [List.cons_append, ← hafter, List.cons_head_tail]
          exact (ih hbefore).concat hs
        · rw [if_neg hreturns] at hafter
          exact (ih hafter).concat hs
    | keyDown key => exact (ih hafter).concat hs
    | keyUp key => exact (ih hafter).concat hs
    | takeDirty => exact (ih hafter).concat hs

end

/-! ## Overflow, underflow and return -/

theorem toNat_movedPc {pc : UInt16} {distance : Nat} (h : moveFault? pc distance = none) :
    (movedPc pc distance).toNat = pc.toNat + distance := by
  unfold moveFault? at h
  unfold movedPc
  by_cases hlt : pc.toNat + distance < memorySize
  · rw [if_pos hlt, UInt16.toNat_ofNat_of_lt' (Nat.lt_trans hlt (by decide))]
  · rw [if_neg hlt] at h
    exact nomatch h

section

variable {m : Machine} (ok : m.status = .ok) (hpc : m.pc.toNat ≤ 0xFFE) (ticks : Nat)
include ok hpc

theorem overflow_iff (wf : m.WellFormed) (hword : isCall m.currentWord = true) :
    (m.step ticks).status = .halted .stackOverflow ↔ m.stack.length = 16 := by
  obtain ⟨nnn, hd⟩ := decode?_of_isCall hword
  have hdepth : m.stack.length ≤ 16 := wf.depth
  rw [halted_step_iff ok (upcoming?_eq_some_iff.2 ⟨hpc, hd⟩), faultOf?_call]
  by_cases hl : m.stack.length < stackLimit
  · rw [if_pos hl]
    exact iff_of_false nofun (Nat.ne_of_lt hl)
  · rw [if_neg hl]
    exact iff_of_true rfl (Nat.le_antisymm hdepth (Nat.not_lt.1 hl))

theorem underflow_iff (hword : m.currentWord = 0x00EE) :
    (m.step ticks).status = .halted .stackUnderflow ↔ m.stack = [] := by
  have hu : m.upcoming? = some .returnFromCall := upcoming?_eq_some_iff.2 ⟨hpc, by rw [hword]; rfl⟩
  rw [halted_step_iff ok hu, faultOf?_returnFromCall]
  cases m.stack with
  | nil => exact iff_of_true rfl rfl
  | cons caller outer =>
    refine iff_of_false ?_ (List.cons_ne_nil _ _)
    rw [List.head?_cons, Option.elim_some]
    unfold moveFault?
    split <;> exact nofun

theorem return_place (hword : m.currentWord = 0x00EE) (hok : (m.step ticks).status = .ok) :
    ∃ caller outer, m.stack = caller :: outer ∧ (m.step ticks).pc.toNat = caller.toNat + 2 ∧
      (m.step ticks).stack = outer := by
  have hu : m.upcoming? = some .returnFromCall := upcoming?_eq_some_iff.2 ⟨hpc, by rw [hword]; rfl⟩
  obtain ⟨hpc', hstack', -⟩ := controls_step ok hu ticks
  rw [ok_step_iff ok hu, faultOf?_returnFromCall] at hok
  rw [hpc', hstack', pcAfter_returnFromCall, stackAfter_returnFromCall]
  cases hs : m.stack with
  | nil => rw [hs] at hok; exact nomatch hok
  | cons caller outer =>
    rw [hs] at hok
    exact ⟨caller, outer, rfl, toNat_movedPc hok, rfl⟩

end

theorem cells_calls (config : Config) (entropy : Random.Key) (history : List Operation) :
    ∃ r, (Cells.build? config entropy).bind (·.run? history) = some r ∧
      r.depth.toNat = ((build config entropy).run history).stack.length ∧
      ∀ i < r.depth.toNat, r.slots[i]? = ((build config entropy).run history).stack.reverse[i]? := by
  obtain ⟨r₀, hbuild, hrep₀⟩ := Cells.represents_build config entropy
  obtain ⟨r, hrun, hrep⟩ := Cells.represents_run hrep₀ (wellFormed_initial _ _) history
  exact ⟨r, by rw [hbuild]; exact hrun, hrep.depth, fun i hi => hrep.calls i (by rwa [← hrep.depth])⟩

/-- **The discipline of calls and returns over whole runs.**  After any history of a machine its stack holds the calls
that are open, and so do the places for return addresses that are in use.  At most sixteen are; a call overflows exactly
if sixteen are, and a return underflows exactly if none is.  A return that succeeds goes on behind the latest call that
has been open since it was made, and leaves the calls that were open then. -/
theorem stack_discipline (config : Config) (entropy : Random.Key) (history : List Operation) :
    let built := build config entropy
    let m := built.run history
    m.stack = built.openCalls [] history ∧
    (∃ r, (Cells.build? config entropy).bind (·.run? history) = some r ∧ r.depth.toNat = m.stack.length ∧
      ∀ i < r.depth.toNat, r.slots[i]? = m.stack.reverse[i]?) ∧
    m.stack.length ≤ 16 ∧
    (m.status = .ok → m.pc.toNat ≤ 0xFFE → ∀ ticks,
      (isCall m.currentWord = true → ((m.step ticks).status = .halted .stackOverflow ↔ m.stack.length = 16)) ∧
      (m.currentWord = 0x00EE → ((m.step ticks).status = .halted .stackUnderflow ↔ m.stack = [])) ∧
      (m.currentWord = 0x00EE → (m.step ticks).status = .ok → ∃ caller outer,
        m.stack = caller :: outer ∧ built.OpenSince caller outer history ∧
        (m.step ticks).pc.toNat = caller.toNat + 2 ∧ (m.step ticks).stack = outer)) := by
  intro built m
  have wf : m.WellFormed := ((reachable_build config entropy).run history).wellFormed
  refine ⟨stack_run built history, cells_calls config entropy history, wf.depth, fun ok hpc ticks =>
    ⟨overflow_iff ok hpc ticks wf, underflow_iff ok hpc ticks, fun hword hok => ?_⟩⟩
  obtain ⟨caller, outer, hstack, hplace⟩ := return_place ok hpc ticks hword hok
  have htop : m.stack = [] ++ caller :: outer := hstack
  exact ⟨caller, outer, hstack, openSince_of_stack rfl htop, hplace⟩

end Machine

end Chip8
