import Mathlib
import Chip8.Proofs.Halting
import Chip8.Session.Basic
/-!
# HaltPlace — where a stopped machine stands

A fault leaves the program counter and the open calls as they were, so that the address that is told names the
instruction that met it.  One instruction is an exception.  A return closes its call and goes back to it *before* it
tries to go on from there, and a call can stand in the last word of memory, which there is nothing behind.  So a return
to that word stops the machine at the call, with the call closed.

`Reachable.halt_place_iff` says that there is no other exception.
-/
namespace Chip8

theorem movedPc_of_moveFault? {pc : UInt16} {distance : Nat} {fault : Fault}
    (h : moveFault? pc distance = some fault) : movedPc pc distance = pc := by
  unfold moveFault? at h
  unfold movedPc
  by_cases hlt : pc.toNat + distance < memorySize
  · rw [if_pos hlt] at h; exact nomatch h
  · rw [if_neg hlt]

namespace Machine

/-- Whether the word at the program counter is a return to a call that stands in the last word of memory. -/
def ReturnsToLastWord (m : Machine) : Prop :=
  m.currentWord = 0x00EE ∧ m.stack.head? = some 0xFFE

instance (m : Machine) : Decidable m.ReturnsToLastWord :=
  inferInstanceAs (Decidable (_ ∧ _))

section

variable {m : Machine} {i : Instruction} {fault : Fault}

theorem place_of_fault (hf : m.faultOf? i = some fault) (hi : i ≠ .returnFromCall) :
    m.pcAfter i = m.pc ∧ m.stackAfter i = m.stack := by
  have hblock : ∀ n distance, (blockFault? m.index n).or (moveFault? m.pc distance) = some fault →
      (if (blockFault? m.index n).isSome then m.pc else movedPc m.pc distance).toNat = m.pc.toNat := by
    intro n distance h
    cases hb : blockFault? m.index n with
    | some _ => rfl
    | none =>
      rw [hb, Option.none_or] at h
      exact congrArg _ (movedPc_of_moveFault? h)
  cases i with
  | machineRoutine nnn => exact ⟨rfl, rfl⟩
  | returnFromCall => exact absurd rfl hi
  | jump nnn => exact nomatch hf
  | jumpOffset nnn => exact nomatch hf
  | call nnn =>
    by_cases hl : m.stack.length < stackLimit
    · rw [faultOf?_call, if_pos hl] at hf
      exact nomatch hf
    · exact ⟨if_neg hl, if_neg hl⟩
  | waitKey x =>
    rw [faultOf?_waitKey] at hf
    rw [pcAfter_waitKey]
    by_cases hw : m.waitEnds = true
    · rw [if_pos hw] at hf
      rw [if_pos hw, movedPc_of_moveFault? hf]
      exact ⟨rfl, rfl⟩
    · rw [if_neg hw]
      exact ⟨rfl, rfl⟩
  | _ =>
    refine ⟨UInt16.toNat_inj.1 (hblock _ _ ?_), rfl⟩
    exact hf

theorem return_place_of_fault (wf : m.WellFormed) (hf : m.faultOf? .returnFromCall = some fault) :
    (m.stack = [] ∧ m.pcAfter .returnFromCall = m.pc ∧ m.stackAfter .returnFromCall = m.stack) ∨
    (m.stack.head? = some 0xFFE ∧ fault = .outOfBounds 0x1000 ∧ m.pcAfter .returnFromCall = 0xFFE ∧
      m.stackAfter .returnFromCall = m.stack.tail) := by
  rw [faultOf?_returnFromCall] at hf
  rw [pcAfter_returnFromCall, stackAfter_returnFromCall]
  cases hs : m.stack with
  | nil => exact Or.inl ⟨rfl, rfl, rfl⟩
  | cons caller stack =>
    have hle : caller.toNat ≤ 0xFFE := wf.callers caller (by rw [hs]; exact List.mem_cons_self)
    rw [hs, List.head?_cons, Option.elim_some] at hf
    have hcaller : caller = 0xFFE := by
      apply UInt16.toNat_inj.1
      by_contra hne
      have hne : caller.toNat ≠ 0xFFE := hne
      rw [moveFault?, if_pos (show caller.toNat + 2 < 4096 by omega)] at hf
      exact nomatch hf
    subst hcaller
    exact Or.inr ⟨rfl, (Option.some.inj hf).symm, rfl, rfl⟩

theorem decode?_eq_return_iff {word : UInt16} (h : Instruction.decode? word = some i) :
    word = 0x00EE ↔ i = .returnFromCall := by
  constructor
  · rintro rfl
    exact (Option.some.inj h).symm
  · rintro rfl
    have := word_of_digits (digits_of_decode? h)
    exact UInt16.toNat_inj.1 this

theorem currentWord_ne_return (hpc : 0xFFE < m.pc.toNat) : m.currentWord ≠ 0x00EE := by
  intro h
  have hbyte : m.memory.byte (m.pc.toNat + 1) = 0 := by
    unfold Memory.byte
    rw [Vector.getElem?_eq_none (show 4096 ≤ m.pc.toNat + 1 by omega)]
    rfl
  have hhigh : (m.memory.byte m.pc.toNat).toNat < 256 := UInt8.toNat_lt _
  have hword : m.currentWord.toNat = 0xEE := congrArg UInt16.toNat h
  unfold currentWord Memory.word at hword
  rw [hbyte, UInt16.toNat_ofNat_of_lt' (show _ < 65536 by simp; omega)] at hword
  simp at hword
  omega

end

theorem place_of_halt {m : Machine} (wf : m.WellFormed) (ok : m.status = .ok) {ticks : Nat} {fault : Fault}
    (h : (m.step ticks).status = .halted fault) :
    (¬m.ReturnsToLastWord ∧ (m.step ticks).pc = m.pc ∧ (m.step ticks).stack = m.stack) ∨
    (m.ReturnsToLastWord ∧ fault = .outOfBounds 0x1000 ∧ (m.step ticks).pc = 0xFFE ∧
      (m.step ticks).stack = m.stack.tail) := by
  rcases stepTraced_of_ok ok ticks with ⟨hpc, hs⟩ | ⟨hpc, hd, hs⟩ | ⟨hpc, i, hd, -⟩
  · unfold step
    rw [hs]
    exact Or.inl ⟨fun hr => currentWord_ne_return hpc hr.1, rfl, rfl⟩
  · unfold step
    rw [hs]
    refine Or.inl ⟨fun hr => ?_, rfl, rfl⟩
    rw [hr.1] at hd
    exact nomatch hd
  · have hu : m.upcoming? = some i := upcoming?_eq_some_iff.2 ⟨hpc, hd⟩
    have hfault : m.faultOf? i = some fault := (halted_step_iff ok hu ticks).1 h
    obtain ⟨hpc', hstack', -⟩ := controls_step ok hu ticks
    rw [hpc', hstack']
    by_cases hi : i = .returnFromCall
    · subst hi
      rcases return_place_of_fault wf hfault with ⟨hnil, hplace⟩ | ⟨hhead, hplace⟩
      · refine Or.inl ⟨fun hr => ?_, hplace⟩
        have hhead := hr.2
        rw [hnil] at hhead
        exact nomatch hhead
      · exact Or.inr ⟨⟨(decode?_eq_return_iff hd).2 rfl, hhead⟩, hplace⟩
    · exact Or.inl ⟨fun hr => hi ((decode?_eq_return_iff hd).1 hr.1), place_of_fault hfault hi⟩

theorem halted_event {m : Machine} (ok : m.status = .ok) {ticks : Nat} {fault : Fault}
    (h : (m.step ticks).status = .halted fault) :
    (m.stepTraced ticks).events.getLast? = some (.halted (m.step ticks).pc fault) := by
  unfold step at h ⊢
  rcases stepTraced_of_ok ok ticks with ⟨-, hs⟩ | ⟨-, -, hs⟩ | ⟨-, i, -, hs⟩
  · rw [hs] at h ⊢
    rw [← Status.halted.inj h]
    rfl
  · rw [hs] at h ⊢
    rw [← Status.halted.inj h]
    rfl
  · rw [hs] at h ⊢
    rw [Outcome.settled_pc]
    rw [Outcome.settled_status] at h
    unfold Outcome.haltEvents
    cases hf : ((m.elapse ticks).execute i).fault with
    | none =>
      rw [hf, (controls_execute _ i).status] at h
      have h : m.status = .halted fault := h
      rw [ok] at h
      exact nomatch h
    | some f =>
      rw [hf] at h
      rw [← Status.halted.inj h]
      rfl

/-- **A halt keeps its place, unless it is a return to the last word of memory.**  When a step stops a reachable machine,
program counter and depth are those before it exactly if the word at the program counter is no such return.  The event
that tells of the halt and the failure of a session name the program counter after it, so the address of the instruction
in all but that case; there it is that of the call, the call is closed, and the address behind it is out of bounds. -/
theorem Reachable.halt_place_iff {m : Machine} (h : m.Reachable) (ok : m.status = .ok) (ticks : Nat) (fault : Fault)
    (hf : (m.step ticks).status = .halted fault) :
    (((m.step ticks).pc = m.pc ∧ (m.step ticks).stack.length = m.stack.length) ↔ ¬m.ReturnsToLastWord) ∧
    (m.ReturnsToLastWord → fault = .outOfBounds 0x1000 ∧ (m.step ticks).pc = 0xFFE ∧
      (m.step ticks).stack = m.stack.tail) ∧
    (m.stepTraced ticks).events.getLast? = some (.halted (m.step ticks).pc fault) ∧
    ∀ s : Session, s.machine = m.step ticks → s.halt? = some (.halted (m.step ticks).pc fault) := by
  have hsession : ∀ s : Session, s.machine = m.step ticks → s.halt? = some (.halted (m.step ticks).pc fault) := by
    intro s hs
    unfold Session.halt?
    rw [hs, hf]
    rfl
  rcases place_of_halt h.wellFormed ok hf with ⟨hr, hpc, hstack⟩ | ⟨hr, hplace⟩
  · exact ⟨⟨fun _ => hr, fun _ => ⟨hpc, by rw [hstack]⟩⟩, fun hr' => absurd hr' hr, halted_event ok hf, hsession⟩
  · refine ⟨⟨fun hsame => ?_, fun hr' => absurd hr hr'⟩, fun _ => hplace, halted_event ok hf, hsession⟩
    -- a closed call makes the stack shorter
    have hlength := hsame.2
    have hne : m.stack ≠ [] := fun hnil => by
      have := hr.2
      rw [hnil] at this
      exact nomatch this
    have hpos : 0 < m.stack.length := List.length_pos_iff.2 hne
    rw [hplace.2.2, List.length_tail] at hlength
    omega

/-- A return with no call open keeps its place. -/
theorem halt_place_underflow : (bareReturn.step 1).pc = bareReturn.pc ∧
    (bareReturn.step 1).stack.length = bareReturn.stack.length := by
  have reachable : bareReturn.Reachable := (reachable_build _ _).run _
  exact (reachable.halt_place_iff rfl 1 .stackUnderflow (by decide +kernel)).1.2
    (by decide +kernel)

/-! ## The return to the last word

A program stores a call of its own return in the last word of memory and jumps there.
-/

/-- The program: at `0x206` it makes the bytes of `2204`, stores them in the last word and goes on there. -/
def returnToLastWord : List UInt8 :=
  [0x12, 0x06, 0x00, 0x00, 0x00, 0xEE, 0x60, 0x22, 0x61, 0x04, 0xAF, 0xFE, 0xF1, 0x55, 0x1F, 0xFE]

/-- A machine that is about to return to the last word of memory. -/
def beforeReturn : Machine :=
  (build {} (Vector.replicate 8 0)).run (.load returnToLastWord :: List.replicate 7 (.step 0))

/-- The machine is reachable and runs, and the step that stops it moves it and closes its call. -/
theorem halt_moves_on_return : beforeReturn.Reachable ∧ beforeReturn.status = .ok ∧
    (beforeReturn.step 0).status = .halted (.outOfBounds 0x1000) ∧
    beforeReturn.pc = 0x204 ∧ (beforeReturn.step 0).pc = 0xFFE ∧
    beforeReturn.stack.length = 1 ∧ (beforeReturn.step 0).stack.length = 0 :=
  ⟨(reachable_build _ _).run _, by decide +kernel⟩

end Machine

end Chip8
