import Mathlib
import Chip8.Proofs.Invariant
import Chip8.Proofs.Opcode
/-!
# Halting — every reason for a machine to stop

Ten things can stop a machine that runs, and several of them may hold of the same word.  Here they are written down with
their faults, the most pressing first (`haltReasons`), in terms of the digits of the word at the program counter and
without reference to how it is decoded or executed.  A step stops the machine with the fault of the first that holds,
and if none does it leaves it running (`Reachable.status_eq_firstFault`).
-/
namespace Chip8

/-! ## Operands by digits -/

section

variable {word : UInt16} {a c d : Nat}

theorem word_of_digits {b : Nat} (h : digits word = [a, b, c, d]) :
    word.toNat = 0x1000 * a + 0x100 * b + 0x10 * c + d := by
  unfold digits at h
  simp only [List.cons.injEq, and_true] at h
  omega

theorem x_of_digits {x : Register} {rest : List Nat} (h : digits word = a :: x.val :: rest) :
    Nibble.ofNat (word.toNat / 0x100) = x := by
  unfold digits at h
  simp only [List.cons.injEq] at h
  exact Fin.ext h.2.1

theorem y_of_digits {x y : Register} (h : digits word = [a, x.val, y.val, d]) :
    Nibble.ofNat (word.toNat / 0x10) = y := by
  unfold digits at h
  simp only [List.cons.injEq] at h
  exact Fin.ext h.2.2.1

theorem last_of_digits {x y : Register} (h : digits word = [a, x.val, y.val, d]) : word.toNat % 0x10 = d := by
  unfold digits at h
  simp only [List.cons.injEq] at h
  exact h.2.2.2.1

theorem byte_of_digits {x : Register} {nn : UInt8} (h : digits word = a :: x.val :: byteDigits nn) :
    UInt8.ofNat word.toNat = nn := by
  have hlt : nn.toNat < 256 := nn.toNat_lt
  unfold digits byteDigits at h
  simp only [List.cons.injEq, and_true] at h
  apply UInt8.toNat_inj.1
  rw [UInt8.toNat_ofNat']
  omega

end

namespace Machine

/-! ## The reasons -/

def currentX (m : Machine) : Register :=
  .ofNat (m.currentWord.toNat / 0x100)

def currentY (m : Machine) : Register :=
  .ofNat (m.currentWord.toNat / 0x10)

/-- Whether the word at the program counter is a skip whose condition holds. -/
def skips (m : Machine) : Bool :=
  let w := m.currentWord
  let vx := m.register m.currentX
  let vy := m.register m.currentY
  let nn := UInt8.ofNat w.toNat
  (fits w [some 0x3, none, none, none] && vx == nn) ||
  (fits w [some 0x4, none, none, none] && vx != nn) ||
  (fits w [some 0x5, none, none, some 0x0] && vx == vy) ||
  (fits w [some 0x9, none, none, some 0x0] && vx != vy) ||
  (fits w [some 0xe, none, some 0x9, some 0xe] && m.keypad.isDown vx) ||
  (fits w [some 0xe, none, some 0xa, some 0x1] && !m.keypad.isDown vx)

/-- Whether the word at the program counter goes on from there: it is no jump, call or return, and no wait for a key
that goes on waiting. -/
def movesOn (m : Machine) : Bool :=
  let w := m.currentWord
  !(fits w [some 0x1, none, none, none] || fits w [some 0x2, none, none, none] ||
    fits w [some 0xb, none, none, none] || fits w [some 0x0, some 0x0, some 0xe, some 0xe] ||
    (fits w [some 0xf, none, some 0x0, some 0xa] && !m.waitEnds))

def currentRows (m : Machine) : Nat :=
  min (m.currentWord.toNat % 0x10) (32 - (m.register m.currentY).toNat % 32)

/-- The address that the word at the program counter goes on to, if it does. -/
def target (m : Machine) : Nat :=
  m.pc.toNat + if m.skips then 4 else 2

/-- The reasons for an instruction to stop the machine, the most pressing first, with their faults. -/
def instructionReasons (m : Machine) : List (Bool × Fault) :=
  let w := m.currentWord
  let i := m.index.toNat
  let x := m.currentX.val
  [(fits w [some 0x2, none, none, none] && m.stack.length == 16, .stackOverflow),
    (fits w [some 0x0, some 0x0, some 0xe, some 0xe] && m.stack.length == 0, .stackUnderflow),
    (fits w [some 0x0, some 0x0, some 0xe, some 0xe] && m.stack.head? == some 0xFFE, .outOfBounds 0x1000),
    (fits w [some 0xf, none, some 0x3, some 0x3] && 0x1000 ≤ i + 2, .outOfBounds (max i 0x1000)),
    ((fits w [some 0xf, none, some 0x5, some 0x5] || fits w [some 0xf, none, some 0x6, some 0x5]) && 0x1000 ≤ i + x,
      .outOfBounds (max i 0x1000)),
    (fits w [some 0xd, none, none, none] && 0 < m.currentRows && 0x1000 ≤ i + m.currentRows - 1,
      .outOfBounds (max i 0x1000)),
    (m.movesOn && 0x1000 ≤ m.target, .outOfBounds m.target)]

/-- The reasons for a step to stop the machine, the most pressing first, with their faults. -/
def haltReasons (m : Machine) : List (Bool × Fault) :=
  let w := m.currentWord
  (0xFFF ≤ m.pc.toNat, .outOfBounds (max m.pc.toNat 0x1000)) ::
  (!(patterns.any (fits w ·) || callsRoutine w), .notRecognized w) ::
  (callsRoutine w, .machineRoutine w) :: m.instructionReasons

/-- The fault of the first reason that holds. -/
def firstFault? (reasons : List (Bool × Fault)) : Option Fault :=
  (reasons.find? (·.1)).map (·.2)

@[simp] theorem firstFault?_nil : firstFault? [] = none := rfl

@[simp] theorem firstFault?_cons (holds : Bool) (fault : Fault) (reasons : List (Bool × Fault)) :
    firstFault? ((holds, fault) :: reasons) = if holds then some fault else firstFault? reasons := by
  cases holds <;> rfl

/-! ## The reasons of an instruction -/

theorem fits_skip (condition : Condition) : ∀ a ∈ [0x0, 0x1, 0x2, 0xb, 0xd, 0xf], ∀ places : Pattern,
    Pattern.fits (some a :: places) condition.digits = false := by
  intro a ha places
  cases condition <;> simp only [List.mem_cons, List.not_mem_nil, or_false] at ha <;>
    rcases ha with rfl | rfl | rfl | rfl | rfl | rfl <;> rfl

theorem skips_of_digits {m : Machine} (condition : Condition) (h : digits m.currentWord = condition.digits) :
    m.skips = condition.holds m.registers m.keypad := by
  unfold skips currentX currentY register fits
  simp only [h]
  apply Bool.eq_iff_iff.2
  cases condition with
  | equalsByte x nn =>
    simp [Pattern.fits, Condition.digits, byteDigits, Condition.holds, x_of_digits h, byte_of_digits h]
  | differsByte x nn =>
    simp [Pattern.fits, Condition.digits, byteDigits, Condition.holds, x_of_digits h, byte_of_digits h]
  | equals x y => simp [Pattern.fits, Condition.digits, Condition.holds, x_of_digits h, y_of_digits h]
  | differs x y => simp [Pattern.fits, Condition.digits, Condition.holds, x_of_digits h, y_of_digits h]
  | keyDown x => simp [Pattern.fits, Condition.digits, Condition.holds, x_of_digits h]
  | keyUp x => simp [Pattern.fits, Condition.digits, Condition.holds, x_of_digits h]

section

variable {m : Machine} {i : Instruction} (h : Instruction.decode? m.currentWord = some i)
include h

theorem target_of_decode? : m.target = m.pc.toNat + m.distance i := by
  have hd := digits_of_decode? h
  cases i with
  | skip condition =>
    unfold target
    rw [skips_of_digits condition hd]
    rfl
  | _ =>
    unfold target skips
    simp only [fits_of_decode? h]
    rfl

omit h in
theorem moveReason (pc : UInt16) (distance : Nat) :
    (if 0x1000 ≤ pc.toNat + distance then some (Fault.outOfBounds (pc.toNat + distance)) else none) =
      moveFault? pc distance := by
  unfold moveFault?
  by_cases hlt : pc.toNat + distance < memorySize
  · rw [if_pos hlt, if_neg (Nat.not_le.2 hlt)]
  · rw [if_neg hlt, if_pos (Nat.not_lt.1 hlt)]

omit h in
theorem blockReason (index : UInt16) (n : Nat) (otherwise : Option Fault) :
    (if 0 < n ∧ 0x1000 ≤ index.toNat + n - 1 then some (Fault.outOfBounds (max index.toNat 0x1000)) else otherwise) =
      (blockFault? index n).or otherwise := by
  rw [blockFault?_eq]
  by_cases hout : 0 < n ∧ 0x1000 ≤ index.toNat + n - 1
  · have hfits : ¬(n = 0 ∨ index.toNat + n ≤ memorySize) := by
      show ¬(n = 0 ∨ index.toNat + n ≤ 0x1000)
      omega
    rw [if_pos hout, if_neg hfits]
    rfl
  · have hfits : n = 0 ∨ index.toNat + n ≤ memorySize := by
      show n = 0 ∨ index.toNat + n ≤ 0x1000
      omega
    rw [if_neg hout, if_pos hfits]
    rfl

omit h in
theorem blockReason_succ (index : UInt16) (n : Nat) (otherwise : Option Fault) :
    (if 0x1000 ≤ index.toNat + n then some (Fault.outOfBounds (max index.toNat 0x1000)) else otherwise) =
      (blockFault? index (n + 1)).or otherwise := by
  rw [← blockReason]
  exact if_congr (by omega) rfl rfl

omit h in
theorem plainReason (m : Machine) (distance : Nat) :
    (if 0x1000 ≤ m.pc.toNat + distance then some (Fault.outOfBounds (m.pc.toNat + distance)) else none) =
      (blockFault? m.index 0).or (moveFault? m.pc distance) := by
  rw [moveReason, blockFault?_zero]
  rfl

omit h in
theorem returnReason (wf : m.WellFormed) :
    (if m.stack = [] then some Fault.stackUnderflow
      else if m.stack.head? = some 0xFFE then some (.outOfBounds 0x1000) else none) =
      m.stack.head?.elim (some .stackUnderflow) (moveFault? · 2) := by
  cases hs : m.stack with
  | nil => rfl
  | cons caller stack =>
    have hle : caller.toNat ≤ 0xFFE := wf.callers caller (by rw [hs]; exact List.mem_cons_self)
    rw [if_neg (List.cons_ne_nil caller stack), List.head?_cons, Option.elim_some, ← moveReason]
    by_cases hc : caller = 0xFFE
    · subst hc
      rfl
    · have hne : caller.toNat ≠ 0xFFE := fun he => hc (UInt16.toNat_inj.1 he)
      rw [if_neg fun he => hc (Option.some.inj he), if_neg (by omega)]

/-- **The first reason that holds of an instruction is the fault that it meets.** -/
theorem firstFault?_of_decode? (wf : m.WellFormed) (hi : ∀ nnn, i ≠ .machineRoutine nnn) :
    firstFault? m.instructionReasons = m.faultOf? i := by
  have hd := digits_of_decode? h
  unfold instructionReasons movesOn
  simp only [target_of_decode? h, fits_of_decode? h, firstFault?_cons, firstFault?_nil, Bool.and_eq_true,
    Bool.or_eq_true, decide_eq_true_eq]
  -- each case keeps the reasons whose patterns its digits fit
  cases i <;> simp only [Instruction.digits, addressDigits, byteDigits, Pattern.fits, Option.all_some, Option.all_none,
    Nat.reduceBEq, BEq.rfl, beq_iff_eq, Bool.and_self, Bool.and_true, Bool.true_and, Bool.and_false, Bool.false_and,
    Bool.or_self, Bool.or_true, Bool.or_false, Bool.false_or, Bool.not_true, Bool.not_false, Bool.not_not,
    Bool.false_eq_true, false_and, true_and, or_self, or_false, or_true, ↓reduceIte]
  case machineRoutine nnn => exact absurd rfl (hi nnn)
  case returnFromCall =>
    rw [faultOf?_returnFromCall, ← returnReason wf]
    exact if_congr List.length_eq_zero_iff rfl rfl
  case jump nnn => rfl
  case jumpOffset nnn => rfl
  case call nnn =>
    have hdepth : m.stack.length ≤ stackLimit := wf.depth
    rw [faultOf?_call]
    by_cases hl : m.stack.length = stackLimit
    · rw [if_pos hl, if_neg (Nat.not_lt.2 hl.ge)]
    · rw [if_neg hl, if_pos (Nat.lt_of_le_of_ne hdepth hl)]
  case skip condition =>
    show _ = (blockFault? m.index 0).or (moveFault? m.pc (m.distance (.skip condition)))
    simpa [fits_skip] using plainReason m (m.distance (.skip condition))
  case combine op x y => cases op <;> exact plainReason m 2
  case draw x y n =>
    have hrows : m.currentRows = m.visibleRows y n := by
      unfold currentRows currentY visibleRows
      rw [y_of_digits hd, last_of_digits hd]
    rw [moveReason, hrows]
    exact blockReason m.index (m.visibleRows y n) _
  case waitKey x =>
    rw [faultOf?_waitKey, ← moveReason]
    by_cases hw : m.waitEnds = true
    · rw [if_pos hw]
      exact if_congr (and_iff_right hw) rfl rfl
    · rw [if_neg hw, if_neg fun hand => hw hand.1]
  case storeDecimal x =>
    rw [moveReason]
    exact blockReason_succ m.index 2 _
  case storeRegisters x =>
    rw [moveReason, show m.currentX = x from x_of_digits hd]
    exact blockReason_succ m.index x.val _
  case loadRegisters x =>
    rw [moveReason, show m.currentX = x from x_of_digits hd]
    exact blockReason_succ m.index x.val _
  all_goals exact plainReason m 2

theorem callsRoutine_of_decode? : callsRoutine m.currentWord = true ↔ ∃ nnn, i = .machineRoutine nnn := by
  have hd := digits_of_decode? h
  unfold callsRoutine
  rw [Bool.and_eq_true, decide_eq_true_eq, fits_of_decode? h]
  constructor
  · rintro ⟨hfits, hle⟩
    cases i with
    | machineRoutine nnn => exact ⟨nnn, rfl⟩
    | clearScreen =>
      have := word_of_digits hd
      omega
    | returnFromCall =>
      have := word_of_digits hd
      omega
    | skip condition =>
      exact absurd hfits (Bool.eq_false_iff.1 (fits_skip condition 0x0 (by decide) _))
    | _ => exact nomatch hfits
  · rintro ⟨nnn, rfl⟩
    exact ⟨rfl, routine_of_decode? h⟩

omit h in
theorem routine_word {nnn : Address} (h : Instruction.decode? m.currentWord = some (.machineRoutine nnn)) :
    UInt16.ofNat nnn.val = m.currentWord := by
  have hlt : nnn.val < 4096 := nnn.isLt
  have hword := word_of_digits (digits_of_decode? h)
  apply UInt16.toNat_inj.1
  rw [UInt16.toNat_ofNat_of_lt' (show nnn.val < 65536 by omega), hword]
  omega

/-- **The fault of an instruction is that of the first reason**, routines of the host included. -/
theorem faultOf?_eq (wf : m.WellFormed) :
    m.faultOf? i = if callsRoutine m.currentWord then some (.machineRoutine m.currentWord)
      else firstFault? m.instructionReasons := by
  by_cases hi : ∃ nnn, i = .machineRoutine nnn
  · rw [if_pos ((callsRoutine_of_decode? h).2 hi)]
    obtain ⟨nnn, rfl⟩ := hi
    show some (Fault.machineRoutine (UInt16.ofNat nnn.val)) = _
    rw [routine_word h]
  · rw [if_neg fun hc => hi ((callsRoutine_of_decode? h).1 hc),
      firstFault?_of_decode? h wf fun nnn hn => hi ⟨nnn, hn⟩]

end

theorem firstFault?_haltReasons {m : Machine} (hpc : m.pc.toNat ≤ 0xFFE) :
    firstFault? m.haltReasons =
      if (Instruction.decode? m.currentWord).isSome = false then some (.notRecognized m.currentWord)
      else if callsRoutine m.currentWord then some (.machineRoutine m.currentWord)
      else firstFault? m.instructionReasons := by
  unfold haltReasons
  rw [isSome_decode?]
  simp only [firstFault?_cons, decide_eq_true_eq, Bool.not_eq_true']
  rw [if_neg (by omega)]

/-- **The first reason that holds is the fault that stops the machine.** -/
theorem status_step {m : Machine} (wf : m.WellFormed) (ok : m.status = .ok) (ticks : Nat) :
    (m.step ticks).status = (firstFault? m.haltReasons).elim .ok .halted := by
  unfold step
  rcases stepTraced_of_ok ok ticks with ⟨hpc, h⟩ | ⟨hpc, hd, h⟩ | ⟨hpc, i, hd, h⟩
  · rw [h, haltReasons, firstFault?_cons, if_pos (decide_eq_true (by omega))]
    rfl
  · rw [h, firstFault?_haltReasons hpc, hd]
    rfl
  · have hstatus := (controls_step ok (upcoming?_eq_some_iff.2 ⟨hpc, hd⟩) ticks).2.2.2
    unfold step at hstatus
    rw [hstatus, firstFault?_haltReasons hpc, hd, Option.isSome_some, if_neg (by simp), faultOf?_eq hd wf]

/-- **Exactly these reasons stop a machine**: a step of a reachable machine that runs stops it with the fault of the
first reason that holds, and leaves it running if none does. -/
theorem Reachable.status_eq_firstFault {m : Machine} (h : m.Reachable) (ok : m.status = .ok) (ticks : Nat) :
    (m.step ticks).status = (firstFault? m.haltReasons).elim .ok .halted :=
  status_step h.wellFormed ok ticks

/-- A machine that is about to return with no call open. -/
def bareReturn : Machine :=
  (build {} (Vector.replicate 8 0)).run [.load [0x00, 0xEE]]

theorem status_eq_firstFault_underflow : bareReturn.Reachable ∧ bareReturn.status = .ok ∧
    (bareReturn.step 1).status = (firstFault? bareReturn.haltReasons).elim .ok .halted ∧
    firstFault? bareReturn.haltReasons = some .stackUnderflow := by
  have reachable : bareReturn.Reachable := (reachable_build _ _).run _
  exact ⟨reachable, rfl, reachable.status_eq_firstFault rfl 1, by decide +kernel⟩

end Machine

end Chip8
