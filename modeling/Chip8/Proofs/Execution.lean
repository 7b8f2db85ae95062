import Mathlib
import Chip8.Proofs.History
/-!
# Execution — what a step does, case by case

A step of a machine that runs either cannot read a word, or reads one that is no instruction, or executes one
(`stepTraced_of_ok`).  What an instruction does to the control of the machine is told once for all of them
(`controls_execute`): its fault, where the program counter stands, the calls that are open, and the wait for a key.
Keys, status and configuration are not its business.  Nothing else in the proofs unfolds an instruction to learn these.
-/
namespace Chip8

/-- The fault of going on from an address to one that is this much higher. -/
def moveFault? (pc : UInt16) (distance : Nat) : Option Fault :=
  if pc.toNat + distance < memorySize then none else some (.outOfBounds (pc.toNat + distance))

def movedPc (pc : UInt16) (distance : Nat) : UInt16 :=
  if pc.toNat + distance < memorySize then UInt16.ofNat (pc.toNat + distance) else pc

/-- The fault of moving a block of `n` bytes that starts at an address. -/
def blockFault? (index : UInt16) (n : Nat) : Option Fault :=
  (firstOutside? index.toNat n).map .outOfBounds

theorem blockFault?_eq (index : UInt16) (n : Nat) :
    blockFault? index n =
      if n = 0 ∨ index.toNat + n ≤ memorySize then none else some (.outOfBounds (max index.toNat memorySize)) := by
  unfold blockFault?
  rw [firstOutside?_eq]
  split <;> rfl

theorem isSome_blockFault?_iff {index : UInt16} {n : Nat} :
    (blockFault? index (n + 1)).isSome ↔ memorySize ≤ index.toNat + n := by
  rw [blockFault?_eq]
  split
  · simp; omega
  · simp; omega

theorem Status.isOk_iff {s : Status} : s.isOk = true ↔ s = .ok := by
  cases s <;> simp [isOk]

def Outcome.settled (o : Outcome) : Machine :=
  match o.fault with
  | none => o.machine
  | some fault => { o.machine with status := .halted fault }

def Outcome.haltEvents (o : Outcome) : List Event :=
  o.fault.toList.map (.halted o.machine.pc)

namespace Machine

def currentWord (m : Machine) : UInt16 :=
  m.memory.word m.pc.toNat

def visibleRows (m : Machine) (y : Register) (n : Nibble) : Nat :=
  min n.val (screenHeight - (m.register y).toNat % screenHeight)

def spriteMask (m : Machine) (x y : Register) (n : Nibble) : Screen :=
  .sprite ((m.register x).toNat % screenWidth) ((m.register y).toNat % screenHeight)
    (m.memory.load m.index.toNat (m.visibleRows y n))

def nextWait (m : Machine) : KeyWait :=
  match m.keyWait with
  | .idle => (m.keypad.firstDown?.map .awaiting).getD .idle
  | .awaiting key => if m.keypad.holds key then .awaiting key else .idle

/-- Whether the instruction that waits for a key is done when it is executed now. -/
def waitEnds (m : Machine) : Bool :=
  match m.keyWait with
  | .idle => false
  | .awaiting key => !m.keypad.holds key

/-! ## What an instruction does to the control, by its name -/

def blockSize (m : Machine) : Instruction → Nat
  | .draw _ y n => m.visibleRows y n
  | .storeDecimal _ => 3
  | .storeRegisters x => x.val + 1
  | .loadRegisters x => x.val + 1
  | _ => 0

def distance (m : Machine) : Instruction → Nat
  | .skip condition => if condition.holds m.registers m.keypad then 4 else 2
  | _ => 2

def faultOf? (m : Machine) : Instruction → Option Fault
  | .machineRoutine nnn => some (.machineRoutine (UInt16.ofNat nnn.val))
  | .jump _ => none
  | .jumpOffset _ => none
  | .call _ => if m.stack.length < stackLimit then none else some .stackOverflow
  | .returnFromCall => m.stack.head?.elim (some .stackUnderflow) (moveFault? · 2)
  | .waitKey _ => if m.waitEnds then moveFault? m.pc 2 else none
  | i => (blockFault? m.index (m.blockSize i)).or (moveFault? m.pc (m.distance i))

def pcAfter (m : Machine) : Instruction → UInt16
  | .machineRoutine _ => m.pc
  | .jump nnn => UInt16.ofNat nnn.val
  | .jumpOffset nnn => UInt16.ofNat (nnn.val + (m.register .offset).toNat)
  | .call nnn => if m.stack.length < stackLimit then UInt16.ofNat nnn.val else m.pc
  | .returnFromCall => m.stack.head?.elim m.pc (movedPc · 2)
  | .waitKey _ => if m.waitEnds then movedPc m.pc 2 else m.pc
  | i => if (blockFault? m.index (m.blockSize i)).isSome then m.pc else movedPc m.pc (m.distance i)

def stackAfter (m : Machine) : Instruction → List UInt16
  | .call _ => if m.stack.length < stackLimit then m.pc :: m.stack else m.stack
  | .returnFromCall => m.stack.tail
  | _ => m.stack

def waitAfter (m : Machine) : Instruction → KeyWait
  | .waitKey _ => m.nextWait
  | _ => m.keyWait

section

variable (m : Machine)

theorem faultOf?_call (nnn : Address) :
    m.faultOf? (.call nnn) = if m.stack.length < stackLimit then none else some .stackOverflow := rfl

theorem faultOf?_returnFromCall :
    m.faultOf? .returnFromCall = m.stack.head?.elim (some .stackUnderflow) (moveFault? · 2) := rfl

theorem faultOf?_waitKey (x : Register) :
    m.faultOf? (.waitKey x) = if m.waitEnds then moveFault? m.pc 2 else none := rfl

theorem pcAfter_call (nnn : Address) :
    m.pcAfter (.call nnn) = if m.stack.length < stackLimit then UInt16.ofNat nnn.val else m.pc := rfl

theorem pcAfter_jumpOffset (nnn : Address) :
    m.pcAfter (.jumpOffset nnn) = UInt16.ofNat (nnn.val + (m.register .offset).toNat) := rfl

theorem pcAfter_returnFromCall : m.pcAfter .returnFromCall = m.stack.head?.elim m.pc (movedPc · 2) := rfl

theorem pcAfter_waitKey (x : Register) :
    m.pcAfter (.waitKey x) = if m.waitEnds then movedPc m.pc 2 else m.pc := rfl

theorem stackAfter_call (nnn : Address) :
    m.stackAfter (.call nnn) = if m.stack.length < stackLimit then m.pc :: m.stack else m.stack := rfl

theorem stackAfter_returnFromCall : m.stackAfter .returnFromCall = m.stack.tail := rfl

end

/-! ## Moving on -/

theorem advance_eq (m : Machine) (distance : Nat) :
    m.advance distance = ⟨{ m with pc := movedPc m.pc distance }, moveFault? m.pc distance⟩ := by
  unfold advance movedPc moveFault?
  by_cases h : m.pc.toNat + distance < memorySize
  · simp only [h, ↓reduceIte]
  · simp only [h, ↓reduceIte]

theorem next_eq (m : Machine) : m.next = ⟨{ m with pc := movedPc m.pc 2 }, moveFault? m.pc 2⟩ :=
  advance_eq m 2

/-- **A block instruction ends at its block's fault, or goes on.** -/
theorem ifBlockFits_eq (m : Machine) (n : Nat) (go : Machine → Outcome) :
    m.ifBlockFits n go = match blockFault? m.index n with
      | some fault => ⟨m, some fault⟩
      | none => go m := by
  unfold ifBlockFits blockFault?
  cases firstOutside? m.index.toNat n <;> rfl

theorem blockFault?_zero (index : UInt16) : blockFault? index 0 = none := by
  rw [blockFault?_eq, if_pos (Or.inl rfl)]

/-! ## What an instruction does to the control of the machine -/

theorem passBlock_eq (m : Machine) (n : Nat) : ∃ index, m.passBlock n = { m with index } := by
  unfold passBlock
  cases m.config.dialect.transfer with
  | advanced => exact ⟨_, rfl⟩
  | restored => exact ⟨m.index, rfl⟩

theorem combine_eq (m : Machine) (op : Operator) (x y : Register) :
    ∃ registers, m.combine op x y = { m with registers } := by
  unfold combine
  split <;> exact ⟨_, rfl⟩

theorem pointToGlyph_eq (m : Machine) (x : Register) : ∃ index, m.pointToGlyph x = { m with index } := by
  unfold pointToGlyph
  split
  · exact ⟨_, rfl⟩
  · exact ⟨m.index, rfl⟩

/-- The machines agree in what is given to them: keys, status and configuration. -/
structure SameSetting (m m' : Machine) : Prop where
  keypad : m'.keypad = m.keypad := by rfl
  status : m'.status = m.status := by rfl
  config : m'.config = m.config := by rfl

/-- The machines agree in what controls them: beside their setting, program counter, open calls and wait for a key. -/
structure SameControl (m m' : Machine) : Prop extends SameSetting m m' where
  pc : m'.pc = m.pc := by rfl
  stack : m'.stack = m.stack := by rfl
  keyWait : m'.keyWait = m.keyWait := by rfl

/-- An outcome with this fault, whose machine has the setting of another and this control. -/
structure Controls (m : Machine) (fault : Option Fault) (pc : UInt16) (stack : List UInt16) (keyWait : KeyWait)
    (o : Outcome) : Prop extends SameSetting m o.machine where
  fault : o.fault = fault := by rfl
  pc : o.machine.pc = pc := by rfl
  stack : o.machine.stack = stack := by rfl
  keyWait : o.machine.keyWait = keyWait := by rfl

theorem SameControl.trans {a b c : Machine} (h : SameControl a b) (h' : SameControl b c) : SameControl a c where
  pc := h'.pc.trans h.pc
  stack := h'.stack.trans h.stack
  keyWait := h'.keyWait.trans h.keyWait
  keypad := h'.keypad.trans h.keypad
  status := h'.status.trans h.status
  config := h'.config.trans h.config

theorem sameControl_combine (m : Machine) (op : Operator) (x y : Register) : SameControl m (m.combine op x y) := by
  obtain ⟨registers, h⟩ := combine_eq m op x y
  rw [h]
  exact {}

theorem sameControl_pointToGlyph (m : Machine) (x : Register) : SameControl m (m.pointToGlyph x) := by
  obtain ⟨index, h⟩ := pointToGlyph_eq m x
  rw [h]
  exact {}

theorem sameControl_passBlock (m : Machine) (n : Nat) : SameControl m (m.passBlock n) := by
  obtain ⟨index, h⟩ := passBlock_eq m n
  rw [h]
  exact {}

theorem sameControl_loadFromIndex (m : Machine) (n : Nat) : SameControl m (m.loadFromIndex n) := by
  unfold loadFromIndex
  exact {}

theorem index_loadFromIndex (m : Machine) (n : Nat) : (m.loadFromIndex n).index = m.index := by
  unfold loadFromIndex
  rfl

theorem controls_advance {m m' : Machine} (h : SameControl m m') (distance : Nat) :
    Controls m (moveFault? m.pc distance) (movedPc m.pc distance) m.stack m.keyWait (m'.advance distance) := by
  rw [advance_eq, h.pc]
  exact { h with pc := rfl }

theorem controls_plain {m m' : Machine} (h : SameControl m m') (distance : Nat) :
    Controls m ((blockFault? m.index 0).or (moveFault? m.pc distance))
      (if (blockFault? m.index 0).isSome then m.pc else movedPc m.pc distance) m.stack m.keyWait
      (m'.advance distance) := by
  rw [blockFault?_zero]
  exact controls_advance h distance

theorem controls_block (m m' : Machine) (h : SameControl m m') (hi : m'.index = m.index) (n : Nat)
    (work : Machine → Machine) (hw : SameControl m (work m')) :
    Controls m ((blockFault? m.index n).or (moveFault? m.pc 2))
      (if (blockFault? m.index n).isSome then m.pc else movedPc m.pc 2) m.stack m.keyWait
      (m'.ifBlockFits n fun m => (work m).next) := by
  rw [ifBlockFits_eq, hi]
  cases blockFault? m.index n with
  | some fault => exact { h with }
  | none => exact controls_advance hw 2

theorem draw_eq (m : Machine) (x y : Register) (n : Nibble) :
    m.draw x y n = { m with display := m.display.draw (m.spriteMask x y n) }.ifBlockFits (m.visibleRows y n)
      fun m' => (m'.setRegister .flag (m.display.screen.meets (m.spriteMask x y n)).toUInt8).next := rfl

/-! ### The wait for a key

The instruction meets one of four situations, and does something else in each. -/

theorem waitKey_of_none_down {m : Machine} (hw : m.keyWait = .idle) (hd : m.keypad.firstDown? = none) (x : Register) :
    m.waitKey x = ⟨m, none⟩ := by
  unfold waitKey
  rw [hw]
  simp only [hd]

theorem waitKey_of_down {m : Machine} {key : Fin keyCount} (hw : m.keyWait = .idle)
    (hd : m.keypad.firstDown? = some key) (x : Register) :
    m.waitKey x = ⟨{ m with keyWait := .awaiting key, timers := m.timers.start }, none⟩ := by
  unfold waitKey
  rw [hw]
  simp only [hd]

theorem waitKey_of_held {m : Machine} {key : Fin keyCount} (hw : m.keyWait = .awaiting key)
    (hk : m.keypad.holds key = true) (x : Register) : m.waitKey x = ⟨{ m with timers := m.timers.hold }, none⟩ := by
  unfold waitKey
  rw [hw]
  simp only [hk, ↓reduceIte]

theorem waitKey_of_released {m : Machine} {key : Fin keyCount} (hw : m.keyWait = .awaiting key)
    (hk : m.keypad.holds key = false) (x : Register) :
    m.waitKey x =
      { m.setRegister x (UInt8.ofNat key.val) with keyWait := .idle, timers := m.timers.silence }.next := by
  unfold waitKey
  rw [hw]
  simp only [hk, Bool.false_eq_true, ↓reduceIte]

theorem controls_waitKey (m : Machine) (x : Register) :
    Controls m (if m.waitEnds then moveFault? m.pc 2 else none) (if m.waitEnds then movedPc m.pc 2 else m.pc) m.stack
      m.nextWait (m.waitKey x) := by
  cases hw : m.keyWait with
  | idle =>
    have hends : m.waitEnds = false := by simp [waitEnds, hw]
    rw [hends]
    cases hd : m.keypad.firstDown? with
    | none =>
      rw [waitKey_of_none_down hw hd]
      exact { keyWait := by simp [nextWait, hw, hd] }
    | some key =>
      rw [waitKey_of_down hw hd]
      exact { keyWait := by simp [nextWait, hw, hd] }
  | awaiting key =>
    cases hk : m.keypad.holds key with
    | true =>
      have hends : m.waitEnds = false := by simp [waitEnds, hw, hk]
      rw [hends, waitKey_of_held hw hk]
      exact { keyWait := by simp [nextWait, hw, hk] }
    | false =>
      have hends : m.waitEnds = true := by simp [waitEnds, hw, hk]
      rw [hends, waitKey_of_released hw hk, next_eq]
      exact { keyWait := by simp [nextWait, hw, hk] }

theorem controls_afterTransfer (m m' : Machine) (h : SameControl m m') (hi : m'.index = m.index) (x : Register) :
    Controls m ((blockFault? m.index (x.val + 1)).or (moveFault? m.pc 2))
      (if (blockFault? m.index (x.val + 1)).isSome then m.pc else movedPc m.pc 2) m.stack m.keyWait
      (m'.afterTransfer x) :=
  controls_block m m' h hi _ (·.passBlock (x.val + 1)) (h.trans (sameControl_passBlock m' _))

theorem controls_call (m : Machine) (nnn : Address) :
    Controls m (if m.stack.length < stackLimit then none else some .stackOverflow)
      (if m.stack.length < stackLimit then UInt16.ofNat nnn.val else m.pc)
      (if m.stack.length < stackLimit then m.pc :: m.stack else m.stack) m.keyWait (m.call nnn) := by
  unfold call
  by_cases h : m.stack.length < stackLimit
  · rw [if_pos h, if_pos h, if_pos h, if_pos h]
    exact {}
  · rw [if_neg h, if_neg h, if_neg h, if_neg h]
    exact {}

theorem controls_returnFromCall (m : Machine) :
    Controls m (m.stack.head?.elim (some .stackUnderflow) (moveFault? · 2)) (m.stack.head?.elim m.pc (movedPc · 2))
      m.stack.tail m.keyWait m.returnFromCall := by
  unfold returnFromCall
  cases hs : m.stack with
  | nil => exact { stack := hs }
  | cons caller stack =>
    simp only [next_eq]
    exact {}

/-- **What an instruction does to the control of the machine.** -/
theorem controls_execute (m : Machine) (i : Instruction) :
    Controls m (m.faultOf? i) (m.pcAfter i) (m.stackAfter i) (m.waitAfter i) (m.execute i) := by
  cases i with
  | machineRoutine nnn => exact {}
  | clearScreen => exact controls_plain {} 2
  | returnFromCall => exact controls_returnFromCall m
  | jump nnn => exact {}
  | call nnn => exact controls_call m nnn
  | jumpOffset nnn => exact {}
  | skip condition => exact controls_plain {} _
  | setByte x nn => exact controls_plain {} 2
  | addByte x nn => exact controls_plain {} 2
  | combine op x y => exact controls_plain (sameControl_combine m op x y) 2
  | setIndex nnn => exact controls_plain {} 2
  | random x nn => exact controls_plain {} 2
  | draw x y n =>
    show Controls _ _ _ _ _ (m.draw x y n)
    rw [draw_eq]
    exact controls_block m { m with display := m.display.draw (m.spriteMask x y n) } {} rfl _
      (fun m' => m'.setRegister .flag (m.display.screen.meets (m.spriteMask x y n)).toUInt8) {}
  | readDelay x => exact controls_plain {} 2
  | waitKey x => exact controls_waitKey m x
  | setDelay x => exact controls_plain {} 2
  | setSound x => exact controls_plain {} 2
  | addIndex x => exact controls_plain {} 2
  | fontGlyph x => exact controls_plain (sameControl_pointToGlyph m x) 2
  | storeDecimal x => exact controls_block m (m.storeAtIndex (decimalDigits (m.register x))) {} rfl 3 id {}
  | storeRegisters x => exact controls_afterTransfer m (m.storeAtIndex (m.registers.upTo x)) {} rfl x
  | loadRegisters x =>
    exact controls_afterTransfer m (m.loadFromIndex (x.val + 1)) (sameControl_loadFromIndex m _)
      (index_loadFromIndex m _) x

/-! ## A step -/

theorem conclude_eq (o : Outcome) : conclude o = ⟨o.settled, o.haltEvents⟩ := by
  unfold conclude Outcome.settled Outcome.haltEvents
  cases o.fault with
  | none => rfl
  | some fault => rfl

/-- **A step of a machine that runs**: no word can be read, or the word is no instruction, or it is one and is
executed. -/
theorem stepTraced_of_ok {m : Machine} (ok : m.status = .ok) (ticks : Nat) :
    (0xFFE < m.pc.toNat ∧
      m.stepTraced ticks = (m.elapse ticks).halt (.outOfBounds (max m.pc.toNat memorySize))) ∨
    (m.pc.toNat ≤ 0xFFE ∧ Instruction.decode? m.currentWord = none ∧
      m.stepTraced ticks = (m.elapse ticks).halt (.notRecognized m.currentWord)) ∨
    (m.pc.toNat ≤ 0xFFE ∧ ∃ i, Instruction.decode? m.currentWord = some i ∧
      m.stepTraced ticks = ⟨((m.elapse ticks).execute i).settled,
        .executing m.pc m.currentWord i :: ((m.elapse ticks).execute i).haltEvents⟩) := by
  have hstep : m.stepTraced ticks = (m.elapse ticks).cycle := by
    unfold stepTraced
    rw [ok]
    rfl
  rw [hstep, cycle, firstOutside?_eq]
  by_cases hpc : m.pc.toNat ≤ 0xFFE
  · right
    have hfits : (m.elapse ticks).pc.toNat + 2 ≤ memorySize := by
      show m.pc.toNat + 2 ≤ 4096
      omega
    rw [if_pos (Or.inr hfits)]
    show _ ∨ _
    simp only [executeWord]
    rw [show (m.elapse ticks).memory.word (m.elapse ticks).pc.toNat = m.currentWord from rfl]
    cases hd : Instruction.decode? m.currentWord with
    | none => exact Or.inl ⟨hpc, rfl, rfl⟩
    | some i =>
      refine Or.inr ⟨hpc, i, rfl, ?_⟩
      simp only [conclude_eq]
      rfl
  · left
    have hfits : ¬(2 = 0 ∨ (m.elapse ticks).pc.toNat + 2 ≤ memorySize) := by
      show ¬(2 = 0 ∨ m.pc.toNat + 2 ≤ 4096)
      omega
    rw [if_neg hfits]
    exact ⟨by omega, rfl⟩

theorem stepTraced_of_not_ok {m : Machine} (h : m.status ≠ .ok) (ticks : Nat) :
    m.stepTraced ticks = { machine := m } := by
  unfold stepTraced
  exact if_neg fun ok => h (Status.isOk_iff.1 ok)

/-! ### The machine after a step -/

/-- The instruction that a step executes, if it finds one. -/
def upcoming? (m : Machine) : Option Instruction :=
  if m.pc.toNat ≤ 0xFFE then Instruction.decode? m.currentWord else none

theorem upcoming?_eq_some_iff {m : Machine} {i : Instruction} :
    m.upcoming? = some i ↔ m.pc.toNat ≤ 0xFFE ∧ Instruction.decode? m.currentWord = some i := by
  unfold upcoming?
  by_cases hpc : m.pc.toNat ≤ 0xFFE
  · rw [if_pos hpc]
    exact (and_iff_right hpc).symm
  · rw [if_neg hpc]
    exact ⟨nofun, fun h => absurd h.1 hpc⟩

theorem step_of_upcoming? {m : Machine} {i : Instruction} (ok : m.status = .ok) (h : m.upcoming? = some i)
    (ticks : Nat) : m.step ticks = ((m.elapse ticks).execute i).settled := by
  obtain ⟨hpc, hd⟩ := upcoming?_eq_some_iff.1 h
  unfold step
  rcases stepTraced_of_ok ok ticks with ⟨hout, -⟩ | ⟨-, hnone, -⟩ | ⟨-, j, hj, hs⟩
  · exact absurd hpc (Nat.not_le.2 hout)
  · rw [hd] at hnone; exact nomatch hnone
  · rw [hd] at hj
    rw [hs, Option.some.inj hj]

/-- The fault of a step that finds no instruction. -/
def missingFault (m : Machine) : Fault :=
  if m.pc.toNat ≤ 0xFFE then .notRecognized m.currentWord else .outOfBounds (max m.pc.toNat memorySize)

theorem step_of_missing {m : Machine} (ok : m.status = .ok) (h : m.upcoming? = none) (ticks : Nat) :
    m.step ticks = { m.elapse ticks with status := .halted m.missingFault } := by
  unfold step missingFault
  rcases stepTraced_of_ok ok ticks with ⟨hpc, hs⟩ | ⟨hpc, -, hs⟩ | ⟨hpc, i, hd, -⟩
  · rw [hs, if_neg (Nat.not_le.2 hpc)]
    rfl
  · rw [hs, if_pos hpc]
    rfl
  · rw [upcoming?_eq_some_iff.2 ⟨hpc, hd⟩] at h
    exact nomatch h

theorem step_of_upcoming?_eq_none {m : Machine} (ok : m.status = .ok) (h : m.upcoming? = none) (ticks : Nat) :
    ∃ fault, m.step ticks = { m.elapse ticks with status := .halted fault } :=
  ⟨m.missingFault, step_of_missing ok h ticks⟩

theorem step_of_not_ok {m : Machine} (h : m.status ≠ .ok) (ticks : Nat) : m.step ticks = m := by
  unfold step
  rw [stepTraced_of_not_ok h]

/-! ## A load -/

/-- **A load in full**: what a reset leaves, at the start of the program area and with the program in memory if it
fits. -/
theorem load_eq (m : Machine) (program : List UInt8) :
    m.load program = { m.reset with
      pc := UInt16.ofNat programStart
      memory := .image m.config.font (if program.length ≤ programCapacity then program else [])
      status := if program.length ≤ programCapacity then .ok else .halted (.programTooBig program.length) } := by
  unfold load loadTraced
  by_cases hp : program.length ≤ programCapacity
  · simp only [hp, ↓reduceIte]
    rfl
  · simp only [hp, ↓reduceIte]
    rfl

end Machine

end Chip8
