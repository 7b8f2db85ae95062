import Mathlib
import Chip8.Proofs.Dialects
/-!
# Transfer — blocks of registers and digits, also where they leave memory

Three instructions move a block of bytes between the registers and the memory at the index: `FX55` writes the registers
up to `VX`, `FX65` reads them, and `FX33` writes the decimal digits of `VX`.  A block that reaches past the end of
memory stops the machine, but its bytes before that have been moved.  Here a step of the three is told byte by byte
(`WritesBlock`, `ReadsBlock`) together with all that it leaves alone (`EndsBlock`), and what follows for one of them
after another: registers that were written are read again, and memory that was read is written as it was
(`step_of_transfer`).
-/
namespace Chip8

/-! ## Bytes of a block -/

namespace Memory

theorem ext_byte {m m' : Memory} (h : ∀ a < memorySize, m.byte a = m'.byte a) : m = m' := by
  refine Vector.ext fun a ha => ?_
  have hbyte := h a ha
  unfold byte at hbyte
  rwa [Vector.getElem?_eq_getElem ha, Vector.getElem?_eq_getElem ha] at hbyte

theorem byte_store (m : Memory) (start : Nat) (bytes : List UInt8) {a : Nat} (ha : a < memorySize) :
    (m.store start bytes).byte a =
      if start ≤ a ∧ a < start + bytes.length then bytes[a - start]?.getD 0 else m.byte a := by
  unfold byte
  rw [getElem?_store]
  by_cases h : start ≤ a ∧ a < start + bytes.length
  · rw [if_pos ⟨h.1, h.2, ha⟩, if_pos h]
  · rw [if_neg fun hin => h ⟨hin.1, hin.2.1⟩, if_neg h]

end Memory

namespace Registers

theorem length_upTo (r : Registers) (x : Register) : (r.upTo x).length = x.val + 1 := by
  have hx : x.val < 16 := x.isLt
  unfold upTo
  rw [List.length_take, Vector.length_toList]
  omega

theorem getD_upTo (r : Registers) {x : Register} {k : Nat} (hk : k ≤ x.val) :
    (r.upTo x)[k]?.getD 0 = r.read (.ofNat k) := by
  have hlt : k < 16 := Nat.lt_of_le_of_lt hk x.isLt
  have hofNat : (Nibble.ofNat k).val = k := Nat.mod_eq_of_lt hlt
  unfold upTo read
  rw [List.getElem?_take_of_lt (Nat.lt_succ_of_le hk), Vector.getElem?_toList, Vector.getElem?_eq_getElem hlt,
    Option.getD_some, Fin.getElem_fin]
  simp only [hofNat]

end Registers

namespace Pattern

/-- `FX33`. -/
abbrev storesDecimal : Pattern := [some 0xf, none, some 0x3, some 0x3]

/-- `FX55`. -/
abbrev storesRegisters : Pattern := [some 0xf, none, some 0x5, some 0x5]

/-- `FX65`. -/
abbrev loadsRegisters : Pattern := [some 0xf, none, some 0x6, some 0x5]

end Pattern

open Pattern

namespace Machine

/-! ## What a transfer does -/

/-- The machine `after` has these `n` bytes in memory, from the index of `m` on and as far as memory goes; the other
bytes and the registers are as they were. -/
structure WritesBlock (m after : Machine) (n : Nat) (bytes : Nat → UInt8) : Prop where
  registers : after.registers = m.registers
  memory : ∀ a < 4096, after.memory.byte a =
    if m.index.toNat ≤ a ∧ a < m.index.toNat + n then bytes (a - m.index.toNat) else m.memory.byte a

/-- The machine `after` has in its first `n` registers the bytes of memory from the index of `m` on, as far as memory
goes; the other registers and the memory are as they were. -/
structure ReadsBlock (m after : Machine) (n : Nat) : Prop where
  memory : after.memory = m.memory
  registers : ∀ j : Register, after.register j =
    if j.val < n ∧ m.index.toNat + j.val < 4096 then m.memory.byte (m.index.toNat + j.val) else m.register j

/-- The machine `after` differs from `m` when the ticks have passed by registers and memory, and otherwise as far as a
block of `n` bytes at the index allows: if it lies in memory, then by the index and by going on, and if not, then by
having stopped. -/
structure EndsBlock (m after : Machine) (ticks n : Nat) : Prop where
  inside : m.index.toNat + n ≤ 4096 → after = { m.elapse ticks with
    registers := after.registers
    memory := after.memory
    index := after.index
    pc := movedPc m.pc 2
    status := (moveFault? m.pc 2).elim .ok .halted }
  outside : 4096 < m.index.toNat + n → after = { m.elapse ticks with
    registers := after.registers
    memory := after.memory
    status := .halted (.outOfBounds (max m.index.toNat 4096)) }

section

variable {m : Machine}

theorem EndsBlock.of_eq {after : Machine} {ticks n : Nat} (ok : m.status = .ok) (hn : n ≠ 0)
    (h : after = { m.elapse ticks with
      registers := after.registers
      memory := after.memory
      index := after.index
      pc := if (blockFault? m.index n).isSome then m.pc else movedPc m.pc 2
      status := ((blockFault? m.index n).or (moveFault? m.pc 2)).elim m.status .halted })
    (hindex : (blockFault? m.index n).isSome → after.index = m.index) : EndsBlock m after ticks n where
  inside hfits := by
    have hnone : blockFault? m.index n = none := (blockFault?_eq ..).trans (if_pos (Or.inr hfits))
    rw [hnone, ok] at h
    exact h
  outside hout := by
    have hsome : blockFault? m.index n = some (.outOfBounds (max m.index.toNat memorySize)) :=
      (blockFault?_eq ..).trans (if_neg (not_or.2 ⟨hn, Nat.not_le.2 hout⟩))
    rw [hindex (by rw [hsome]; rfl), hsome] at h
    exact h

theorem EndsBlock.stops {after : Machine} {ticks n : Nat} (h : EndsBlock m after ticks n)
    (hout : 4096 < m.index.toNat + n) :
    after.status = .halted (.outOfBounds (max m.index.toNat 4096)) ∧ after.index = m.index := by
  rw [h.outside hout]
  exact ⟨rfl, rfl⟩

/-! ### The three instructions -/

section

variable (h : m.Executes storesRegisters) (ticks : Nat)
include h

theorem endsBlock_of_storesRegisters : EndsBlock m (m.step ticks) ticks (m.currentX.val + 1) := by
  rw [step_eq_after h.1 (upcoming?_of_device h)]
  exact .of_eq h.1 (Nat.succ_ne_zero _) rfl fun hout => if_pos hout

theorem writesBlock_of_storesRegisters :
    WritesBlock m (m.step ticks) (m.currentX.val + 1) fun k => m.register (.ofNat k) := by
  rw [step_eq_after h.1 (upcoming?_of_device h)]
  refine ⟨rfl, fun a ha => ?_⟩
  show (m.memory.store m.index.toNat (m.registers.upTo m.currentX)).byte a = _
  rw [Memory.byte_store _ _ _ ha, Registers.length_upTo]
  by_cases hin : m.index.toNat ≤ a ∧ a < m.index.toNat + (m.currentX.val + 1)
  · rw [if_pos hin, if_pos hin, Registers.getD_upTo _ (by omega)]
    rfl
  · rw [if_neg hin, if_neg hin]

end

section

variable (h : m.Executes loadsRegisters) (ticks : Nat)
include h

theorem endsBlock_of_loadsRegisters : EndsBlock m (m.step ticks) ticks (m.currentX.val + 1) := by
  rw [step_eq_after h.1 (upcoming?_of_device h)]
  exact .of_eq h.1 (Nat.succ_ne_zero _) rfl fun hout => if_pos hout

theorem readsBlock_of_loadsRegisters : ReadsBlock m (m.step ticks) (m.currentX.val + 1) := by
  rw [step_eq_after h.1 (upcoming?_of_device h)]
  refine ⟨rfl, fun j => ?_⟩
  show (m.registers.overwrite (m.memory.load m.index.toNat (m.currentX.val + 1))).read j = _
  rw [Registers.read_overwrite, Memory.getElem?_load]
  split <;> rfl

end

section

variable (h : m.Executes storesDecimal) (ticks : Nat)
include h

theorem endsBlock_of_storesDecimal : EndsBlock m (m.step ticks) ticks 3 := by
  rw [step_eq_after h.1 (upcoming?_of_device h)]
  exact .of_eq h.1 (by decide) rfl fun _ => rfl

theorem index_of_storesDecimal : (m.step ticks).index = m.index := by
  rw [step_eq_after h.1 (upcoming?_of_device h)]
  rfl

theorem writesBlock_of_storesDecimal :
    WritesBlock m (m.step ticks) 3 fun k => (decimalDigits (m.register m.currentX))[k]?.getD 0 := by
  rw [step_eq_after h.1 (upcoming?_of_device h)]
  exact ⟨rfl, fun a ha => Memory.byte_store _ _ _ ha⟩

end

/-! ### What a block says of the machine -/

theorem WritesBlock.memory_of_le {after : Machine} {n : Nat} {bytes : Nat → UInt8} (h : WritesBlock m after n bytes)
    (hout : 4096 ≤ m.index.toNat) : after.memory = m.memory :=
  Memory.ext_byte fun a ha => (h.memory a ha).trans (if_neg fun hin => absurd (hout.trans hin.1) (Nat.not_le.2 ha))

theorem ReadsBlock.registers_of_le {after : Machine} {n : Nat} (h : ReadsBlock m after n)
    (hout : 4096 ≤ m.index.toNat) : after.registers = m.registers :=
  Vector.ext fun j hj => (h.registers ⟨j, hj⟩).trans (if_neg fun hin => by omega)

theorem WritesBlock.byte {after : Machine} {n k : Nat} {bytes : Nat → UInt8} (h : WritesBlock m after n bytes)
    (hk : k < n) (hin : m.index.toNat + k < 4096) : after.memory.byte (m.index.toNat + k) = bytes k := by
  rw [h.memory _ hin, if_pos (by omega), Nat.add_sub_cancel_left]

end

theorem toNat_decimalDigits (v : UInt8) : ∃ d₀ d₁ d₂ : UInt8, d₀.toNat ≤ 9 ∧ d₁.toNat ≤ 9 ∧ d₂.toNat ≤ 9 ∧
    100 * d₀.toNat + 10 * d₁.toNat + d₂.toNat = v.toNat ∧ decimalDigits v = [d₀, d₁, d₂] := by
  have hv : v.toNat < 256 := v.toNat_lt
  have h₀ : (v / 100).toNat = v.toNat / 100 := UInt8.toNat_div ..
  have h₁ : (v / 10 % 10).toNat = v.toNat / 10 % 10 :=
    (UInt8.toNat_mod ..).trans (congrArg (· % 10) (UInt8.toNat_div ..))
  have h₂ : (v % 10).toNat = v.toNat % 10 := UInt8.toNat_mod ..
  exact ⟨v / 100, v / 10 % 10, v % 10, by omega, by omega, by omega, by omega, rfl⟩

/-- **Registers that were written are read again.** -/
theorem register_of_reads_after_writes {m m' n n' : Machine} {size : Nat}
    (hw : WritesBlock m m' size fun k => m.register (.ofNat k)) (hr : ReadsBlock n n' size)
    (hindex : n.index = m.index) (hin : m.index.toNat + size ≤ 4096)
    (hblock : ∀ k < size, n.memory.byte (m.index.toNat + k) = m'.memory.byte (m.index.toNat + k))
    {j : Register} (hj : j.val < size) : n'.register j = m.register j := by
  have hofNat : Nibble.ofNat j.val = j := Fin.ext (Nat.mod_eq_of_lt j.isLt)
  rw [hr.registers j, hindex, if_pos ⟨hj, by omega⟩, hblock j.val hj, hw.byte hj (by omega), hofNat]

/-- **Memory that was read is written as it was.** -/
theorem memory_of_writes_after_reads {m m' n n' : Machine} {x : Register} (hr : ReadsBlock m m' (x.val + 1))
    (hw : WritesBlock n n' (x.val + 1) fun k => n.register (.ofNat k)) (hindex : n.index = m.index)
    (hregisters : ∀ j ≤ x, n.register j = m'.register j)
    (hblock : ∀ k ≤ x.val, n.memory.byte (m.index.toNat + k) = m.memory.byte (m.index.toNat + k)) :
    n'.memory = n.memory := by
  refine Memory.ext_byte fun a ha => ?_
  rw [hw.memory a ha, hindex]
  by_cases hin : m.index.toNat ≤ a ∧ a < m.index.toNat + (x.val + 1)
  · have hx : x.val < 16 := x.isLt
    have hofNat : (Nibble.ofNat (a - m.index.toNat)).val = a - m.index.toNat :=
      Nat.mod_eq_of_lt (show a - m.index.toNat < 16 by omega)
    have haddress : m.index.toNat + (a - m.index.toNat) = a := by omega
    have hbyte := hblock (a - m.index.toNat) (by omega)
    rw [haddress] at hbyte
    -- the register that is written here has the byte that was read from here
    rw [if_pos hin, hregisters _ (Fin.le_def.2 (by omega)), hr.registers, hofNat, haddress, if_pos ⟨by omega, ha⟩,
      hbyte]
  · rw [if_neg hin]

/-- **Transfers of blocks.**  `FX55` writes the registers up to `VX` to memory, `FX65` reads them, and `FX33` writes
three digits that make up the value of `VX`, all from the index on and as far as memory goes.  A block of registers that
lies in memory is passed by the index in the dialect that says so; one that does not stops the machine and leaves the
index.  So registers that `FX55` wrote are read again by an `FX65` of the same block, whatever was done to the registers
in between, and an `FX55` of the registers that `FX65` read leaves memory as it was. -/
theorem step_of_transfer (m : Machine) (ticks : Nat) :
    let after := m.step ticks
    let i := m.index.toNat
    let x := m.currentX.val
    (m.Executes storesRegisters →
      EndsBlock m after ticks (x + 1) ∧ WritesBlock m after (x + 1) fun k => m.register (.ofNat k)) ∧
    (m.Executes loadsRegisters → EndsBlock m after ticks (x + 1) ∧ ReadsBlock m after (x + 1)) ∧
    (m.Executes storesDecimal →
      EndsBlock m after ticks 3 ∧ after.index = m.index ∧
      ∃ d₀ d₁ d₂ : UInt8, d₀.toNat ≤ 9 ∧ d₁.toNat ≤ 9 ∧ d₂.toNat ≤ 9 ∧
        100 * d₀.toNat + 10 * d₁.toNat + d₂.toNat = (m.register m.currentX).toNat ∧
        WritesBlock m after 3 fun k => [d₀, d₁, d₂][k]?.getD 0) ∧
    (m.Executes storesRegisters ∨ m.Executes loadsRegisters → i + x < 4096 →
      (m.config.dialect.transfer = .advanced → after.index.toNat = i + x + 1) ∧
      (m.config.dialect.transfer = .restored → after.index = m.index)) ∧
    (m.Executes storesRegisters ∨ m.Executes loadsRegisters ∨ m.Executes storesDecimal → 4096 ≤ i →
      after.registers = m.registers ∧ after.memory = m.memory) ∧
    (m.Executes storesRegisters → i + x < 4096 → ∀ (n : Machine) (ticks' : Nat),
      n.Executes loadsRegisters → n.index = m.index → n.currentX = m.currentX →
      (∀ k ≤ x, n.memory.byte (i + k) = after.memory.byte (i + k)) →
      ∀ j ≤ m.currentX, (n.step ticks').register j = m.register j) ∧
    (m.Executes loadsRegisters → i + x < 4096 → ∀ (n : Machine) (ticks' : Nat),
      n.Executes storesRegisters → n.index = m.index → n.currentX = m.currentX →
      (∀ j ≤ m.currentX, n.register j = after.register j) →
      (∀ k ≤ x, n.memory.byte (i + k) = after.memory.byte (i + k)) →
      (n.step ticks').memory = n.memory) := by
  intro after i x
  refine ⟨fun h => ⟨endsBlock_of_storesRegisters h ticks, writesBlock_of_storesRegisters h ticks⟩,
    fun h => ⟨endsBlock_of_loadsRegisters h ticks, readsBlock_of_loadsRegisters h ticks⟩,
    fun h => ?decimal, fun h hin => ?index, fun h hout => ?outside,
    fun h hin n ticks' h' hindex hx hblock j hj => ?readAgain,
    fun h hin n ticks' h' hindex hx hregisters hblock => ?writtenAgain⟩
  case decimal =>
    obtain ⟨d₀, d₁, d₂, h₀, h₁, h₂, hsum, hdigits⟩ := toNat_decimalDigits (m.register m.currentX)
    have hwrites := writesBlock_of_storesDecimal h ticks
    rw [hdigits] at hwrites
    exact ⟨endsBlock_of_storesDecimal h ticks, index_of_storesDecimal h ticks, d₀, d₁, d₂, h₀, h₁, h₂, hsum, hwrites⟩
  case index =>
    have hindex : after.index = m.config.dialect.transfer.pass m.index (x + 1) := index_step_of_transfer h hin ticks
    rw [hindex]
    refine ⟨fun hadvanced => ?_, fun hrestored => by rw [hrestored]; rfl⟩
    rw [hadvanced]
    exact UInt16.toNat_ofNat_of_lt' (show i + (x + 1) < 65536 by omega)
  case outside =>
    rcases h with h | h | h
    · have hwrites := writesBlock_of_storesRegisters h ticks
      exact ⟨hwrites.registers, hwrites.memory_of_le hout⟩
    · have hreads := readsBlock_of_loadsRegisters h ticks
      exact ⟨hreads.registers_of_le hout, hreads.memory⟩
    · have hwrites := writesBlock_of_storesDecimal h ticks
      exact ⟨hwrites.registers, hwrites.memory_of_le hout⟩
  case readAgain =>
    have hreads := readsBlock_of_loadsRegisters h' ticks'
    rw [hx] at hreads
    exact register_of_reads_after_writes (writesBlock_of_storesRegisters h ticks) hreads hindex (by omega)
      (fun k hk => hblock k (Nat.le_of_lt_succ hk)) (Nat.lt_succ_of_le hj)
  case writtenAgain =>
    have hreads := readsBlock_of_loadsRegisters h ticks
    have hwrites := writesBlock_of_storesRegisters h' ticks'
    rw [hx] at hwrites
    exact memory_of_writes_after_reads hreads hwrites hindex hregisters fun k hk => by rw [← hreads.memory, hblock k hk]

/-- A machine that is to write three registers to the last two bytes of memory, and past them. -/
def storingPastMemory : Machine :=
  (build {} (Vector.replicate 8 0)).run
    (.load [0x60, 0x07, 0x61, 0x09, 0x62, 0x0B, 0xAF, 0xFE, 0xF2, 0x55] :: List.replicate 4 (.step 0))

/-- A machine that has taken this many steps of a program that writes a register to memory, sets it to zero, and reads
it again. -/
def savingRegister (steps : Nat) : Machine :=
  (build {} (Vector.replicate 8 0)).run
    (.load [0x60, 0x07, 0xA3, 0x00, 0xF0, 0x55, 0x60, 0x00, 0xA3, 0x00, 0xF0, 0x65] :: List.replicate steps (.step 0))

/-- Two of the three registers are written before the machine stops, and the index stays; the register that was set to
zero has its value again. -/
theorem step_of_transfer_past_memory :
    ((storingPastMemory.step 0).status = .halted (.outOfBounds 0x1000) ∧
      (storingPastMemory.step 0).memory.byte 0xFFE = 7 ∧ (storingPastMemory.step 0).memory.byte 0xFFF = 9 ∧
      (storingPastMemory.step 0).index = 0xFFE) ∧
    ((savingRegister 2).step 0).index.toNat = 0x301 ∧
    (savingRegister 5).register 0 = 0 ∧ ((savingRegister 5).step 0).register 0 = 7 := by
  obtain ⟨hstores, hout, hmax, hindex⟩ : storingPastMemory.Executes storesRegisters ∧
      4096 < storingPastMemory.index.toNat + (storingPastMemory.currentX.val + 1) ∧
      max storingPastMemory.index.toNat 4096 = 0x1000 ∧ storingPastMemory.index = 0xFFE := by decide +kernel
  obtain ⟨hin₀, hin₁, h₀, h₁⟩ : (storingPastMemory.index.toNat ≤ 0xFFE ∧
        0xFFE < storingPastMemory.index.toNat + (storingPastMemory.currentX.val + 1)) ∧
      (storingPastMemory.index.toNat ≤ 0xFFF ∧
        0xFFF < storingPastMemory.index.toNat + (storingPastMemory.currentX.val + 1)) ∧
      storingPastMemory.register (.ofNat (0xFFE - storingPastMemory.index.toNat)) = 7 ∧
      storingPastMemory.register (.ofNat (0xFFF - storingPastMemory.index.toNat)) = 9 := by decide +kernel
  obtain ⟨hsaves, hfits, hadvanced, hpassed, hvalue⟩ : (savingRegister 2).Executes storesRegisters ∧
      (savingRegister 2).index.toNat + (savingRegister 2).currentX.val < 4096 ∧
      (savingRegister 2).config.dialect.transfer = .advanced ∧
      (savingRegister 2).index.toNat + (savingRegister 2).currentX.val + 1 = 0x301 ∧
      (savingRegister 2).register 0 = 7 := by decide +kernel
  obtain ⟨hloads, hsame, hsame', hblock, hzero⟩ : (savingRegister 5).Executes loadsRegisters ∧
      (savingRegister 5).index = (savingRegister 2).index ∧ (savingRegister 5).currentX = (savingRegister 2).currentX ∧
      (∀ k ≤ (savingRegister 2).currentX.val, (savingRegister 5).memory.byte ((savingRegister 2).index.toNat + k) =
        ((savingRegister 2).step 0).memory.byte ((savingRegister 2).index.toNat + k)) ∧
      (savingRegister 5).register 0 = 0 := by
    decide +kernel
  obtain ⟨hends, hwrites⟩ := (step_of_transfer storingPastMemory 0).1 hstores
  obtain ⟨-, -, -, hpasses, -, hread, -⟩ := step_of_transfer (savingRegister 2) 0
  have hstopped := hends.stops hout
  refine ⟨⟨hmax ▸ hstopped.1, (hwrites.memory 0xFFE (by decide)).trans ((if_pos hin₀).trans h₀),
    (hwrites.memory 0xFFF (by decide)).trans ((if_pos hin₁).trans h₁), hstopped.2.trans hindex⟩,
    ((hpasses (Or.inl hsaves) hfits).1 hadvanced).trans hpassed, hzero,
    (hread hsaves hfits _ 0 hloads hsame hsame' hblock 0 (Fin.zero_le _)).trans hvalue⟩

end Machine

end Chip8
