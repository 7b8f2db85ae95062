import Mathlib
import Chip8.Proofs.Calls
import Chip8.Proofs.Words
/-!
# Flow — where a machine goes on

Most instructions go on to the next word, and a skip whose condition holds goes on to the one behind that.  Jumps, calls
and returns go on elsewhere, and a wait for a key stays where it is until it is done.  Where a step goes on is written
down here by the digits of its word and by what it finds in the machine (`successor`), and every step that leaves the
machine running goes there.  Skips come in pairs that ask the opposite of each other, and of each pair exactly one skips
(`pc_of_step`).
-/
namespace Chip8
namespace Machine

/-- The address at which a step of the word at the program counter goes on. -/
def successor (m : Machine) : Nat :=
  let w := m.currentWord
  if fits w [some 0x1, none, none, none] || fits w [some 0x2, none, none, none] then w.toNat % 0x1000
  else if fits w [some 0xb, none, none, none] then w.toNat % 0x1000 + (m.register .offset).toNat
  else if fits w [some 0x0, some 0x0, some 0xe, some 0xe] then m.stack.head?.elim 0 (·.toNat + 2)
  else if fits w [some 0xf, none, some 0x0, some 0xa] && !m.waitEnds then m.pc.toNat
  else m.pc.toNat + if m.skips then 4 else 2

/-- Whether two words are skips with the same operands that ask the opposite: `3XNN` and `4XNN`, `5XY0` and `9XY0`, or
`EX9E` and `EXA1`. -/
def OppositeSkips (w w' : UInt16) : Prop :=
  (∃ (x : Register) (nn : UInt8),
    digits w = 0x3 :: x.val :: byteDigits nn ∧ digits w' = 0x4 :: x.val :: byteDigits nn) ∨
  (∃ x y : Register, digits w = [0x5, x.val, y.val, 0x0] ∧ digits w' = [0x9, x.val, y.val, 0x0]) ∨
  ∃ x : Register, digits w = [0xe, x.val, 0x9, 0xe] ∧ digits w' = [0xe, x.val, 0xa, 0x1]

/-! ## One instruction -/

theorem address_of_digits {word : UInt16} {a : Nat} {nnn : Address} (h : digits word = a :: addressDigits nnn) :
    word.toNat % 0x1000 = nnn.val := by
  have hlt : nnn.val < 4096 := nnn.isLt
  unfold digits addressDigits at h
  simp only [List.cons.injEq, and_true] at h
  omega

theorem toNat_ofNat_address (nnn : Address) : (UInt16.ofNat nnn.val).toNat = nnn.val :=
  UInt16.toNat_ofNat_of_lt' (Nat.lt_trans nnn.isLt (by decide))

theorem toNat_pc_of_block {m : Machine} {n distance : Nat}
    (hf : (blockFault? m.index n).or (moveFault? m.pc distance) = none) :
    (if (blockFault? m.index n).isSome then m.pc else movedPc m.pc distance).toNat = m.pc.toNat + distance := by
  obtain ⟨hblock, hmove⟩ := Option.or_eq_none_iff.1 hf
  rw [hblock]
  exact toNat_movedPc hmove

/-- **An instruction that meets no fault** goes on at the successor. -/
theorem toNat_pcAfter {m : Machine} {i : Instruction} (h : Instruction.decode? m.currentWord = some i)
    (hf : m.faultOf? i = none) : (m.pcAfter i).toNat = m.successor := by
  have hd := digits_of_decode? h
  have htarget : m.pc.toNat + (if m.skips then 4 else 2) = m.pc.toNat + m.distance i := target_of_decode? h
  unfold successor
  -- each case keeps the place that its digits fit
  simp only [fits_of_decode? h, htarget, Bool.and_eq_true, Bool.or_eq_true]
  cases i <;> simp only [Instruction.digits, addressDigits, byteDigits, Pattern.fits, Option.all_some, Option.all_none,
    Nat.reduceBEq, BEq.rfl, Bool.and_self, Bool.and_true, Bool.true_and, Bool.and_false, Bool.false_and,
    Bool.false_eq_true, false_and, true_and, or_self, or_false, or_true, ↓reduceIte]
  case machineRoutine nnn => exact absurd hf (Option.some_ne_none _)
  case returnFromCall =>
    rw [faultOf?_returnFromCall] at hf
    rw [pcAfter_returnFromCall]
    cases hs : m.stack.head? with
    | none => rw [hs] at hf; exact absurd hf (Option.some_ne_none _)
    | some caller => rw [hs] at hf; exact toNat_movedPc hf
  case jump nnn => exact (toNat_ofNat_address nnn).trans (address_of_digits hd).symm
  case call nnn =>
    rw [faultOf?_call] at hf
    have hl : m.stack.length < stackLimit := by
      by_contra hl
      rw [if_neg hl] at hf
      exact absurd hf (Option.some_ne_none _)
    rw [pcAfter_call, if_pos hl, toNat_ofNat_address, address_of_digits hd]
  case jumpOffset nnn =>
    have hnnn : nnn.val < 4096 := nnn.isLt
    have hbyte : (m.register .offset).toNat < 256 := (m.register .offset).toNat_lt
    have hlt : nnn.val + (m.register .offset).toNat < 65536 := by omega
    rw [pcAfter_jumpOffset, address_of_digits hd, UInt16.toNat_ofNat_of_lt' hlt]
  case skip condition =>
    have hskip : (m.pcAfter (.skip condition)).toNat = m.pc.toNat + m.distance (.skip condition) :=
      toNat_pc_of_block (n := 0) hf
    simpa [fits_skip] using hskip
  case waitKey x =>
    rw [faultOf?_waitKey] at hf
    rw [pcAfter_waitKey]
    cases hw : m.waitEnds with
    | false => rfl
    | true =>
      rw [hw] at hf
      exact toNat_movedPc hf
  all_goals exact toNat_pc_of_block hf

/-- **A step that leaves the machine running** goes on at the successor. -/
theorem toNat_pc_step {m : Machine} (ok : m.status = .ok) {ticks : Nat} (h : (m.step ticks).status = .ok) :
    (m.step ticks).pc.toNat = m.successor := by
  cases hu : m.upcoming? with
  | none =>
    rw [step_of_missing ok hu] at h
    exact nomatch h
  | some i =>
    rw [(controls_step ok hu ticks).1]
    exact toNat_pcAfter (upcoming?_eq_some_iff.1 hu).2 ((ok_step_iff ok hu ticks).1 h)

/-! ## Skips -/

section

variable {m : Machine}

theorem skips_of_opposite {m' : Machine} (hregisters : m'.registers = m.registers) (hkeypad : m'.keypad = m.keypad)
    (h : OppositeSkips m.currentWord m'.currentWord) : m'.skips = !m.skips := by
  rcases h with ⟨x, nn, h, h'⟩ | ⟨x, y, h, h'⟩ | ⟨x, h, h'⟩
  · rw [skips_of_digits (.equalsByte x nn) h, skips_of_digits (.differsByte x nn) h', hregisters]
    exact decide_not
  · rw [skips_of_digits (.equals x y) h, skips_of_digits (.differs x y) h', hregisters]
    exact decide_not
  · rw [skips_of_digits (.keyDown x) h, skips_of_digits (.keyUp x) h', hregisters, hkeypad]
    rfl

theorem digits_of_fits {a c d : Nat} (h : fits m.currentWord [some a, none, some c, some d] = true) :
    digits m.currentWord = [a, m.currentX.val, c, d] := by
  obtain ⟨ha, -, hc, hd⟩ := fits_iff.1 h
  unfold digits
  rw [ha a rfl, hc c rfl, hd d rfl]
  rfl

theorem skips_of_keyDown (h : fits m.currentWord [some 0xe, none, some 0x9, some 0xe] = true) :
    m.skips = m.keypad.isDown (m.register m.currentX) :=
  skips_of_digits (.keyDown m.currentX) (digits_of_fits h)

theorem skips_of_keyUp (h : fits m.currentWord [some 0xe, none, some 0xa, some 0x1] = true) :
    m.skips = !m.keypad.isDown (m.register m.currentX) :=
  skips_of_digits (.keyUp m.currentX) (digits_of_fits h)

end

/-- **Where a machine goes on.**  Every step that leaves a machine running goes on at the successor that the machine had
before it.  In machines with the same registers and keys, exactly one of two skips that ask the opposite skips.  A skip
on a key looks for one of the sixteen, so a register of sixteen and more finds none that is down. -/
theorem pc_of_step (m : Machine) :
    let vx := (m.register m.currentX).toNat
    let isDown := ∃ key : Fin keyCount, key.val = vx ∧ m.keypad.holds key = true
    (m.status = .ok → ∀ ticks, (m.step ticks).status = .ok → (m.step ticks).pc.toNat = m.successor) ∧
    (∀ m' : Machine, m'.registers = m.registers → m'.keypad = m.keypad →
      OppositeSkips m.currentWord m'.currentWord → m'.skips = !m.skips) ∧
    (fits m.currentWord [some 0xe, none, some 0x9, some 0xe] = true → (m.skips = true ↔ isDown)) ∧
    (fits m.currentWord [some 0xe, none, some 0xa, some 0x1] = true → (m.skips = true ↔ ¬isDown)) ∧
    (16 ≤ vx →
      (fits m.currentWord [some 0xe, none, some 0x9, some 0xe] = true → m.skips = false) ∧
      (fits m.currentWord [some 0xe, none, some 0xa, some 0x1] = true → m.skips = true)) := by
  intro vx isDown
  have hdown : m.keypad.isDown (m.register m.currentX) = true ↔ isDown := Keypad.isDown_iff ..
  refine ⟨fun ok ticks h => toNat_pc_step ok h, fun m' hregisters hkeypad h => skips_of_opposite hregisters hkeypad h,
    fun h => ?_, fun h => ?_, fun hle => ⟨fun h => ?_, fun h => ?_⟩⟩
  · rw [skips_of_keyDown h, hdown]
  · rw [skips_of_keyUp h, Bool.not_eq_true', ← hdown, Bool.not_eq_true]
  · rw [skips_of_keyDown h, Keypad.isDown_of_le hle]
  · rw [skips_of_keyUp h, Keypad.isDown_of_le hle]
    rfl

/-- A machine that has taken this many steps of a program that puts 255 into `V0`, asks for the key of that number with
a word that ends in this byte, and jumps from `0xFFF` on by `V0`. -/
def askingBeyondKeys (last : UInt8) (steps : Nat) : Machine :=
  (build {} (Vector.replicate 8 0)).run
    (.load [0x60, 0xFF, 0xE0, last, 0x00, 0x00, 0xBF, 0xFF] :: List.replicate steps (.step 0))

/-- No key of the number 255 is down, so the skip for a key that is up skips and its opposite does not, and the jump
leaves the memory. -/
theorem pc_of_step_beyond_keys :
    (askingBeyondKeys 0xA1 1).skips = true ∧ (askingBeyondKeys 0x9E 1).skips = false ∧
    ((askingBeyondKeys 0xA1 1).step 0).pc.toNat = 0x206 ∧ ((askingBeyondKeys 0xA1 2).step 0).pc.toNat = 0x10FE := by
  obtain ⟨hregister, hup, hok, hok', htarget⟩ : 16 ≤ ((askingBeyondKeys 0xA1 1).register
        (askingBeyondKeys 0xA1 1).currentX).toNat ∧
      fits (askingBeyondKeys 0xA1 1).currentWord [some 0xe, none, some 0xa, some 0x1] = true ∧
      (askingBeyondKeys 0xA1 1).status = .ok ∧ ((askingBeyondKeys 0xA1 1).step 0).status = .ok ∧
      (askingBeyondKeys 0xA1 1).successor = 0x206 := by decide +kernel
  obtain ⟨hok₂, hok₂', htarget₂⟩ : (askingBeyondKeys 0xA1 2).status = .ok ∧
      ((askingBeyondKeys 0xA1 2).step 0).status = .ok ∧
      (askingBeyondKeys 0xA1 2).successor = 0x10FE := by decide +kernel
  obtain ⟨hregisters, hkeypad, hdown, hup'⟩ :
      (askingBeyondKeys 0xA1 1).registers = (askingBeyondKeys 0x9E 1).registers ∧
      (askingBeyondKeys 0xA1 1).keypad = (askingBeyondKeys 0x9E 1).keypad ∧
      digits (askingBeyondKeys 0x9E 1).currentWord = [0xe, 0, 0x9, 0xe] ∧
      digits (askingBeyondKeys 0xA1 1).currentWord = [0xe, 0, 0xa, 0x1] := by decide +kernel
  have hskips := ((pc_of_step (askingBeyondKeys 0xA1 1)).2.2.2.2 hregister).2 hup
  have hopposite := (pc_of_step (askingBeyondKeys 0x9E 1)).2.1 _ hregisters hkeypad (Or.inr (Or.inr ⟨0, hdown, hup'⟩))
  rw [hskips] at hopposite
  exact ⟨hskips, Bool.not_inj hopposite.symm,
    ((pc_of_step (askingBeyondKeys 0xA1 1)).1 hok 0 hok').trans htarget,
    ((pc_of_step (askingBeyondKeys 0xA1 2)).1 hok₂ 0 hok₂').trans htarget₂⟩

end Machine

end Chip8
