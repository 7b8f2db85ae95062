import Mathlib
import Chip8.Instruction.Decode
/-!
# Opcode — the words of instructions, by their digits

A word has four hexadecimal digits.  Decoding takes it apart by division; here an instruction's digits are written down
the way its opcode is, operands included, and a word that decodes has the digits of its instruction
(`digits_of_decode?`).  A *pattern* names the digits that are fixed and leaves the others open.  The words that decode
are those that fit one of the patterns of the instruction set, and the routines of the host from `0x100` on
(`isSome_decode?`).
-/
namespace Chip8

def digits (word : UInt16) : List Nat :=
  [word.toNat / 0x1000, word.toNat / 0x100 % 0x10, word.toNat / 0x10 % 0x10, word.toNat % 0x10]

def Operator.digit : Operator → Nat
  | copy => 0x0
  | or => 0x1
  | and => 0x2
  | xor => 0x3
  | add => 0x4
  | sub => 0x5
  | shiftRight => 0x6
  | subFrom => 0x7
  | shiftLeft => 0xe

def byteDigits (nn : UInt8) : List Nat :=
  [nn.toNat / 0x10, nn.toNat % 0x10]

def addressDigits (nnn : Address) : List Nat :=
  [nnn.val / 0x100, nnn.val / 0x10 % 0x10, nnn.val % 0x10]

def Condition.digits : Condition → List Nat
  | equalsByte x nn => 0x3 :: x.val :: byteDigits nn
  | differsByte x nn => 0x4 :: x.val :: byteDigits nn
  | equals x y => [0x5, x.val, y.val, 0x0]
  | differs x y => [0x9, x.val, y.val, 0x0]
  | keyDown x => [0xe, x.val, 0x9, 0xe]
  | keyUp x => [0xe, x.val, 0xa, 0x1]

namespace Instruction

def digits : Instruction → List Nat
  | machineRoutine nnn => 0x0 :: addressDigits nnn
  | clearScreen => [0x0, 0x0, 0xe, 0x0]
  | returnFromCall => [0x0, 0x0, 0xe, 0xe]
  | jump nnn => 0x1 :: addressDigits nnn
  | call nnn => 0x2 :: addressDigits nnn
  | jumpOffset nnn => 0xb :: addressDigits nnn
  | skip condition => condition.digits
  | setByte x nn => 0x6 :: x.val :: byteDigits nn
  | addByte x nn => 0x7 :: x.val :: byteDigits nn
  | combine op x y => [0x8, x.val, y.val, op.digit]
  | setIndex nnn => 0xa :: addressDigits nnn
  | random x nn => 0xc :: x.val :: byteDigits nn
  | draw x y n => [0xd, x.val, y.val, n.val]
  | readDelay x => [0xf, x.val, 0x0, 0x7]
  | waitKey x => [0xf, x.val, 0x0, 0xa]
  | setDelay x => [0xf, x.val, 0x1, 0x5]
  | setSound x => [0xf, x.val, 0x1, 0x8]
  | addIndex x => [0xf, x.val, 0x1, 0xe]
  | fontGlyph x => [0xf, x.val, 0x2, 0x9]
  | storeDecimal x => [0xf, x.val, 0x3, 0x3]
  | storeRegisters x => [0xf, x.val, 0x5, 0x5]
  | loadRegisters x => [0xf, x.val, 0x6, 0x5]

end Instruction

/-! ## Decoding by digits -/

section

variable {word : UInt16} {a : Nat}

theorem digits_of_high (h : word.toNat / 0x1000 = a) :
    digits word = [a, word.toNat / 0x100 % 0x10, word.toNat / 0x10 % 0x10, word.toNat % 0x10] := by
  unfold digits
  rw [h]

theorem digits_of_address (h : word.toNat / 0x1000 = a) : digits word = a :: addressDigits (.ofNat word.toNat) := by
  rw [digits_of_high h]
  unfold addressDigits Address.ofNat
  simp only [List.cons.injEq, true_and, and_true]
  omega

theorem digits_of_byte (h : word.toNat / 0x1000 = a) :
    digits word = a :: (Nibble.ofNat (word.toNat / 0x100)).val :: byteDigits (.ofNat word.toNat) := by
  rw [digits_of_high h]
  unfold byteDigits Nibble.ofNat
  rw [UInt8.toNat_ofNat']
  simp only [List.cons.injEq, true_and, and_true]
  omega

theorem digits_of_last {last : Nat} (h : word.toNat / 0x1000 = a) (hl : word.toNat % 0x100 = last) :
    digits word = [a, (Nibble.ofNat (word.toNat / 0x100)).val, last / 0x10, last % 0x10] := by
  rw [digits_of_high h]
  unfold Nibble.ofNat
  simp only [List.cons.injEq, true_and, and_true]
  omega

theorem digits_of_registers {last : Nat} (h : word.toNat / 0x1000 = a) (hl : word.toNat % 0x10 = last) :
    digits word =
      [a, (Nibble.ofNat (word.toNat / 0x100)).val, (Nibble.ofNat (word.toNat / 0x10)).val, last] := by
  rw [digits_of_high h, hl]
  rfl

end

theorem Operator.digit_of_ofNibble? {n : Nat} {op : Operator} (h : Operator.ofNibble? n = some op) :
    n = op.digit := by
  unfold ofNibble? at h
  split at h <;> simp only [Option.some.injEq, reduceCtorEq] at h <;> subst h <;> rfl

theorem digits_of_ofSystemByte? {word : UInt16} {i : Instruction} (h : Instruction.ofSystemByte? word.toNat = some i) :
    digits word = i.digits := by
  unfold Instruction.ofSystemByte? at h
  unfold digits
  split at h <;> simp only [Option.some.injEq, reduceCtorEq] at h <;> subst h
  all_goals rename_i hw; rw [hw]; rfl

theorem digits_of_ofKeyByte? {word : UInt16} {i : Instruction} (ha : word.toNat / 0x1000 = 0xe)
    (h : Instruction.ofKeyByte? (.ofNat (word.toNat / 0x100)) (word.toNat % 0x100) = some i) :
    digits word = i.digits := by
  rw [digits_of_last ha rfl]
  unfold Instruction.ofKeyByte? at h
  split at h <;> simp only [Option.some.injEq, reduceCtorEq] at h <;> subst h
  all_goals rename_i hl; rw [hl]; rfl

theorem digits_of_ofDeviceByte? {word : UInt16} {i : Instruction} (ha : word.toNat / 0x1000 = 0xf)
    (h : Instruction.ofDeviceByte? (.ofNat (word.toNat / 0x100)) (word.toNat % 0x100) = some i) :
    digits word = i.digits := by
  rw [digits_of_last ha rfl]
  unfold Instruction.ofDeviceByte? at h
  split at h <;> simp only [Option.some.injEq, reduceCtorEq] at h <;> subst h
  all_goals rename_i hl; rw [hl]; rfl

/-- **A word that decodes has the digits of its instruction.** -/
theorem digits_of_decode? {word : UInt16} {i : Instruction} (h : Instruction.decode? word = some i) :
    digits word = i.digits := by
  have hword : word.toNat < 65536 := word.toNat_lt
  unfold Instruction.decode? at h
  simp only at h
  split at h
  case h_1 ha =>
    split at h
    · exact digits_of_ofSystemByte? h
    · rw [Option.some.injEq] at h; subst h
      exact digits_of_address ha
  case h_6 ha =>
    split at h
    · rw [Option.some.injEq] at h; subst h
      exact digits_of_registers ha ‹_›
    · exact nomatch h
  case h_10 ha =>
    split at h
    · rw [Option.some.injEq] at h; subst h
      exact digits_of_registers ha ‹_›
    · exact nomatch h
  case h_9 ha =>
    obtain ⟨op, hop, rfl⟩ := Option.map_eq_some_iff.1 h
    exact digits_of_registers ha (Operator.digit_of_ofNibble? hop)
  case h_14 ha =>
    rw [Option.some.injEq] at h; subst h
    exact digits_of_registers ha rfl
  case h_15 ha => exact digits_of_ofKeyByte? ha h
  case h_16 =>
    have ha : word.toNat / 0x1000 = 0xf := by
      simp only [imp_false] at *
      omega
    exact digits_of_ofDeviceByte? ha h
  all_goals
    rename_i ha
    rw [Option.some.injEq] at h; subst h
    first | exact digits_of_address ha | exact digits_of_byte ha

/-! ## Patterns -/

/-- A pattern of words: in each place a digit, or `none` where any digit can stand. -/
abbrev Pattern := List (Option Nat)

/-- Whether these are digits that a pattern allows. -/
def Pattern.fits : Pattern → List Nat → Bool
  | [], [] => true
  | place :: places, digit :: digits => place.all (· == digit) && fits places digits
  | _, _ => false

def fits (word : UInt16) (pattern : Pattern) : Bool :=
  pattern.fits (digits word)

/-- A word fits a pattern of four places if it has the digits that stand there. -/
theorem fits_iff {word : UInt16} {a b c d : Option Nat} :
    fits word [a, b, c, d] = true ↔
      (∀ n ∈ a, word.toNat / 0x1000 = n) ∧ (∀ n ∈ b, word.toNat / 0x100 % 0x10 = n) ∧
        (∀ n ∈ c, word.toNat / 0x10 % 0x10 = n) ∧ ∀ n ∈ d, word.toNat % 0x10 = n := by
  have hplace (place : Option Nat) (digit : Nat) : place.all (· == digit) = true ↔ ∀ n ∈ place, digit = n := by
    cases place with
    | none => simp
    | some n =>
      rw [Option.all_some, beq_iff_eq, eq_comm]
      simp
  unfold fits digits
  simp only [Pattern.fits, Bool.and_eq_true, Bool.and_true, hplace]

/-- The patterns of the instruction set, without the routines of the host. -/
def patterns : List Pattern := [
  [some 0x0, some 0x0, some 0xe, some 0x0],
  [some 0x0, some 0x0, some 0xe, some 0xe],
  [some 0x1, none, none, none],
  [some 0x2, none, none, none],
  [some 0x3, none, none, none],
  [some 0x4, none, none, none],
  [some 0x5, none, none, some 0x0],
  [some 0x6, none, none, none],
  [some 0x7, none, none, none],
  [some 0x8, none, none, some 0x0],
  [some 0x8, none, none, some 0x1],
  [some 0x8, none, none, some 0x2],
  [some 0x8, none, none, some 0x3],
  [some 0x8, none, none, some 0x4],
  [some 0x8, none, none, some 0x5],
  [some 0x8, none, none, some 0x6],
  [some 0x8, none, none, some 0x7],
  [some 0x8, none, none, some 0xe],
  [some 0x9, none, none, some 0x0],
  [some 0xa, none, none, none],
  [some 0xb, none, none, none],
  [some 0xc, none, none, none],
  [some 0xd, none, none, none],
  [some 0xe, none, some 0x9, some 0xe],
  [some 0xe, none, some 0xa, some 0x1],
  [some 0xf, none, some 0x0, some 0x7],
  [some 0xf, none, some 0x0, some 0xa],
  [some 0xf, none, some 0x1, some 0x5],
  [some 0xf, none, some 0x1, some 0x8],
  [some 0xf, none, some 0x1, some 0xe],
  [some 0xf, none, some 0x2, some 0x9],
  [some 0xf, none, some 0x3, some 0x3],
  [some 0xf, none, some 0x5, some 0x5],
  [some 0xf, none, some 0x6, some 0x5]]

def callsRoutine (word : UInt16) : Bool :=
  fits word [some 0x0, none, none, none] && 0x100 ≤ word.toNat

theorem fits_of_decode? {word : UInt16} {i : Instruction} (h : Instruction.decode? word = some i) (pattern : Pattern) :
    fits word pattern = pattern.fits i.digits := by
  unfold fits
  rw [digits_of_decode? h]

theorem routine_of_decode? {word : UInt16} {nnn : Address}
    (h : Instruction.decode? word = some (.machineRoutine nnn)) : 0x100 ≤ word.toNat := by
  by_contra hlt
  have ha : word.toNat / 0x1000 = 0 := by omega
  unfold Instruction.decode? at h
  simp only [ha, Nat.not_le.1 hlt, ↓reduceIte] at h
  unfold Instruction.ofSystemByte? at h
  split at h <;> simp at h

theorem fits_digits (i : Instruction) (h : ∀ nnn, i ≠ .machineRoutine nnn) :
    patterns.any (·.fits i.digits) = true := by
  cases i with
  | machineRoutine nnn => exact absurd rfl (h nnn)
  | skip condition => cases condition <;> rfl
  | combine op x y => cases op <;> rfl
  | _ => rfl

/-! ## What has no instruction -/

theorem Operator.ofNibble?_eq_none {n : Nat} (h : Operator.ofNibble? n = none) : 8 ≤ n ∧ n ≠ 0xe := by
  unfold ofNibble? at h
  split at h
  case h_10 => simp only [imp_false] at *; omega
  all_goals exact nomatch h

theorem Instruction.ofSystemByte?_eq_none {n : Nat} (h : Instruction.ofSystemByte? n = none) :
    n ≠ 0xe0 ∧ n ≠ 0xee := by
  unfold ofSystemByte? at h
  split at h
  case h_3 he hr => exact ⟨he, hr⟩
  all_goals exact nomatch h

theorem Instruction.ofKeyByte?_eq_none {x : Register} {n : Nat} (h : Instruction.ofKeyByte? x n = none) :
    n ≠ 0x9e ∧ n ≠ 0xa1 := by
  unfold ofKeyByte? at h
  split at h
  case h_3 hd hu => exact ⟨hd, hu⟩
  all_goals exact nomatch h

theorem Instruction.ofDeviceByte?_eq_none {x : Register} {n : Nat} (h : Instruction.ofDeviceByte? x n = none) :
    ∀ last ∈ [0x07, 0x0a, 0x15, 0x18, 0x1e, 0x29, 0x33, 0x55, 0x65], n ≠ last := by
  unfold ofDeviceByte? at h
  split at h
  case h_10 => simp_all
  all_goals exact nomatch h

theorem fits_of_decode?_eq_none {word : UInt16} (h : Instruction.decode? word = none) :
    (patterns.any (fits word ·) || callsRoutine word) = false := by
  have hword : word.toNat < 65536 := word.toNat_lt
  refine Bool.eq_false_iff.2 fun hfits => ?_
  simp only [patterns, fits, Pattern.fits, digits, callsRoutine, List.any_cons, List.any_nil, Option.all_some,
    Option.all_none, Bool.true_and, Bool.and_true, Bool.or_false, Bool.or_eq_true, Bool.and_eq_true, beq_iff_eq,
    decide_eq_true_eq] at hfits
  unfold Instruction.decode? at h
  simp only at h
  -- only the families that look at the last bits have words without an instruction
  split at h
  case h_1 ha =>
    split at h
    · have := Instruction.ofSystemByte?_eq_none h
      omega
    · exact nomatch h
  case h_6 ha =>
    split at h
    · exact nomatch h
    · omega
  case h_9 ha =>
    have := Operator.ofNibble?_eq_none (Option.map_eq_none_iff.1 h)
    omega
  case h_10 ha =>
    split at h
    · exact nomatch h
    · omega
  case h_15 ha =>
    have := Instruction.ofKeyByte?_eq_none h
    omega
  case h_16 =>
    have hlast := Instruction.ofDeviceByte?_eq_none h
    simp only [List.forall_mem_cons] at hlast
    simp only [imp_false] at *
    omega
  all_goals exact nomatch h

/-- **The words that decode** fit a pattern of the instruction set, or call a routine of the host from `0x100` on. -/
theorem isSome_decode? (word : UInt16) :
    (Instruction.decode? word).isSome = (patterns.any (fits word ·) || callsRoutine word) := by
  cases h : Instruction.decode? word with
  | none => exact (fits_of_decode?_eq_none h).symm
  | some i =>
    simp only [fits_of_decode? h, callsRoutine]
    by_cases hi : ∃ nnn, i = .machineRoutine nnn
    · obtain ⟨nnn, rfl⟩ := hi
      rw [decide_eq_true (routine_of_decode? h), Bool.and_true]
      exact (Bool.or_true _).symm
    · rw [fits_digits i fun nnn hn => hi ⟨nnn, hn⟩]
      rfl

end Chip8
