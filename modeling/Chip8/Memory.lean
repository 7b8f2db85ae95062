import Chip8.Font
/-!
# Memory — 4096 bytes, and blocks that may reach past their end

Programs address memory through a register that can point past it, so every access is to a *block*: some number of
bytes from some address on.  `load` and `store` move the part of a block that lies in memory, and `firstOutside?`
tells the first address of a block that does not.  A block is moved byte by byte from its start, so what lies before
that address has been moved when the access fails.
-/
namespace Chip8

abbrev memorySize : Nat := 4096

abbrev programStart : Nat := 0x200

abbrev programCapacity : Nat := memorySize - programStart

abbrev Memory := Vector UInt8 memorySize

/-- The first address of the `n` bytes from `a` on that is not in memory. -/
def firstOutside? (a n : Nat) : Option Nat :=
  (List.range' a n).find? (memorySize ≤ ·)

theorem firstOutside?_eq (a n : Nat) :
    firstOutside? a n = if n = 0 ∨ a + n ≤ memorySize then none else some (max a memorySize) := by
  unfold firstOutside?
  induction n generalizing a with
  | zero => simp
  | succ n ih =>
    rw [List.range'_succ, List.find?_cons]
    by_cases h : memorySize ≤ a
    · rw [if_neg (by omega), Nat.max_eq_left h]
      simp [h]
    · have hm : max a memorySize = max (a + 1) memorySize := by omega
      simp only [h, decide_false, ih, hm]
      by_cases hn : n = 0
      · subst hn; simp; omega
      · have : (a + 1 + n ≤ memorySize) ↔ (a + (n + 1) ≤ memorySize) := by omega
        simp [hn, this]

namespace Memory

def zero : Memory := Vector.replicate memorySize 0

/-- Writes bytes at consecutive addresses from `a` on; those past the end go nowhere. -/
def store (m : Memory) (a : Nat) : List UInt8 → Memory
  | [] => m
  | b :: bs => store (m.setIfInBounds a b) (a + 1) bs

/-- Each address of the block holds its byte afterwards, and the others what they held. -/
theorem getElem?_store (m : Memory) (a : Nat) (bs : List UInt8) (i : Nat) :
    (m.store a bs)[i]? = if a ≤ i ∧ i < a + bs.length ∧ i < memorySize then bs[i - a]? else m[i]? := by
  induction bs generalizing m a with
  | nil => simp [store]; omega
  | cons b bs ih =>
    rw [store, ih]
    by_cases h : i = a
    · subst h
      rw [if_neg (by omega), Vector.getElem?_setIfInBounds, if_pos rfl]
      by_cases hi : i < memorySize <;> simp [hi]
    · rw [Vector.getElem?_setIfInBounds_ne (Ne.symm h)]
      have hc : (a + 1 ≤ i ∧ i < a + 1 + bs.length ∧ i < memorySize) ↔
          (a ≤ i ∧ i < a + (b :: bs).length ∧ i < memorySize) := by simp; omega
      simp only [hc]
      split
      · obtain ⟨k, hk⟩ : ∃ k, i - a = k + 1 := ⟨i - a - 1, by omega⟩
        rw [hk, show i - (a + 1) = k by omega, List.getElem?_cons_succ]
      · rfl

/-- The bytes at the `n` addresses from `a` on, as far as they are in memory. -/
def load (m : Memory) (a n : Nat) : List UInt8 :=
  (List.range' a n).filterMap (m[·]?)

/-- The byte at `a`, zero past the end. -/
def byte (m : Memory) (a : Nat) : UInt8 :=
  m[a]?.getD 0

/-- What is loaded are the bytes of the block, up to the end of memory. -/
theorem getElem?_load (m : Memory) (a n k : Nat) :
    (m.load a n)[k]? = if k < n ∧ a + k < memorySize then some (m.byte (a + k)) else none := by
  induction n generalizing a k with
  | zero => simp [load]
  | succ n ih =>
    have hl : m.load a (n + 1) = if a < memorySize then m.byte a :: m.load (a + 1) n else m.load (a + 1) n := by
      unfold load
      rw [List.range'_succ, List.filterMap_cons]
      by_cases h : a < memorySize <;> simp [h, byte]
    rw [hl]
    by_cases h : a < memorySize
    · rw [if_pos h]
      cases k with
      | zero => simp [h]
      | succ k =>
        have : (k < n ∧ a + 1 + k < memorySize) ↔ (k + 1 < n + 1 ∧ a + (k + 1) < memorySize) := by omega
        rw [List.getElem?_cons_succ, ih, show a + 1 + k = a + (k + 1) by omega]
        simp only [← this, show a + 1 + k = a + (k + 1) by omega]
    · rw [if_neg h, ih, if_neg (by omega), if_neg (by omega)]

/-- The word at `a`: its high byte, and after it the low one. -/
def word (m : Memory) (a : Nat) : UInt16 :=
  UInt16.ofNat (256 * (m.byte a).toNat + (m.byte (a + 1)).toNat)

/-- Memory as a load leaves it: the font at its start and the program at `programStart`. -/
def image (font : Font) (program : List UInt8) : Memory :=
  (zero.store 0 font.toList).store programStart program

end Memory

end Chip8
