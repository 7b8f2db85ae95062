import Mathlib
import Chip8.Proofs.Cells.Agreement
/-!
# Blocks — moving bytes one by one, with a check before each

`Memory.store` and `Memory.load` move a whole block and leave out what is not in memory.  Cells move one byte after the
other and stop at the first address that is not in memory.  Both come to the same (`writeBlock?_eq`, `readBlock?_eq`):
behind the first address that is not in memory there is none that is.
-/
namespace Chip8

/-! ## The first address outside memory -/

theorem firstOutside?_succ_of_lt {a : Nat} (h : a < memorySize) (n : Nat) :
    firstOutside? a (n + 1) = firstOutside? (a + 1) n := by
  unfold firstOutside?
  rw [List.range'_succ, List.find?_cons_of_neg (by simpa using h)]

theorem firstOutside?_succ_of_le {a : Nat} (h : memorySize ≤ a) (n : Nat) : firstOutside? a (n + 1) = some a := by
  unfold firstOutside?
  rw [List.range'_succ, List.find?_cons_of_pos (by simpa using h)]

/-! ## Memory -/

theorem Memory.ext_getElem? {m m' : Memory} (h : ∀ i : Nat, m[i]? = m'[i]?) : m = m' :=
  Vector.toArray_inj.1 (Array.ext_getElem? fun i => by rw [Vector.getElem?_toArray, Vector.getElem?_toArray, h i])

theorem Memory.store_of_le (m : Memory) {a : Nat} (h : memorySize ≤ a) (bytes : List UInt8) : m.store a bytes = m := by
  apply Memory.ext_getElem?
  intro i
  rw [Memory.getElem?_store, if_neg (by omega)]

theorem Memory.load_of_le (m : Memory) {a offset : Nat} (h : memorySize ≤ a + offset) (n : Nat) :
    m.load a (offset + n) = m.load a offset := by
  apply List.ext_getElem?
  intro k
  rw [Memory.getElem?_load, Memory.getElem?_load]
  have : (k < offset + n ∧ a + k < memorySize) ↔ (k < offset ∧ a + k < memorySize) := by omega
  simp only [this]

theorem copy?_eq (m : Memory) {start : Nat} {bytes : List UInt8} (h : start + bytes.length ≤ memorySize) :
    copy? m.toArray start bytes = some (m.store start bytes).toArray := by
  have hs : start + bytes.length ≤ m.toArray.size := by rw [m.size_toArray]; exact h
  unfold copy?
  rw [if_pos hs]
  congr 1
  apply Array.ext_getElem?
  intro i
  rw [Vector.getElem?_toArray, Memory.getElem?_store, Array.getElem?_ofFn]
  by_cases hi : i < memorySize
  · have hsize : i < m.toArray.size := by rw [m.size_toArray]; exact hi
    rw [dif_pos hsize]
    by_cases hle : start ≤ i
    · by_cases hlt : i < start + bytes.length
      · have hb : i - start < bytes.length := by omega
        simp [hle, hlt, hb, hi]
      · have hb : bytes.length ≤ i - start := by omega
        simp [hle, hlt, hb, hi]
    · simp [hle, hi]
  · have hsize : ¬i < m.toArray.size := by rw [m.size_toArray]; exact hi
    rw [dif_neg hsize, if_neg (fun hc => hi hc.2.2), Vector.getElem?_eq_none (Nat.not_lt.1 hi)]

/-! ## Registers -/

theorem Registers.set_overwrite (registers : Registers) (m : Memory) {start offset : Nat} (ho : offset < 16)
    (ha : start + offset < memorySize) :
    (registers.overwrite (m.load start offset)).set offset m[start + offset] ho =
      registers.overwrite (m.load start (offset + 1)) := by
  apply Vector.ext
  intro i hi
  rw [Vector.getElem_set]
  unfold Registers.overwrite
  rw [Vector.getElem_ofFn, Vector.getElem_ofFn, Memory.getElem?_load, Memory.getElem?_load]
  by_cases he : offset = i
  · subst he
    simp [ha, Memory.byte]
  · have : (i < offset + 1 ∧ start + i < memorySize) ↔ (i < offset ∧ start + i < memorySize) := by omega
    simp only [he, ↓reduceIte, this]

theorem Registers.overwrite_nil (registers : Registers) : registers.overwrite [] = registers := by
  apply Vector.ext
  intro i hi
  unfold Registers.overwrite Registers.read
  rw [Vector.getElem_ofFn]
  rfl

namespace Cells

/-! ## Moving bytes -/

/-- **Writing byte by byte is storing the block**, with the fault of its first address that is not in memory. -/
theorem writeBlock?_eq (value? : Nat → Option UInt8) (start : Nat) (values : List UInt8) :
    ∀ (r : Cells) (m : Memory) (offset : Nat), r.memory = m.toArray →
      (∀ k < values.length, value? (offset + k) = values[k]?) → start + offset + values.length ≤ indexLimit →
      writeBlock? value? start r offset values.length =
        some ⟨{ r with memory := (m.store (start + offset) values).toArray },
          (firstOutside? (start + offset) values.length).map .outOfBounds⟩ := by
  induction values with
  | nil =>
    intro r m offset hm _ _
    unfold writeBlock?
    rw [Memory.store, ← hm]
    rfl
  | cons b bytes ih =>
    intro r m offset hm hv hl
    rw [List.length_cons] at hv hl ⊢
    have hb : value? offset = some b := by
      have := hv 0 (Nat.succ_pos _)
      rwa [Nat.add_zero, List.getElem?_cons_zero] at this
    unfold writeBlock?
    rw [hb, fit?_eq (show start + offset < indexLimit by omega)]
    simp only [Option.bind_eq_bind, Option.bind_some]
    by_cases ha : start + offset < memorySize
    · have hput : put? r.memory (start + offset) b = some (m.setIfInBounds (start + offset) b).toArray := by
        rw [put?_eq (by rw [hm, m.size_toArray]; exact ha), hm, Vector.toArray_setIfInBounds]
      have hrest : ∀ k < bytes.length, value? (offset + 1 + k) = bytes[k]? := fun k hk => by
        have := hv (k + 1) (Nat.succ_lt_succ hk)
        rwa [List.getElem?_cons_succ, Nat.add_comm k 1, ← Nat.add_assoc] at this
      simp only [ha, ↓reduceIte, hput, Option.bind_some]
      rw [ih _ (m.setIfInBounds (start + offset) b) (offset + 1) rfl hrest (by omega),
        firstOutside?_succ_of_lt ha, Memory.store, Nat.add_assoc]
    · simp only [ha, ↓reduceIte]
      rw [firstOutside?_succ_of_le (Nat.not_lt.1 ha), Memory.store_of_le m (Nat.not_lt.1 ha), ← hm]
      rfl

/-- **Reading byte by byte is loading the block**, with the fault of its first address that is not in memory. -/
theorem readBlock?_eq (start : Nat) (m : Memory) (registers : Registers) (n : Nat) :
    ∀ (r : Cells) (offset : Nat), r.memory = m.toArray →
      r.registers = (registers.overwrite (m.load start offset)).toArray → offset + n ≤ 16 →
      start + offset + n ≤ indexLimit →
      readBlock? start r offset n =
        some ⟨{ r with registers := (registers.overwrite (m.load start (offset + n))).toArray },
          (firstOutside? (start + offset) n).map .outOfBounds⟩ := by
  induction n with
  | zero =>
    intro r offset _ hr _ _
    unfold readBlock?
    rw [Nat.add_zero, ← hr]
    rfl
  | succ n ih =>
    intro r offset hm hr ho hl
    unfold readBlock?
    rw [fit?_eq (show start + offset < indexLimit by omega)]
    simp only [Option.bind_eq_bind, Option.bind_some]
    by_cases ha : start + offset < memorySize
    · have hvalue : r.memory[start + offset]? = some m[start + offset] := by
        rw [hm, Vector.getElem?_toArray]
        exact Vector.getElem?_eq_getElem ha
      have hput : put? r.registers offset m[start + offset] =
          some (registers.overwrite (m.load start (offset + 1))).toArray := by
        rw [hr, put?_toArray _ (show offset < 16 by omega), Registers.set_overwrite registers m (by omega) ha]
      simp only [ha, ↓reduceIte, hvalue, hput, Option.bind_some]
      have hrest := ih { r with registers := (registers.overwrite (m.load start (offset + 1))).toArray } (offset + 1)
        hm rfl (by omega) (by omega)
      rw [hrest, firstOutside?_succ_of_lt ha, Nat.add_assoc start, Nat.add_assoc offset, Nat.add_comm 1 n]
    · simp only [ha, ↓reduceIte]
      rw [firstOutside?_succ_of_le (Nat.not_lt.1 ha), Memory.load_of_le m (Nat.not_lt.1 ha), ← hr]
      rfl

end Cells

end Chip8
