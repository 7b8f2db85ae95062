import Mathlib
import Chip8.Keypad
/-!
# Keypad — which key is the lowest that is down

The machine looks for a key by going through all sixteen from the lowest on.  What it finds is down and has no lower key
beside it that is (`firstDown?_eq_some_iff`), and it finds nothing only when every key is up (`firstDown?_eq_none_iff`).
-/
namespace Chip8
namespace Keypad

theorem firstDown?_eq_none_iff (k : Keypad) : k.firstDown? = none ↔ ∀ key, k.holds key = false := by
  unfold firstDown?
  rw [List.find?_eq_none]
  exact ⟨fun h key => Bool.eq_false_iff.2 (h key (List.mem_finRange key)),
    fun h key _ => Bool.eq_false_iff.1 (h key)⟩

/-- **The lowest key that is down** is down, and every lower one is up. -/
theorem firstDown?_eq_some_iff (k : Keypad) (key : Fin keyCount) :
    k.firstDown? = some key ↔ k.holds key = true ∧ ∀ lower < key, k.holds lower = false := by
  unfold firstDown?
  rw [List.find?_eq_some_iff_getElem]
  constructor
  · rintro ⟨hk, i, hi, rfl, hlt⟩
    refine ⟨hk, fun lower hl => ?_⟩
    rw [List.getElem_finRange] at hl
    have := hlt lower.val hl
    rw [List.getElem_finRange] at this
    simpa using this
  · rintro ⟨hk, hlt⟩
    refine ⟨hk, key.val, by rw [List.length_finRange]; exact key.isLt, List.getElem_finRange .., fun j hj => ?_⟩
    rw [List.getElem_finRange]
    have := hlt ⟨j, Nat.lt_trans hj key.isLt⟩ hj
    simpa using this

theorem toNat_ofNat_key (key : Fin keyCount) : (UInt8.ofNat key.val).toNat = key.val :=
  UInt8.toNat_ofNat_of_lt' (Nat.lt_trans key.isLt (by decide))

theorem isDown_ofNat (k : Keypad) (key : Fin keyCount) : k.isDown (UInt8.ofNat key.val) = k.holds key := by
  unfold isDown holds
  rw [toNat_ofNat_key, Vector.getElem?_eq_getElem key.isLt]
  rfl

theorem isDown_of_le {value : UInt8} (h : keyCount ≤ value.toNat) (k : Keypad) : k.isDown value = false := by
  unfold isDown
  rw [Vector.getElem?_eq_none h]
  rfl

/-- A byte names a key that is down if it is the number of one. -/
theorem isDown_iff (k : Keypad) (value : UInt8) :
    k.isDown value = true ↔ ∃ key : Fin keyCount, key.val = value.toNat ∧ k.holds key = true := by
  constructor
  · intro h
    have hlt : value.toNat < keyCount := by
      by_contra hle
      rw [isDown_of_le (Nat.not_lt.1 hle)] at h
      exact nomatch h
    refine ⟨⟨value.toNat, hlt⟩, rfl, ?_⟩
    rwa [← isDown_ofNat, UInt8.ofNat_toNat]
  · rintro ⟨key, hvalue, h⟩
    rwa [← isDown_ofNat, hvalue, UInt8.ofNat_toNat] at h

theorem ofNat_key_inj {key other : Fin keyCount} : UInt8.ofNat key.val = UInt8.ofNat other.val ↔ key = other := by
  rw [← UInt8.toNat_inj, toNat_ofNat_key, toNat_ofNat_key, Fin.ext_iff]

theorem holds_press (k : Keypad) (key other : Fin keyCount) :
    (k.press (UInt8.ofNat key.val)).holds other = if key = other then true else k.holds other := by
  rw [← isDown_ofNat, isDown_press, isDown_ofNat, toNat_ofNat_key, decide_eq_true other.isLt, Bool.and_true]
  by_cases h : key = other
  · simp [h]
  · simp [h, ofNat_key_inj]

theorem holds_release (k : Keypad) (key other : Fin keyCount) :
    (k.release (UInt8.ofNat key.val)).holds other = if key = other then false else k.holds other := by
  rw [← isDown_ofNat, isDown_release, isDown_ofNat]
  by_cases h : key = other
  · simp [h]
  · simp [h, ofNat_key_inj]

theorem findIdx?_toList (k : Keypad) : k.toArray.toList.findIdx? id = k.firstDown?.map Fin.val := by
  have hget : ∀ (i : Nat) (hi : i < k.toArray.toList.length), k.toArray.toList[i] = k.holds ⟨i, by simpa using hi⟩ :=
    fun i hi => by simp [holds]
  cases hd : k.firstDown? with
  | none =>
    rw [firstDown?_eq_none_iff] at hd
    rw [Option.map_none, List.findIdx?_eq_none_iff]
    intro b hb
    obtain ⟨i, hi, rfl⟩ := List.getElem_of_mem hb
    rw [hget i hi, hd]
    rfl
  | some key =>
    rw [firstDown?_eq_some_iff] at hd
    rw [Option.map_some, List.findIdx?_eq_some_iff_getElem]
    refine ⟨by simp, ?_, fun j hj => ?_⟩
    · rw [hget]
      exact hd.1
    · rw [hget, hd.2 ⟨j, _⟩ hj]
      simp

end Keypad

end Chip8
