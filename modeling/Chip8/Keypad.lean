/-!
# Keypad — sixteen keys, and the wait for one of them

Keys are named by a byte.  Bytes of sixteen and more name no key: pressing them does nothing and they are never down.
-/
namespace Chip8

abbrev keyCount : Nat := 16

abbrev Keypad := Vector Bool keyCount

namespace Keypad

def released : Keypad := Vector.replicate keyCount false

def press (k : Keypad) (key : UInt8) : Keypad :=
  k.setIfInBounds key.toNat true

def release (k : Keypad) (key : UInt8) : Keypad :=
  k.setIfInBounds key.toNat false

def isDown (k : Keypad) (key : UInt8) : Bool :=
  k[key.toNat]?.getD false

/-- Whether one of the sixteen keys is down. -/
def holds (k : Keypad) (key : Fin keyCount) : Bool :=
  k[key]

def firstDown? (k : Keypad) : Option (Fin keyCount) :=
  (List.finRange keyCount).find? k.holds

theorem isDown_released (key : UInt8) : released.isDown key = false := by
  unfold isDown released
  by_cases h : key.toNat < keyCount <;> simp [h]

theorem isDown_press (k : Keypad) (key other : UInt8) :
    (k.press key).isDown other = (k.isDown other || (key = other && other.toNat < keyCount)) := by
  unfold press isDown
  by_cases h : key = other
  · subst h
    by_cases hk : key.toNat < keyCount <;> simp [hk]
  · have : key.toNat ≠ other.toNat := fun e => h (UInt8.toNat_inj.1 e)
    simp [h, Vector.getElem?_setIfInBounds_ne this]

theorem isDown_release (k : Keypad) (key other : UInt8) :
    (k.release key).isDown other = (k.isDown other && key ≠ other) := by
  unfold release isDown
  by_cases h : key = other
  · subst h
    by_cases hk : key.toNat < keyCount <;> simp [hk]
  · have : key.toNat ≠ other.toNat := fun e => h (UInt8.toNat_inj.1 e)
    simp [h, Vector.getElem?_setIfInBounds_ne this]

end Keypad

/-- How far the instruction that waits for a key has come. -/
inductive KeyWait where
  /-- no key has gone down yet -/
  | idle
  /-- the key went down, and the instruction waits until it is up again -/
  | awaiting (key : Fin keyCount)
  deriving DecidableEq, Repr

end Chip8
