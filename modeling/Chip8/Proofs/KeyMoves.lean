import Mathlib
import Chip8.Proofs.Keypad
/-!
# KeyMoves — a key is down when the last move that named it was a press

Keys are pressed and released in any order, any of them any number of times, and by any byte, also by one that names no
key.  A move decides about the key that it names and leaves all others (`isDown_perform`), so what is left of a list of
moves is the last that named each key (`isDown_run`).  The keys that are down are a set that the moves put keys into
and take them out of, and the key that is found first is the least of it (`keys_of_moves`).
-/
namespace Chip8
namespace Keypad

/-- Something done to a key. -/
inductive Move where
  | press (key : UInt8)
  | release (key : UInt8)
  deriving DecidableEq

def Move.key : Move → UInt8
  | .press key => key
  | .release key => key

def perform (k : Keypad) : Move → Keypad
  | .press key => k.press key
  | .release key => k.release key

def run (k : Keypad) (moves : List Move) : Keypad :=
  moves.foldl perform k

/-- The last of some moves that names a key. -/
def lastNaming? (moves : List Move) (key : UInt8) : Option Move :=
  (moves.filter (·.key = key)).getLast?

theorem run_concat (k : Keypad) (moves : List Move) (m : Move) : k.run (moves ++ [m]) = (k.run moves).perform m :=
  List.foldl_concat ..

theorem lastNaming?_concat (moves : List Move) (m : Move) (key : UInt8) :
    lastNaming? (moves ++ [m]) key = if m.key = key then some m else lastNaming? moves key := by
  unfold lastNaming?
  by_cases h : m.key = key <;> simp [h]

/-! ## One move -/

/-- **A move decides about the key that it names**, and leaves all others. -/
theorem isDown_perform (k : Keypad) (m : Move) (key : UInt8) :
    (k.perform m).isDown key =
      if m.key = key then decide (key.toNat < 16 ∧ m = .press key) else k.isDown key := by
  cases m with
  | press pressed =>
    rw [perform, Move.key, isDown_press]
    by_cases h : pressed = key
    · by_cases hlt : key.toNat < 16
      · simp [h, hlt]
      · simp [h, hlt, isDown_of_le (Nat.not_lt.1 hlt)]
    · simp [h]
  | release released =>
    rw [perform, Move.key, isDown_release]
    by_cases h : released = key <;> simp [h]

theorem perform_of_le (k : Keypad) {m : Move} (h : 16 ≤ m.key.toNat) : k.perform m = k := by
  cases m with
  | press key => exact Vector.setIfInBounds_eq_of_size_le h
  | release key => exact Vector.setIfInBounds_eq_of_size_le h

/-! ## Any number of them -/

/-- **A key is as the last move that names it has left it.** -/
theorem isDown_run (k : Keypad) (moves : List Move) (key : UInt8) :
    (k.run moves).isDown key =
      (lastNaming? moves key).elim (k.isDown key) fun m => decide (key.toNat < 16 ∧ m = .press key) := by
  induction moves using List.reverseRecOn with
  | nil => rfl
  | append_singleton moves m ih =>
    rw [run_concat, isDown_perform, lastNaming?_concat, ih]
    by_cases h : m.key = key <;> simp [h]

theorem isDown_run_released (moves : List Move) (key : UInt8) :
    (released.run moves).isDown key = true ↔ key.toNat < 16 ∧ lastNaming? moves key = some (.press key) := by
  rw [isDown_run, isDown_released]
  cases lastNaming? moves key <;> simp

theorem run_filter (k : Keypad) (moves : List Move) : k.run (moves.filter (·.key.toNat < 16)) = k.run moves := by
  induction moves generalizing k with
  | nil => rfl
  | cons m moves ih =>
    show _ = (k.perform m).run moves
    by_cases h : m.key.toNat < 16
    · rw [List.filter_cons_of_pos (by simpa using h)]
      exact ih _
    · rw [List.filter_cons_of_neg (by simpa using h), ih, perform_of_le k (Nat.not_lt.1 h)]

/-! ## The key that is found first -/

/-- The number of the lowest key that is down. -/
def firstDownByte? (k : Keypad) : Option UInt8 :=
  k.firstDown?.map fun key => UInt8.ofNat key.val

theorem firstDownByte?_eq_findIdx? (k : Keypad) :
    k.firstDownByte? = (k.toArray.toList.findIdx? id).map UInt8.ofNat := by
  rw [findIdx?_toList, Option.map_map]
  rfl

theorem firstDownByte?_eq_some_iff (k : Keypad) (key : UInt8) :
    k.firstDownByte? = some key ↔ k.isDown key = true ∧ ∀ other, k.isDown other = true → key ≤ other := by
  rw [firstDownByte?, Option.map_eq_some_iff]
  constructor
  · rintro ⟨first, hfirst, rfl⟩
    obtain ⟨hdown, hlower⟩ := (firstDown?_eq_some_iff k first).1 hfirst
    refine ⟨(isDown_ofNat k first).trans hdown, fun other hother => ?_⟩
    obtain ⟨held, hvalue, hheld⟩ := (isDown_iff k other).1 hother
    rw [UInt8.le_iff_toNat_le, toNat_ofNat_key, ← hvalue]
    by_contra hlt
    rw [hlower held (Nat.not_le.1 hlt)] at hheld
    exact nomatch hheld
  · rintro ⟨hdown, hleast⟩
    obtain ⟨first, hvalue, hheld⟩ := (isDown_iff k key).1 hdown
    refine ⟨first, (firstDown?_eq_some_iff k first).2 ⟨hheld, fun lower hlt => ?_⟩, ?_⟩
    · rw [← isDown_ofNat, Bool.eq_false_iff]
      intro hlower
      have hle := UInt8.le_iff_toNat_le.1 (hleast _ hlower)
      rw [toNat_ofNat_key, ← hvalue] at hle
      exact absurd hlt (Nat.not_lt.2 hle)
    · rw [hvalue, UInt8.ofNat_toNat]

theorem firstDownByte?_eq_none_iff (k : Keypad) : k.firstDownByte? = none ↔ ∀ key, k.isDown key = false := by
  rw [firstDownByte?, Option.map_eq_none_iff, firstDown?_eq_none_iff]
  constructor
  · intro h key
    rw [Bool.eq_false_iff, ne_eq, isDown_iff]
    rintro ⟨held, -, hheld⟩
    rw [h held] at hheld
    exact nomatch hheld
  · intro h key
    rw [← isDown_ofNat, h]

/-- **A keypad is a set of keys.**  After any moves of a new keypad a byte is down exactly when it names a key and the last
move that named it was a press.  The key that is found first is the least that is down, none is found only if none is
down, and it is what a search through the stored keys from the first on finds.  A byte that names no key changes nothing:
not behind the moves, and not among them. -/
theorem keys_of_moves (moves : List Move) :
    let k := released.run moves
    (∀ key, k.isDown key = true ↔ key.toNat < 16 ∧ lastNaming? moves key = some (.press key)) ∧
    (∀ key, k.firstDownByte? = some key ↔ k.isDown key = true ∧ ∀ other, k.isDown other = true → key ≤ other) ∧
    (k.firstDownByte? = none ↔ ∀ key, k.isDown key = false) ∧
    k.firstDownByte? = (k.toArray.toList.findIdx? id).map UInt8.ofNat ∧
    (∀ m : Move, 16 ≤ m.key.toNat → k.perform m = k) ∧
    released.run (moves.filter (·.key.toNat < 16)) = k := by
  intro k
  exact ⟨isDown_run_released moves, firstDownByte?_eq_some_iff k, firstDownByte?_eq_none_iff k,
    firstDownByte?_eq_findIdx? k, fun _ => perform_of_le k, run_filter released moves⟩

/-- Moves that leave keys 9 and 12 down; two of them name no key. -/
def toNineAndTwelve : List Move :=
  [.press 12, .press 5, .press 16, .release 5, .press 9, .release 255, .press 3, .release 3, .press 9]

theorem keys_of_moves_toNineAndTwelve :
    let k := released.run toNineAndTwelve
    (k.isDown 12 = true ∧ k.isDown 5 = false ∧ k.isDown 16 = false) ∧
    (k.firstDownByte? = some 9 ∧ ∀ other, k.isDown other = true → 9 ≤ other) ∧
    16 ≤ (Move.press 200).key.toNat ∧ k.perform (.press 200) = k := by
  intro k
  obtain ⟨hdown, hfirst, -, -, hbeyond, -⟩ := keys_of_moves toNineAndTwelve
  have hnine : k.firstDownByte? = some 9 := by decide
  refine ⟨⟨(hdown 12).2 (by decide), ?_, ?_⟩, ⟨hnine, ((hfirst 9).1 hnine).2⟩, by decide, hbeyond _ (by decide)⟩
  · exact Bool.eq_false_iff.2 fun h => absurd ((hdown 5).1 h).2 (by decide)
  · exact Bool.eq_false_iff.2 fun h => absurd ((hdown 16).1 h).1 (by decide)

end Keypad

end Chip8
