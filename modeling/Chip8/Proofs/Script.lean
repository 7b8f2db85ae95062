import Mathlib
import Chip8.Proofs.KeyWait
import Chip8.Session.KeyPress
/-!
# Script — the keys that a list of key presses holds down

A key press says from which step on its key is held, and until which.  What a list of them does is another matter: the
keypad has one place for a key, and only the steps are looked at where a press begins or ends.  Of all presses of a key
that begin or end before a step, the last in the list decides.

A key that is down is held by some press, for every list.  The other way round fails where a press ends while another
one holds its key, which is then let up too.  A list is *orderly* if wherever that happens a later press of the list
begins at that very step; and exactly then the keys that are down are those that the list holds
(`follow_holds_iff_orderly`).  Presses of a key that neither overlap nor touch are orderly in any order.
-/
namespace Chip8

/-- Whether a press holds its key before a step. -/
def KeyPress.HoldsAt (p : KeyPress) (step : Nat) : Prop :=
  p.start.toNat ≤ step ∧ ∀ stop ∈ p.stop, step < stop.toNat

/-- Whether some press of a list holds a key before a step. -/
def Held (script : List KeyPress) (key : Fin keyCount) (step : Nat) : Prop :=
  ∃ p ∈ script, p.key = key ∧ p.HoldsAt step

/-- Where a press ends while its key is held, a later one begins. -/
def Orderly (script : List KeyPress) : Prop :=
  ∀ before p after, script = before ++ p :: after → ∀ stop ∈ p.stop, Held script p.key stop.toNat →
    ∃ next ∈ after, next.key = p.key ∧ next.start = stop

/-- Whether two presses are of different keys, or one ends before the other begins. -/
def KeyPress.Apart (p q : KeyPress) : Prop :=
  p.key ≠ q.key ∨ (∃ stop ∈ p.stop, stop < q.start) ∨ ∃ stop ∈ q.stop, stop < p.start

instance (p q : KeyPress) : Decidable (p.Apart q) :=
  inferInstanceAs (Decidable (_ ∨ _ ∨ _))

/-! ## What one press does before a step -/

/-- Whether a press moves a key down or up before a step. -/
def KeyPress.change? (p : KeyPress) (key : Fin keyCount) (step : Nat) : Option Bool :=
  if p.key = key then
    if p.start.toNat = step then some true else if ∃ stop ∈ p.stop, stop.toNat = step then some false else none
  else none

namespace KeyPress

variable {p : KeyPress} {key : Fin keyCount} {step : Nat}

theorem change?_eq_true_iff : p.change? key step = some true ↔ p.key = key ∧ p.start.toNat = step := by
  unfold change?
  split_ifs <;> simp_all

theorem change?_eq_false_iff :
    p.change? key step = some false ↔ p.key = key ∧ ∃ stop ∈ p.stop, stop.toNat = step := by
  unfold change?
  split_ifs with hk hstart hstop
  · refine iff_of_false nofun ?_
    rintro ⟨-, stop, hs, he⟩
    have hlt : p.start.toNat < stop.toNat := p.start_lt_stop stop hs
    omega
  · exact iff_of_true rfl ⟨hk, hstop⟩
  · exact iff_of_false nofun fun h => hstop h.2
  · exact iff_of_false nofun fun h => hk h.1

theorem HoldsAt.of_change (h : p.change? key step = some true) : p.HoldsAt step := by
  obtain ⟨-, hstart⟩ := change?_eq_true_iff.1 h
  exact ⟨hstart.le, fun stop hs => hstart ▸ p.start_lt_stop stop hs⟩

/-- **A press that moves nothing before a step holds its key as it did.** -/
theorem holdsAt_succ_iff (hk : p.key = key) (h : p.change? key (step + 1) = none) :
    p.HoldsAt (step + 1) ↔ p.HoldsAt step := by
  have hstart : p.start.toNat ≠ step + 1 := fun he => by
    rw [change?_eq_true_iff.2 ⟨hk, he⟩] at h
    exact nomatch h
  have hstop : ∀ stop ∈ p.stop, stop.toNat ≠ step + 1 := fun stop hs he => by
    rw [change?_eq_false_iff.2 ⟨hk, stop, hs, he⟩] at h
    exact nomatch h
  constructor
  · rintro ⟨hle, hlt⟩
    exact ⟨by omega, fun stop hs => by have := hlt stop hs; omega⟩
  · rintro ⟨hle, hlt⟩
    exact ⟨by omega, fun stop hs => by have := hlt stop hs; have := hstop stop hs; omega⟩

theorem not_holdsAt_zero (hk : p.key = key) (h : p.change? key 0 = none) : ¬p.HoldsAt 0 := by
  intro hp
  rw [change?_eq_true_iff.2 ⟨hk, Nat.le_zero.1 hp.1⟩] at h
  exact nomatch h

end KeyPress

/-! ## What a list does before a step -/

/-- Whether a key is moved down or up before a step; the last press of the list that moves it decides. -/
def lastChange? (script : List KeyPress) (key : Fin keyCount) (step : Nat) : Option Bool :=
  script.reverse.findSome? (·.change? key step)

section

variable {script : List KeyPress} {key : Fin keyCount} {step : Nat}

theorem lastChange?_append (before after : List KeyPress) :
    lastChange? (before ++ after) key step = (lastChange? after key step).or (lastChange? before key step) := by
  unfold lastChange?
  rw [List.reverse_append, List.findSome?_append]

theorem lastChange?_singleton (p : KeyPress) : lastChange? [p] key step = p.change? key step := by
  unfold lastChange?
  simp

theorem change?_of_lastChange?_eq_none (h : lastChange? script key step = none) :
    ∀ p ∈ script, p.change? key step = none :=
  fun p hp => List.findSome?_eq_none_iff.1 h p (List.mem_reverse.2 hp)

theorem change?_of_lastChange? {down : Bool} (h : lastChange? script key step = some down) :
    ∃ p ∈ script, p.change? key step = some down := by
  obtain ⟨p, hp, hc⟩ := List.exists_of_findSome?_eq_some h
  exact ⟨p, List.mem_reverse.1 hp, hc⟩

theorem held_of_lastChange? (h : lastChange? script key step = some true) : Held script key step := by
  obtain ⟨p, hp, hc⟩ := change?_of_lastChange? h
  exact ⟨p, hp, (KeyPress.change?_eq_true_iff.1 hc).1, .of_change hc⟩

theorem held_succ_iff (h : lastChange? script key (step + 1) = none) :
    Held script key (step + 1) ↔ Held script key step :=
  exists_congr fun p => and_congr_right fun hp => and_congr_right fun hk =>
    KeyPress.holdsAt_succ_iff hk (change?_of_lastChange?_eq_none h p hp)

theorem not_held_zero (h : lastChange? script key 0 = none) : ¬Held script key 0 :=
  fun ⟨p, hp, hk, hheld⟩ => KeyPress.not_holdsAt_zero hk (change?_of_lastChange?_eq_none h p hp) hheld

end

/-- **A list is orderly exactly if it lets no key up that one of its presses holds.** -/
theorem orderly_iff (script : List KeyPress) :
    Orderly script ↔ ∀ key step, Held script key step → lastChange? script key step ≠ some false := by
  constructor
  · intro ho key step hheld hlast
    -- the press that decides ends here, and none behind it moves the key, so none begins here either
    obtain ⟨later, p, earlier, hsplit, hp, hnone⟩ := List.findSome?_eq_some_iff.1 hlast
    obtain ⟨rfl, stop, hstop, rfl⟩ := KeyPress.change?_eq_false_iff.1 hp
    have hscript : script = earlier.reverse ++ p :: later.reverse := by
      rw [← List.reverse_reverse script, hsplit]
      simp
    obtain ⟨next, hnext, hk, hstart⟩ := ho _ p _ hscript stop hstop hheld
    have hdown := KeyPress.change?_eq_true_iff.2 ⟨hk, congrArg UInt64.toNat hstart⟩
    rw [hnone next (List.mem_reverse.1 hnext)] at hdown
    exact nomatch hdown
  · rintro h before p after rfl stop hstop hheld
    have hup : p.change? p.key stop.toNat = some false := KeyPress.change?_eq_false_iff.2 ⟨rfl, stop, hstop, rfl⟩
    have hlast := h p.key stop.toNat hheld
    rw [List.append_cons, lastChange?_append, lastChange?_append, lastChange?_singleton, hup] at hlast
    cases hafter : lastChange? after p.key stop.toNat with
    | none => rw [hafter] at hlast; exact absurd rfl hlast
    | some down =>
      rw [hafter] at hlast
      cases down with
      | false => exact absurd rfl hlast
      | true =>
        obtain ⟨next, hnext, hdown⟩ := change?_of_lastChange? hafter
        obtain ⟨hk, hstart⟩ := KeyPress.change?_eq_true_iff.1 hdown
        exact ⟨next, hnext, hk, UInt64.toNat_inj.1 hstart⟩

instance : Std.Symm KeyPress.Apart where
  symm _ _
    | .inl h => .inl h.symm
    | .inr (.inl h) => .inr (.inr h)
    | .inr (.inr h) => .inr (.inl h)

theorem orderly_of_apart {script : List KeyPress} (h : script.Pairwise KeyPress.Apart) : Orderly script := by
  rintro before p after rfl stop hstop ⟨q, hq, hk, hstart, hheld⟩
  exfalso
  have hne : q ≠ p := by
    rintro rfl
    exact absurd (hheld stop hstop) (Nat.lt_irrefl _)
  have hapart : q.Apart p := h.forall hq (by simp) hne
  have hp : p.start.toNat < stop.toNat := p.start_lt_stop stop hstop
  rcases hapart with hkey | ⟨stop', hstop', hlt⟩ | ⟨stop', hstop', hlt⟩
  · exact hkey hk
  · have := hheld stop' hstop'
    have : stop'.toNat < p.start.toNat := hlt
    omega
  · obtain rfl := Option.mem_unique hstop hstop'
    have : stop.toNat < q.start.toNat := hlt
    omega

/-! ## The keypad -/

namespace Machine

theorem holds_changesAt (m : Machine) (p : KeyPress) (key : Fin keyCount) (step : Nat) :
    ((p.changesAt step).foldl moveKey m).keypad.holds key = (p.change? key step).getD (m.keypad.holds key) := by
  have hstop : p.stop.any (·.toNat = step) = decide (∃ stop ∈ p.stop, stop.toNat = step) := by
    cases p.stop <;> simp
  unfold KeyPress.changesAt KeyPress.change?
  rw [hstop]
  by_cases hs : p.start.toNat = step
  · -- a press does not end where it begins, so it makes one change at most
    have hn : ¬∃ stop ∈ p.stop, stop.toNat = step := by
      rintro ⟨stop, hstop, he⟩
      have hlt : p.start.toNat < stop.toNat := p.start_lt_stop stop hstop
      omega
    rw [if_pos hs, if_pos hs, if_neg (by rw [decide_eq_true_eq]; exact hn)]
    show (m.keypad.press (UInt8.ofNat p.key.val)).holds key = _
    rw [Keypad.holds_press]
    split <;> rfl
  · rw [if_neg hs, if_neg hs]
    by_cases hu : ∃ stop ∈ p.stop, stop.toNat = step
    · rw [if_pos hu, if_pos (decide_eq_true hu)]
      show (m.keypad.release (UInt8.ofNat p.key.val)).holds key = _
      rw [Keypad.holds_release]
      split <;> rfl
    · rw [if_neg hu, if_neg (by rw [decide_eq_true_eq]; exact hu)]
      split <;> rfl

/-- **The last press of a list that moves a key decides whether it is down**; a key that none moves stays as it was. -/
theorem holds_moveKeys (m : Machine) (script : List KeyPress) (key : Fin keyCount) (step : Nat) :
    (m.moveKeys script step).keypad.holds key = (lastChange? script key step).getD (m.keypad.holds key) := by
  unfold moveKeys keyChangesAt
  rw [List.foldl_flatMap]
  induction script using List.reverseRecOn with
  | nil => rfl
  | append_singleton script p ih =>
    rw [List.foldl_append, List.foldl_cons, List.foldl_nil, holds_changesAt, ih, lastChange?_append,
      lastChange?_singleton]
    cases p.change? key step <;> rfl

/-- The machine when a list of key presses has moved the keys before all steps from 0 to this one, and each time other
operations have followed. -/
def follow (m : Machine) (script : List KeyPress) (between : Nat → List Operation) : Nat → Machine
  | 0 => m.moveKeys script 0
  | step + 1 => ((m.follow script between step).run (between step)).moveKeys script (step + 1)

end Machine

def Operation.movesKeys : Operation → Bool
  | .step _ => false
  | .takeDirty => false
  | _ => true

theorem Keypad.after_of_quiet (k : Keypad) {history : List Operation} (h : ∀ o ∈ history, o.movesKeys = false) :
    k.after history = k := by
  induction history generalizing k with
  | nil => rfl
  | cons o history ih =>
    obtain ⟨ho, hrest⟩ := List.forall_mem_cons.1 h
    have hhear : k.hear o = k := by
      cases o with
      | step ticks => rfl
      | takeDirty => rfl
      | _ => exact nomatch ho
    show (k.hear o).after history = k
    rw [hhear, ih k hrest]

namespace Machine

section

variable {m : Machine} {between : Nat → List Operation} (hup : ∀ key, m.keypad.holds key = false)
  (hquiet : ∀ step, ∀ o ∈ between step, o.movesKeys = false) (script : List KeyPress)

section

include hup

theorem holds_follow_zero (key : Fin keyCount) :
    (m.follow script between 0).keypad.holds key = (lastChange? script key 0).getD false := by
  rw [follow, holds_moveKeys, hup]

end

section

include hquiet

theorem holds_follow_succ (key : Fin keyCount) (step : Nat) :
    (m.follow script between (step + 1)).keypad.holds key =
      (lastChange? script key (step + 1)).getD ((m.follow script between step).keypad.holds key) := by
  rw [follow, holds_moveKeys, keypad_run, Keypad.after_of_quiet _ (hquiet step)]

end

include hup hquiet

/-- **A key that is down is held by a press of the list.** -/
theorem held_of_follow {key : Fin keyCount} {step : Nat}
    (h : (m.follow script between step).keypad.holds key = true) : Held script key step := by
  induction step with
  | zero =>
    rw [holds_follow_zero hup] at h
    cases hc : lastChange? script key 0 with
    | none => rw [hc] at h; exact nomatch h
    | some down =>
      rw [hc] at h
      obtain rfl : down = true := h
      exact held_of_lastChange? hc
  | succ step ih =>
    rw [holds_follow_succ hquiet] at h
    cases hc : lastChange? script key (step + 1) with
    | none => rw [hc] at h; exact (held_succ_iff hc).2 (ih h)
    | some down =>
      rw [hc] at h
      obtain rfl : down = true := h
      exact held_of_lastChange? hc

theorem follow_of_held (ho : Orderly script) {key : Fin keyCount} {step : Nat} (h : Held script key step) :
    (m.follow script between step).keypad.holds key = true := by
  have hnot := (orderly_iff script).1 ho key
  induction step with
  | zero =>
    rw [holds_follow_zero hup]
    cases hc : lastChange? script key 0 with
    | none => exact absurd h (not_held_zero hc)
    | some down =>
      cases down with
      | false => exact absurd hc (hnot 0 h)
      | true => rfl
  | succ step ih =>
    rw [holds_follow_succ hquiet]
    cases hc : lastChange? script key (step + 1) with
    | none => exact ih ((held_succ_iff hc).1 h) -- no press of the key begins or ends here
    | some down =>
      cases down with
      | false => exact absurd hc (hnot (step + 1) h)
      | true => rfl

theorem orderly_of_follow
    (h : ∀ key step, Held script key step → (m.follow script between step).keypad.holds key = true) :
    Orderly script := by
  refine (orderly_iff script).2 fun key step hheld hc => ?_
  have hdown := h key step hheld
  cases step with
  | zero =>
    rw [holds_follow_zero hup, hc] at hdown
    exact nomatch hdown
  | succ step =>
    rw [holds_follow_succ hquiet, hc] at hdown
    exact nomatch hdown

end

/-- **A list of key presses means what it says exactly if it is orderly.**  Whatever the list, a key that is down is held
by one of its presses; and the keys that are down are at every step those that are held exactly if the list is orderly.
Where presses of a key neither overlap nor touch, their order does not matter either. -/
theorem follow_holds_iff_orderly (m : Machine) (script : List KeyPress) (between : Nat → List Operation)
    (hup : ∀ key, m.keypad.holds key = false) (hquiet : ∀ step, ∀ o ∈ between step, o.movesKeys = false) :
    (∀ key step, (m.follow script between step).keypad.holds key = true → Held script key step) ∧
    ((∀ key step, (m.follow script between step).keypad.holds key = true ↔ Held script key step) ↔ Orderly script) ∧
    (script.Pairwise KeyPress.Apart → ∀ other : List KeyPress, other.Perm script → ∀ key step,
      (m.follow other between step).keypad.holds key = true ↔ Held script key step) := by
  refine ⟨fun key step => held_of_follow hup hquiet script, ⟨fun h => ?_, fun ho key step => ?_⟩,
    fun hapart other hperm key step => ?_⟩
  · exact orderly_of_follow hup hquiet script fun key step => (h key step).2
  · exact ⟨held_of_follow hup hquiet script, follow_of_held hup hquiet script ho⟩
  · have hheld : Held script key step ↔ Held other key step :=
      exists_congr fun p => and_congr_left fun _ => hperm.mem_iff.symm
    have ho : Orderly other := orderly_of_apart ((hperm.pairwise_iff (Std.Symm.symm _ _)).2 hapart)
    rw [hheld]
    exact ⟨held_of_follow hup hquiet other, follow_of_held hup hquiet other ho⟩

/-- A machine that runs in a circle, with every key up. -/
def circling : Machine :=
  (build {} (Vector.replicate 8 0)).run [.load [0x12, 0x00]]

def pressFive (start stop : UInt64) (h : start < stop) : KeyPress :=
  { key := 5, start, stop := some stop, start_lt_stop := fun _ hs => Option.some.inj hs ▸ h }

theorem holdsAt_pressFive {start stop : UInt64} (h : start < stop) (step : Nat) :
    (pressFive start stop h).HoldsAt step ↔ start.toNat ≤ step ∧ step < stop.toNat := by
  unfold KeyPress.HoldsAt pressFive
  simp

theorem follow_holds_of_apart :
    (∀ key, circling.keypad.holds key = false) ∧ (∀ o ∈ [Operation.step 1, .takeDirty], o.movesKeys = false) ∧
    [pressFive 5 9 (by decide), pressFive 0 4 (by decide)].Pairwise KeyPress.Apart ∧
    ∀ key step, (circling.follow [pressFive 0 4 (by decide), pressFive 5 9 (by decide)]
        (fun _ => [.step 1, .takeDirty]) step).keypad.holds key = true ↔
      Held [pressFive 5 9 (by decide), pressFive 0 4 (by decide)] key step := by
  have hup : ∀ key, circling.keypad.holds key = false := by decide
  have hquiet : ∀ o ∈ [Operation.step 1, .takeDirty], o.movesKeys = false := by decide
  have hapart : [pressFive 5 9 (by decide), pressFive 0 4 (by decide)].Pairwise KeyPress.Apart := by decide
  exact ⟨hup, hquiet, hapart,
    (follow_holds_iff_orderly circling _ (fun _ => [.step 1, .takeDirty]) hup fun _ => hquiet).2.2 hapart _
      (List.Perm.swap _ _ [])⟩

/-- Of two presses that touch, the earlier one lets go of the key that the later one holds if it stands behind it in the
list, and not if it stands before it.  A press within another one always does. -/
theorem follow_lets_go_of_held :
    (Held [pressFive 3 6 (by decide), pressFive 0 3 (by decide)] 5 3 ∧
      (circling.follow [pressFive 3 6 (by decide), pressFive 0 3 (by decide)]
        (fun _ => [.step 1, .takeDirty]) 3).keypad.holds 5 = false ∧
      (circling.follow [pressFive 0 3 (by decide), pressFive 3 6 (by decide)]
        (fun _ => [.step 1, .takeDirty]) 3).keypad.holds 5 = true) ∧
    Held [pressFive 0 9 (by decide), pressFive 2 4 (by decide)] 5 4 ∧
      (circling.follow [pressFive 0 9 (by decide), pressFive 2 4 (by decide)]
        (fun _ => [.step 1, .takeDirty]) 4).keypad.holds 5 = false := by
  have hquiet : ∀ _ : Nat, ∀ o ∈ [Operation.step 1, .takeDirty], o.movesKeys = false := fun _ => by decide
  refine ⟨⟨⟨_, List.mem_cons_self, rfl, (holdsAt_pressFive _ 3).2 (by decide)⟩, ?_, ?_⟩,
    ⟨_, List.mem_cons_self, rfl, (holdsAt_pressFive _ 4).2 (by decide)⟩, ?_⟩
  · rw [holds_follow_succ hquiet]
    decide
  · rw [holds_follow_succ hquiet]
    decide
  · rw [holds_follow_succ hquiet]
    decide

end Machine

end Chip8
