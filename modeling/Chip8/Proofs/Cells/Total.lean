import Mathlib
import Chip8.Proofs.Cells.Simulation
/-!
# Total — no access is ever out of range

The bounds of cells are the sizes of the arrays, and for the numbers in them those of `Machine.WellFormed`
(`Cells.WellFormed`).  Cells within these bounds represent a well-formed machine, so by simulation every operation has a
result, and that is within the bounds again (`WellFormed.perform`).  Built cells are, so no history of any machine comes
to an access that is out of range or to a number that does not fit (`run_total`).
-/
namespace Chip8
namespace Cells

/-- The bounds of cells. -/
structure WellFormed (r : Cells) : Prop where
  registers : r.registers.size = 16
  memory : r.memory.size = memorySize
  slots : r.slots.size = stackLimit
  pixels : r.pixels.size = screenWidth * screenHeight
  keys : r.keys.size = keyCount
  depth : r.depth.toNat ≤ stackLimit
  /-- a whole word stands at every return address -/
  callers : ∀ i < r.depth.toNat, ∃ caller, r.slots[i]? = some caller ∧ caller.toNat ≤ 0xFFE
  /-- a jump with an offset goes at most a byte further than an address -/
  pc : r.pc.toNat ≤ 0x10FE
  held : ∀ key, r.held = some key → key.toNat < keyCount

/-- **Cells that represent a well-formed machine keep the bounds.** -/
theorem Represents.wellFormed {r : Cells} {m : Machine} (h : r.Represents m) (wf : m.WellFormed) : r.WellFormed where
  registers := by rw [h.registers, m.registers.size_toArray]
  memory := by rw [h.memory, m.memory.size_toArray]
  slots := h.slots
  pixels := h.pixels.size
  keys := by rw [h.keys, m.keypad.size_toArray]
  depth := by rw [h.depth]; exact wf.depth
  callers := by
    intro i hi
    rw [h.depth] at hi
    have hi' : i < m.stack.reverse.length := by rw [List.length_reverse]; exact hi
    exact ⟨m.stack.reverse[i], by rw [h.calls i hi, List.getElem?_eq_getElem hi'],
      wf.callers _ (List.mem_reverse.1 (List.getElem_mem hi'))⟩
  pc := by rw [h.pc]; exact wf.pc
  held := by
    intro key hk
    rw [h.held] at hk
    cases hw : m.keyWait with
    | idle => rw [hw] at hk; exact nomatch hk
    | awaiting held =>
      rw [hw, KeyWait.held?, Option.some.injEq] at hk
      rw [← hk, UInt8.toNat_ofNat_of_lt' (Nat.lt_trans held.isLt (by decide))]
      exact held.isLt

/-! ## The machine of cells -/

def screen (r : Cells) : Screen :=
  Vector.ofFn fun y => BitVec.ofFnBE fun x => r.pixels[y.val * screenWidth + x.val]?.getD false

def calls (r : Cells) : List UInt16 :=
  (r.slots.toList.take r.depth.toNat).reverse

def machine (r : Cells) (wf : r.WellFormed) : Machine where
  config := r.config
  registers := ⟨r.registers, wf.registers⟩
  index := r.index
  pc := r.pc
  stack := r.calls
  timers := r.timers
  memory := ⟨r.memory, wf.memory⟩
  display := { screen := r.screen, dirty := r.dirty }
  keypad := ⟨r.keys, wf.keys⟩
  keyWait := r.held.elim .idle fun key => .awaiting (Nibble.ofNat key.toNat)
  status := r.status
  generator := r.generator

theorem stack_machine {r : Cells} (wf : r.WellFormed) : (r.machine wf).stack = r.calls := rfl

theorem length_calls {r : Cells} (wf : r.WellFormed) : r.calls.length = r.depth.toNat := by
  unfold calls
  rw [List.length_reverse, List.length_take, Array.length_toList, wf.slots]
  exact Nat.min_eq_left wf.depth

theorem shows_screen {r : Cells} (wf : r.WellFormed) : Shows r.pixels r.screen.pixel where
  size := wf.pixels
  pixel x y hx hy := by
    have hi : y * screenWidth + x < r.pixels.size := by
      rw [wf.pixels]
      exact pixelCell_lt hx hy
    unfold Screen.pixel screen
    rw [Vector.getElem?_ofFn, dif_pos hy, Option.getD_some, BitVec.getMsbD_ofFnBE, dif_pos hx,
      Array.getElem?_eq_getElem hi, Option.getD_some]

theorem held?_machine {r : Cells} (wf : r.WellFormed) : r.held = (r.machine wf).keyWait.held? := by
  show r.held = (r.held.elim KeyWait.idle fun key => .awaiting (Nibble.ofNat key.toNat)).held?
  cases hk : r.held with
  | none => rfl
  | some key =>
    have hlt : key.toNat % 16 = key.toNat := Nat.mod_eq_of_lt (wf.held key hk)
    show some key = some (UInt8.ofNat (key.toNat % 16))
    rw [hlt, UInt8.ofNat_toNat]

theorem represents_machine {r : Cells} (wf : r.WellFormed) : r.Represents (r.machine wf) where
  config := rfl
  registers := rfl
  index := rfl
  pc := rfl
  slots := wf.slots
  depth := (length_calls wf).symm
  calls i hi := by
    rw [stack_machine, length_calls wf] at hi
    rw [stack_machine, calls, List.reverse_reverse, List.getElem?_take_of_lt hi, Array.getElem?_toList]
  timers := rfl
  memory := rfl
  pixels := shows_screen wf
  dirty := rfl
  keys := rfl
  held := held?_machine wf
  status := rfl
  generator := rfl

theorem wellFormed_machine {r : Cells} (wf : r.WellFormed) : (r.machine wf).WellFormed where
  depth := by
    rw [stack_machine, length_calls wf]
    exact wf.depth
  callers := by
    intro caller hc
    have hmem : caller ∈ r.slots.toList.take r.depth.toNat := List.mem_reverse.1 hc
    obtain ⟨i, hi, hget⟩ := List.getElem_of_mem hmem
    rw [List.length_take] at hi
    obtain ⟨caller', hs, hle⟩ := wf.callers i (by omega)
    rw [List.getElem_take, Array.getElem_toList] at hget
    rw [Array.getElem?_eq_getElem (by rw [← Array.length_toList]; omega), hget, Option.some.injEq] at hs
    rwa [hs]
  pc := wf.pc

/-! ## No access is out of range -/

/-- **An operation on cells that keep the bounds has a result**, which keeps them too. -/
theorem WellFormed.perform {r : Cells} (wf : r.WellFormed) (o : Operation) :
    ∃ r', r.perform? o = some r' ∧ r'.WellFormed := by
  obtain ⟨r', hr, hrep⟩ := represents_perform (represents_machine wf) (wellFormed_machine wf) o
  exact ⟨r', hr, hrep.wellFormed (Machine.wellFormed_perform _ o (wellFormed_machine wf))⟩

theorem WellFormed.pixel {r : Cells} (wf : r.WellFormed) (x y : Nat) : ∃ on, r.pixel? x y = some on := by
  unfold pixel?
  by_cases hxy : screenWidth ≤ x ∨ screenHeight ≤ y
  · exact ⟨false, if_pos hxy⟩
  · rw [if_neg hxy]
    exact ⟨_, (shows_screen wf).pixel x y (by omega) (by omega)⟩

/-- **No history comes to an access that is out of range, or to a number that does not fit.**  Built cells and any list
of operations on them have a result, which represents what the history makes of the machine.  It keeps the bounds, with
the program counter past memory only if the last instruction that was executed is a jump with an offset; and in all
cells that keep the bounds every operation has a result that keeps them too, and every pixel can be asked for. -/
theorem run_total (config : Config) (entropy : Random.Key) (history : List Operation) :
    (∃ r, (build? config entropy).bind (·.run? history) = some r ∧
      r.Represents ((Machine.build config entropy).run history) ∧ r.WellFormed ∧
      (0x1000 ≤ r.pc.toNat →
        ∃ nnn, lastExecuted? ((Machine.build config entropy).trace history) = some (.jumpOffset nnn))) ∧
    ∀ r : Cells, r.WellFormed →
      (∀ o, ∃ r', r.perform? o = some r' ∧ r'.WellFormed) ∧ ∀ x y, ∃ on, r.pixel? x y = some on := by
  constructor
  · have wf : (Machine.build config entropy).WellFormed := Machine.wellFormed_initial _ _
    obtain ⟨r₀, hbuild, hrep₀⟩ := represents_build config entropy
    obtain ⟨r, hrun, hrep⟩ := represents_run hrep₀ wf history
    have hwf := hrep.wellFormed (Machine.run_induction Machine.wellFormed_perform wf history)
    refine ⟨r, by rw [hbuild]; exact hrun, hrep, hwf, fun hpc => ?_⟩
    rw [hrep.pc] at hpc
    exact Machine.pc_past_memory wf (show 0 < 0x1000 by decide) history hpc
  · exact fun r wf => ⟨wf.perform, wf.pixel⟩

end Cells

end Chip8
