import Mathlib
import Chip8.Proofs.Cells.Draw
import Chip8.Proofs.Invariant
import Chip8.Proofs.Keypad
/-!
# Simulation — what cells do is what the machine does

Every instruction on cells that represent a well-formed machine has a result, and its result represents what the
instruction makes of the machine (`agrees_execute`, one case for each instruction).  So does every operation
(`represents_perform`) and every history (`represents_run`).
-/
namespace Chip8
namespace Cells

section

variable {r : Cells} {m : Machine} (h : r.Represents m)
include h

theorem agrees_next : Agrees (r.advance? 2) m.next :=
  agrees_advance h 2 (by decide)

theorem agrees_setRegister_next (x : Register) (v : UInt8) :
    Agrees ((r.setRegister? x v).bind (·.advance? 2)) (m.setRegister x v).next := by
  rw [setRegister?_eq h, Option.bind_some]
  exact agrees_next (represents_setRegister h x v)

/-! ## Blocks -/

theorem agrees_afterBlock (n : Nat) {go? : Cells → Option Result} {go : Machine → Outcome}
    (hgo : Agrees (go? r) (go m)) :
    Agrees (afterBlock? ⟨r, (firstOutside? m.index.toNat n).map .outOfBounds⟩ go?) (m.ifBlockFits n go) := by
  unfold Machine.ifBlockFits
  cases firstOutside? m.index.toNat n with
  | none => exact hgo
  | some address => exact ⟨r, rfl, h⟩

theorem agrees_passBlock (hi : m.index.toNat ≤ memorySize) {n : Nat} (hn : n ≤ 16) :
    Agrees (r.passBlock? n) (m.passBlock n).next := by
  have hfit : m.index.toNat + n < wordLimit := by
    have : m.index.toNat ≤ 4096 := hi
    show m.index.toNat + n < 65536
    omega
  unfold passBlock? Machine.passBlock
  rw [h.config, h.index]
  cases m.config.dialect.transfer with
  | advanced =>
    simp only [fit?_eq hfit, Option.bind_eq_bind, Option.bind_some]
    exact agrees_next { h with config := rfl, index := rfl }
  | restored => exact agrees_next h

theorem agrees_afterTransfer (x : Register) :
    Agrees (afterBlock? ⟨r, (firstOutside? m.index.toNat (x.val + 1)).map .outOfBounds⟩ (·.passBlock? (x.val + 1)))
      (m.afterTransfer x) := by
  unfold Machine.afterTransfer
  by_cases hfits : m.index.toNat + (x.val + 1) ≤ memorySize
  · exact agrees_afterBlock h _ (agrees_passBlock h (by omega) x.isLt)
  · have hout := firstOutside?_eq m.index.toNat (x.val + 1)
    rw [if_neg (by omega)] at hout
    unfold Machine.ifBlockFits
    rw [hout]
    exact ⟨r, rfl, h⟩

omit h in
theorem index_add_lt (index : UInt16) {n : Nat} (hn : n ≤ 16) : index.toNat + 0 + n ≤ indexLimit := by
  have : index.toNat < 65536 := index.toNat_lt
  show index.toNat + 0 + n ≤ 18446744073709551616
  omega

theorem storeAtIndex_eq (value? : Nat → Option UInt8) (values : List UInt8) (hv : ∀ k < values.length,
    value? k = values[k]?) (hn : values.length ≤ 16) :
    ∃ r', writeBlock? value? r.index.toNat r 0 values.length =
        some ⟨r', (firstOutside? m.index.toNat values.length).map .outOfBounds⟩ ∧
      r'.Represents (m.storeAtIndex values) := by
  have hw := writeBlock?_eq value? m.index.toNat values r m.memory 0 h.memory
    (fun k hk => by rw [Nat.zero_add]; exact hv k hk) (index_add_lt m.index hn)
  rw [Nat.add_zero] at hw
  rw [h.index]
  exact ⟨_, hw, { h with memory := rfl }⟩

theorem loadFromIndex_eq {n : Nat} (hn : n ≤ 16) :
    ∃ r', readBlock? r.index.toNat r 0 n = some ⟨r', (firstOutside? m.index.toNat n).map .outOfBounds⟩ ∧
      r'.Represents (m.loadFromIndex n) := by
  have hnil : m.memory.load m.index.toNat 0 = [] := rfl
  have hr := readBlock?_eq m.index.toNat m.memory m.registers n r 0 h.memory
    (by rw [hnil, Registers.overwrite_nil]; exact h.registers) (by omega) (index_add_lt m.index hn)
  rw [Nat.add_zero, Nat.zero_add] at hr
  rw [h.index]
  refine ⟨_, hr, ?_⟩
  unfold Machine.loadFromIndex
  exact { h with registers := rfl }

/-! ## Sprites -/

theorem agrees_draw (x y : Register) (n : Nibble) : Agrees (r.draw? x y n) (m.draw x y n) := by
  have hy : (m.register y).toNat % screenHeight < screenHeight := Nat.mod_lt _ (by decide)
  have hpart := drawn_nothing h.pixels (m.spriteMask x y n).pixel ((m.register y).toNat % screenHeight + 0)
    ((m.register x).toNat % screenWidth) (fun px py hm => by have := sprite_bounds hm; omega)
  obtain ⟨pixels, erased, hrows, hdrawn⟩ := drawRows?_eq m.memory n.val hy m.index.toNat_lt n.val
    { r with dirty := true } false 0 h.memory (Nat.zero_add _) (Nat.le_of_lt n.isLt) hpart
  have hmeets : erased = m.display.screen.meets (m.spriteMask x y n) := by
    rw [Bool.eq_iff_iff, hdrawn.erased, Screen.meets_iff]
    rfl
  have hdrew : Represents { r with dirty := true, pixels }
      { m with display := m.display.draw (m.spriteMask x y n) } := by
    refine { h with dirty := rfl, pixels := ⟨hdrawn.pixels.size, fun px py hpx hpy => ?_⟩ }
    rw [hdrawn.pixels.pixel px py hpx hpy]
    show _ = some ((m.display.screen.invert _).pixel px py)
    rw [Screen.pixel_invert]
    rfl
  rw [Machine.draw_eq]
  unfold draw?
  rw [register?_eq h, register?_eq h, show r.index.toNat = m.index.toNat from congrArg _ h.index]
  simp only [Option.bind_eq_bind, Option.bind_some, hrows, Nat.add_zero, Nat.sub_zero]
  rw [hmeets]
  exact agrees_afterBlock hdrew (m.visibleRows y n) (agrees_setRegister_next hdrew .flag _)

/-! ## Instructions -/

theorem condition?_eq (c : Condition) : r.condition? c = some (c.holds m.registers m.keypad) := by
  cases c with
  | equalsByte x nn => simp only [condition?, register?_eq h]; rfl
  | differsByte x nn => simp only [condition?, register?_eq h]; rfl
  | equals x y => simp only [condition?, register?_eq h]; rfl
  | differs x y => simp only [condition?, register?_eq h]; rfl
  | keyDown x =>
    simp only [condition?, register?_eq h, isDown_eq h]
    rfl
  | keyUp x =>
    simp only [condition?, register?_eq h, isDown_eq h]
    rfl

theorem agrees_combine (op : Operator) (x y : Register) :
    Agrees ((r.combine? op x y).bind (·.advance? 2)) (m.combine op x y).next := by
  unfold combine? Machine.combine
  rw [register?_eq h, register?_eq h, h.config]
  simp only [Option.bind_eq_bind, Option.bind_some]
  rcases op.apply m.config.dialect.shift (m.register x) (m.register y) with ⟨value, _ | flag⟩
  · exact agrees_setRegister_next h x value
  · simp only [setRegister?_eq h, Option.bind_some]
    exact agrees_setRegister_next (represents_setRegister h x value) .flag flag.toUInt8

theorem firstDown?_eq : r.firstDown? = m.keypad.firstDown?.map fun key => UInt8.ofNat key.val := by
  unfold firstDown?
  rw [h.keys, Keypad.findIdx?_toList, Option.map_map]
  rfl

theorem agrees_waitKey (x : Register) : Agrees (r.waitKey? x) (m.waitKey x) := by
  unfold waitKey?
  rw [h.held, firstDown?_eq h]
  cases hw : m.keyWait with
  | idle =>
    cases hd : m.keypad.firstDown? with
    | none =>
      rw [Machine.waitKey_of_none_down hw hd]
      exact ⟨r, rfl, h⟩
    | some key =>
      rw [Machine.waitKey_of_down hw hd]
      exact ⟨_, rfl, { h with timers := congrArg Timers.start h.timers, held := rfl }⟩
  | awaiting key =>
    have hdown : r.isDown (UInt8.ofNat key.val) = m.keypad.holds key := by
      rw [isDown_eq h, Keypad.isDown_ofNat]
    cases hk : m.keypad.holds key with
    | true =>
      rw [Machine.waitKey_of_held hw hk]
      simp only [KeyWait.held?, hdown, hk, ↓reduceIte]
      exact ⟨_, rfl, { h with timers := congrArg Timers.hold h.timers, held := (congrArg KeyWait.held? hw).symm }⟩
    | false =>
      rw [Machine.waitKey_of_released hw hk]
      simp only [KeyWait.held?, hdown, hk, Bool.false_eq_true, ↓reduceIte, setRegister?_eq h, Option.bind_eq_bind,
        Option.bind_some]
      exact agrees_next { represents_setRegister h x (UInt8.ofNat key.val) with
        timers := congrArg Timers.silence h.timers, held := rfl }

theorem agrees_pointToGlyph (x : Register) :
    Agrees ((r.pointToGlyph? x).bind (·.advance? 2)) (m.pointToGlyph x).next := by
  unfold pointToGlyph? Machine.pointToGlyph
  rw [register?_eq h]
  simp only [Option.bind_eq_bind, Option.bind_some]
  by_cases hv : m.register x < 16
  · have hfit : glyphHeight * (m.register x).toNat < wordLimit := by
      have : (m.register x).toNat < 16 := hv
      show 5 * (m.register x).toNat < 65536
      omega
    simp only [hv, ↓reduceIte, fit?_eq hfit, Option.bind_some]
    exact agrees_next { h with index := rfl }
  · simp only [hv, ↓reduceIte, Option.bind_some]
    exact agrees_next h

theorem agrees_jumpOffset (nnn : Address) :
    Agrees (r.execute? (.jumpOffset nnn)) (m.execute (.jumpOffset nnn)) := by
  have hfit : nnn.val + (m.register .offset).toNat < wordLimit := by
    have hn : nnn.val < 4096 := nnn.isLt
    have hv : (m.register .offset).toNat < 256 := UInt8.toNat_lt _
    show _ < 65536
    omega
  simp only [execute?, register?_eq h, Option.bind_eq_bind, Option.bind_some, fit?_eq hfit]
  exact ⟨_, rfl, { h with pc := rfl }⟩

theorem agrees_storeDecimal (x : Register) :
    Agrees (r.execute? (.storeDecimal x)) (m.execute (.storeDecimal x)) := by
  obtain ⟨r', hw, hr⟩ := storeAtIndex_eq h ((decimalDigits (m.register x))[·]?) (decimalDigits (m.register x))
    (fun _ _ => rfl) (Nat.le_of_ble_eq_true rfl)
  simp only [execute?, register?_eq h, Option.bind_eq_bind, Option.bind_some]
  rw [show (decimalDigits (m.register x)).length = 3 from rfl] at hw
  rw [hw, Option.bind_some]
  exact agrees_afterBlock hr 3 (agrees_next hr)

theorem agrees_storeRegisters (x : Register) :
    Agrees (r.execute? (.storeRegisters x)) (m.execute (.storeRegisters x)) := by
  have hlength : (m.registers.upTo x).length = x.val + 1 := by
    unfold Registers.upTo
    rw [List.length_take, Vector.length_toList]
    exact Nat.min_eq_left x.isLt
  obtain ⟨r', hw, hr⟩ := storeAtIndex_eq h (r.registers[·]?) (m.registers.upTo x)
    (fun k hk => by
      rw [hlength] at hk
      unfold Registers.upTo
      rw [h.registers, Vector.getElem?_toArray, List.getElem?_take_of_lt hk, Vector.getElem?_toList])
    (by rw [hlength]; exact x.isLt)
  rw [hlength] at hw
  simp only [execute?, hw, Option.bind_eq_bind, Option.bind_some]
  exact agrees_afterTransfer hr x

theorem agrees_loadRegisters (x : Register) :
    Agrees (r.execute? (.loadRegisters x)) (m.execute (.loadRegisters x)) := by
  obtain ⟨r', hl, hr⟩ := loadFromIndex_eq h (n := x.val + 1) x.isLt
  simp only [execute?, hl, Option.bind_eq_bind, Option.bind_some]
  exact agrees_afterTransfer hr x

end

/-- **An instruction on cells does what it does on the machine**; in particular it has a result. -/
theorem agrees_execute {r : Cells} {m : Machine} (h : r.Represents m) (wf : m.WellFormed) (i : Instruction) :
    Agrees (r.execute? i) (m.execute i) := by
  cases i with
  | machineRoutine nnn => exact ⟨r, rfl, h⟩
  | clearScreen => exact agrees_next { h with dirty := rfl, pixels := h.pixels.clear }
  | returnFromCall => exact agrees_returnFromCall h wf.depth
  | jump nnn => exact ⟨_, rfl, { h with pc := rfl }⟩
  | call nnn => exact agrees_call h nnn
  | jumpOffset nnn => exact agrees_jumpOffset h nnn
  | skip condition =>
    simp only [execute?, condition?_eq h, Option.bind_eq_bind, Option.bind_some]
    exact agrees_advance h _ (by split <;> decide)
  | setByte x nn => exact agrees_setRegister_next h x nn
  | addByte x nn =>
    simp only [execute?, register?_eq h, Option.bind_eq_bind, Option.bind_some]
    exact agrees_setRegister_next h x _
  | combine op x y => exact agrees_combine h op x y
  | setIndex nnn => exact agrees_next { h with index := rfl }
  | random x nn =>
    simp only [execute?, setRegister?_eq h, h.generator, Option.bind_eq_bind, Option.bind_some]
    exact agrees_next { represents_setRegister h x (m.generator.next.1.toUInt8 &&& nn) with generator := rfl }
  | draw x y n => exact agrees_draw h x y n
  | readDelay x =>
    simp only [execute?, h.timers]
    exact agrees_setRegister_next h x _
  | waitKey x => exact agrees_waitKey h x
  | setDelay x =>
    simp only [execute?, register?_eq h, h.timers, Option.bind_eq_bind, Option.bind_some]
    exact agrees_next { h with timers := rfl }
  | setSound x =>
    simp only [execute?, register?_eq h, h.timers, Option.bind_eq_bind, Option.bind_some]
    exact agrees_next { h with timers := rfl }
  | addIndex x =>
    simp only [execute?, register?_eq h, h.index, Option.bind_eq_bind, Option.bind_some]
    exact agrees_next { h with index := rfl }
  | fontGlyph x => exact agrees_pointToGlyph h x
  | storeDecimal x => exact agrees_storeDecimal h x
  | storeRegisters x => exact agrees_storeRegisters h x
  | loadRegisters x => exact agrees_loadRegisters h x

/-! ## Operations -/

/-- **A cycle of the cells executes the instruction that the machine finds**, and meets the same fault if there is
none. -/
theorem cycle?_eq {r : Cells} {m : Machine} (h : r.Represents m) :
    r.cycle? = m.upcoming?.elim (some { cells := r, fault := some m.missingFault }) r.execute? := by
  have hmem : ∀ {a : Nat} (ha : a < memorySize), r.memory[a]? = some (m.memory.byte a) := fun {a} ha => by
    unfold Memory.byte
    rw [h.memory, Vector.getElem?_toArray, Vector.getElem?_eq_getElem ha, Option.getD_some]
  have hword : UInt16.ofNat (256 * (m.memory.byte m.pc.toNat).toNat + (m.memory.byte (m.pc.toNat + 1)).toNat) =
      m.currentWord := rfl
  unfold cycle? Machine.upcoming? Machine.missingFault
  rw [h.pc]
  by_cases ha : m.pc.toNat < memorySize
  · have hb : m.pc.toNat + 1 < indexLimit := Nat.lt_of_le_of_lt ha (by decide)
    simp only [ha, ↓reduceIte, hmem ha, fit?_eq hb, Option.bind_eq_bind, Option.bind_some]
    by_cases hb : m.pc.toNat + 1 < memorySize
    · have hpc : m.pc.toNat ≤ 0xFFE := Nat.le_of_lt_succ (Nat.lt_of_succ_lt_succ hb)
      simp only [hb, hpc, ↓reduceIte, hmem hb, Option.bind_some, hword]
      cases Instruction.decode? m.currentWord <;> rfl
    · have hpc : ¬m.pc.toNat ≤ 0xFFE := fun hpc => hb (Nat.succ_lt_succ (Nat.lt_succ_of_le hpc))
      simp only [hb, hpc, ↓reduceIte, Option.elim_none]
      rw [Nat.max_eq_right (Nat.le_of_lt ha), show m.pc.toNat + 1 = memorySize from Nat.le_antisymm ha (Nat.not_lt.1 hb)]
  · have hpc : ¬m.pc.toNat ≤ 0xFFE := fun hpc => ha (Nat.lt_of_le_of_lt hpc (by decide))
    simp only [ha, hpc, ↓reduceIte, Option.elim_none]
    rw [Nat.max_eq_left (Nat.not_lt.1 ha)]

theorem represents_step {r : Cells} {m : Machine} (h : r.Represents m) (wf : m.WellFormed) (ticks : Nat) :
    ∃ r', r.step? ticks = some r' ∧ r'.Represents (m.step ticks) := by
  unfold step?
  rw [show r.status.isOk = m.status.isOk from congrArg _ h.status]
  by_cases ok : m.status = .ok
  · have hr : Represents { r with timers := r.timers.elapse ticks } (m.elapse ticks) :=
      { h with timers := congrArg (·.elapse ticks) h.timers }
    rw [if_pos (Status.isOk_iff.2 ok), cycle?_eq hr, show (m.elapse ticks).upcoming? = m.upcoming? from rfl]
    cases hu : m.upcoming? with
    | none =>
      rw [Machine.step_of_missing ok hu]
      exact ⟨_, rfl, { hr with status := rfl }⟩
    | some i =>
      rw [Machine.step_of_upcoming? ok hu]
      obtain ⟨r', hexecute, hrep⟩ := agrees_execute hr (Machine.wellFormed_elapse wf ticks) i
      rw [Option.elim_some, hexecute]
      unfold Outcome.settled
      simp only [Option.bind_eq_bind, Option.bind_some]
      cases ((m.elapse ticks).execute i).fault with
      | none => exact ⟨r', rfl, hrep⟩
      | some fault => exact ⟨_, rfl, { hrep with status := rfl }⟩
  · rw [Machine.step_of_not_ok ok, if_neg fun hok => ok (Status.isOk_iff.1 hok)]
    exact ⟨r, rfl, h⟩

theorem represents_reset {r : Cells} (hr : r.memory.size = memorySize) :
    ∃ r', r.reset? = some r' ∧ r'.Represents (.initial r.config (r.config.generator r.generator)) := by
  have hzero : (r.memory.map fun _ => (0 : UInt8)) = Memory.zero.toArray := by
    rw [Array.map_const', hr]
    rfl
  have hfont : 0 + r.config.font.toList.length ≤ memorySize := by
    rw [Vector.length_toList]
    decide
  unfold reset?
  rw [hzero, copy?_eq Memory.zero hfont]
  exact ⟨_, rfl,
    { config := rfl
      registers := rfl
      index := rfl
      pc := rfl
      slots := Array.size_replicate
      depth := rfl
      calls := nofun
      timers := rfl
      memory := rfl
      pixels := shows_blank
      dirty := rfl
      keys := rfl
      held := rfl
      status := rfl
      generator := rfl }⟩

theorem represents_load {r : Cells} {m : Machine} (h : r.Represents m) (program : List UInt8) :
    ∃ r', r.load? program = some r' ∧ r'.Represents (m.load program) := by
  obtain ⟨r', hr, hrep⟩ := represents_reset (r := r) (by rw [h.memory, m.memory.size_toArray])
  rw [h.config, h.generator, show Machine.initial _ _ = m.reset from rfl] at hrep
  unfold load? Machine.load Machine.loadTraced
  rw [hr]
  simp only [Option.bind_eq_bind, Option.bind_some]
  by_cases hp : program.length ≤ programCapacity
  · have hfits : programStart + program.length ≤ memorySize := by
      have : program.length ≤ 4096 - 0x200 := hp
      show 0x200 + program.length ≤ 4096
      omega
    simp only [hp, ↓reduceIte, hrep.memory, copy?_eq m.reset.memory hfits, Option.bind_some]
    exact ⟨_, rfl, { hrep with memory := rfl, status := rfl, pc := rfl }⟩
  · simp only [hp, ↓reduceIte]
    exact ⟨_, rfl, { hrep with status := rfl, pc := rfl }⟩

/-- **Building cells has a result**, and it is the machine that is built. -/
theorem represents_build (config : Config) (entropy : Random.Key) :
    ∃ r, build? config entropy = some r ∧ r.Represents (Machine.build config entropy) :=
  represents_reset Array.size_replicate

/-- **Every operation on cells has a result**, and it is what the operation makes of the machine. -/
theorem represents_perform {r : Cells} {m : Machine} (h : r.Represents m) (wf : m.WellFormed) (o : Operation) :
    ∃ r', r.perform? o = some r' ∧ r'.Represents (m.perform o) := by
  cases o with
  | load program => exact represents_load h program
  | step ticks => exact represents_step h wf ticks
  | keyDown key =>
    refine ⟨_, rfl, { h with keys := ?_ }⟩
    show r.keys.setIfInBounds key.toNat true = (m.keypad.setIfInBounds key.toNat true).toArray
    rw [h.keys, Vector.toArray_setIfInBounds]
  | keyUp key =>
    refine ⟨_, rfl, { h with keys := ?_ }⟩
    show r.keys.setIfInBounds key.toNat false = (m.keypad.setIfInBounds key.toNat false).toArray
    rw [h.keys, Vector.toArray_setIfInBounds]
  | takeDirty => exact ⟨_, rfl, { h with dirty := rfl }⟩

/-- **Every history of cells has a result**, and it is what the history makes of the machine. -/
theorem represents_run {r : Cells} {m : Machine} (h : r.Represents m) (wf : m.WellFormed) (history : List Operation) :
    ∃ r', r.run? history = some r' ∧ r'.Represents (m.run history) := by
  induction history generalizing r m with
  | nil => exact ⟨r, rfl, h⟩
  | cons o history ih =>
    obtain ⟨r', hr, hrep⟩ := represents_perform h wf o
    obtain ⟨r'', hrun, hrep'⟩ := ih hrep (Machine.wellFormed_perform m o wf)
    exact ⟨r'', by unfold run?; rw [List.foldlM_cons, hr]; exact hrun, hrep'⟩

end Cells

end Chip8
