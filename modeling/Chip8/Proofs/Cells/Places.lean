import Mathlib
import Chip8.Proofs.Cells.Total
import Chip8.Proofs.Words
/-!
# Places — the return addresses that are no longer in use

A machine knows the calls that are open, and its cells hold sixteen return addresses, of which those from `depth` on are
left over from calls that have returned.  No machine ever reads them, but two machines may be said to agree to the last
cell only if they agree there too.  They can be told from a history without cells: a call writes the address that it is
made from to the place at its depth, a load empties all the places, and nothing else touches them
(`placesAfter`, `placesOver`).  A machine and its places make the cells (`Stores.unique`), so whatever is proved of
machines and their places is proved of cells (`reached?_eq_some_iff`).
-/
namespace Chip8

/-- The places for return addresses, whether they are in use or not. -/
abbrev Places := Vector UInt16 stackLimit

def Places.empty : Places := Vector.replicate stackLimit 0

namespace Machine

def placesAfter (m : Machine) (places : Places) : Operation → Places
  | .load _ => .empty
  | .step _ =>
    if m.Executes [some 0x2, none, none, none] then places.setIfInBounds m.stack.length m.pc else places
  | _ => places

def placesOver (m : Machine) (places : Places) : List Operation → Places
  | [] => places
  | o :: history => (m.perform o).placesOver (m.placesAfter places o) history

theorem placesOver_append (m : Machine) (places : Places) (h₁ h₂ : List Operation) :
    m.placesOver places (h₁ ++ h₂) = (m.run h₁).placesOver (m.placesOver places h₁) h₂ := by
  induction h₁ generalizing m places with
  | nil => rfl
  | cons o h₁ ih => exact ih (m.perform o) (m.placesAfter places o)

theorem placesAfter_of_call {m : Machine} {nnn : Address} (ok : m.status = .ok) (hu : m.upcoming? = some (.call nnn))
    (places : Places) (ticks : Nat) :
    m.placesAfter places (.step ticks) = places.setIfInBounds m.stack.length m.pc :=
  if_pos ((executes_iff ok hu).2 rfl)

theorem placesAfter_of_not_call {m : Machine} {i : Instruction} (ok : m.status = .ok) (hu : m.upcoming? = some i)
    (hi : ∀ nnn, i ≠ .call nnn) (places : Places) (ticks : Nat) : m.placesAfter places (.step ticks) = places := by
  refine if_neg fun h => ?_
  rw [executes_iff ok hu] at h
  cases i with
  | call nnn => exact hi nnn rfl
  | skip condition => simp [Instruction.digits, fits_skip condition 0x2 (by decide)] at h
  | _ => simp [Pattern.fits, Instruction.digits] at h

end Machine

namespace Cells

/-! ## What an instruction leaves in the places -/

def slotsAfter (r : Cells) : Instruction → Array UInt16
  | .call _ => r.slots.setIfInBounds r.depth.toNat r.pc
  | _ => r.slots

section

variable {r r' : Cells} {result : Result} {slots : Array UInt16}

theorem slots_advance? {distance : Nat} (h : result ∈ r.advance? distance) (hr : r.slots = slots) :
    result.cells.slots = slots := by
  obtain ⟨next, -, h⟩ := Option.mem_bind_iff.1 h
  split at h
  · obtain ⟨pc, -, h⟩ := Option.mem_bind_iff.1 h
    rw [← Option.mem_some_iff.1 h, hr]
  · rw [← Option.mem_some_iff.1 h, hr]

theorem slots_setRegister? {x : Register} {v : UInt8} (h : r' ∈ r.setRegister? x v) (hr : r.slots = slots) :
    r'.slots = slots := by
  obtain ⟨registers, -, h⟩ := Option.mem_bind_iff.1 h
  rw [← Option.mem_some_iff.1 h, hr]

theorem slots_combine? {op : Operator} {x y : Register} (h : r' ∈ r.combine? op x y) : r'.slots = r.slots := by
  obtain ⟨a, -, h⟩ := Option.mem_bind_iff.1 h
  obtain ⟨b, -, h⟩ := Option.mem_bind_iff.1 h
  split at h
  · exact slots_setRegister? h rfl
  · obtain ⟨r₁, hr, h⟩ := Option.mem_bind_iff.1 h
    exact slots_setRegister? h (slots_setRegister? hr rfl)

theorem slots_pointToGlyph? {x : Register} (h : r' ∈ r.pointToGlyph? x) : r'.slots = r.slots := by
  obtain ⟨v, -, h⟩ := Option.mem_bind_iff.1 h
  split at h
  · obtain ⟨a, -, h⟩ := Option.mem_bind_iff.1 h
    rw [← Option.mem_some_iff.1 h]
  · rw [← Option.mem_some_iff.1 h]

theorem slots_returnFromCall? (h : result ∈ r.returnFromCall?) : result.cells.slots = r.slots := by
  unfold returnFromCall? at h
  split at h
  · rw [← Option.mem_some_iff.1 h]
  · obtain ⟨depth, -, h⟩ := Option.mem_bind_iff.1 h
    obtain ⟨pc, -, h⟩ := Option.mem_bind_iff.1 h
    exact slots_advance? h rfl

theorem slots_call? {nnn : Address} (h : result ∈ r.call? nnn) (hs : r.slots.size = stackLimit) :
    result.cells.slots = r.slots.setIfInBounds r.depth.toNat r.pc := by
  unfold call? at h
  split at h
  · rename_i hfull
    rw [← Option.mem_some_iff.1 h, Array.setIfInBounds_eq_of_size_le (by rw [hs]; exact hfull)]
  · rename_i hroom
    rw [put?_eq (by rw [hs]; exact Nat.not_le.1 hroom), Option.bind_eq_bind, Option.bind_some] at h
    obtain ⟨depth, -, h⟩ := Option.mem_bind_iff.1 h
    rw [← Option.mem_some_iff.1 h]

theorem slots_waitKey? {x : Register} (h : result ∈ r.waitKey? x) : result.cells.slots = r.slots := by
  unfold waitKey? at h
  split at h
  · split at h
    · rw [← Option.mem_some_iff.1 h]
    · rw [← Option.mem_some_iff.1 h]
  · split at h
    · rw [← Option.mem_some_iff.1 h]
    · obtain ⟨r₁, hr, h⟩ := Option.mem_bind_iff.1 h
      have hset := slots_setRegister? hr rfl
      exact slots_advance? h hset

/-! ### Blocks and sprites -/

theorem slots_passBlock? {n : Nat} (h : result ∈ r.passBlock? n) (hr : r.slots = slots) :
    result.cells.slots = slots := by
  unfold passBlock? at h
  split at h
  · obtain ⟨index, -, h⟩ := Option.mem_bind_iff.1 h
    exact slots_advance? h hr
  · exact slots_advance? h hr

theorem slots_afterBlock? {block : Result} {go : Cells → Option Result} (h : result ∈ afterBlock? block go)
    (hgo : result ∈ go block.cells → block.cells.slots = slots → result.cells.slots = slots)
    (hblock : block.cells.slots = slots) : result.cells.slots = slots := by
  unfold afterBlock? at h
  split at h
  · rw [← Option.mem_some_iff.1 h, hblock]
  · exact hgo h hblock

theorem slots_writeBlock? {value? : Nat → Option UInt8} {start offset n : Nat}
    (h : result ∈ writeBlock? value? start r offset n) (hr : r.slots = slots) : result.cells.slots = slots := by
  induction n generalizing r offset with
  | zero => rw [← Option.mem_some_iff.1 h, hr]
  | succ n ih =>
    obtain ⟨value, -, h⟩ := Option.mem_bind_iff.1 h
    obtain ⟨a, -, h⟩ := Option.mem_bind_iff.1 h
    split at h
    · obtain ⟨memory, -, h⟩ := Option.mem_bind_iff.1 h
      exact ih h hr
    · rw [← Option.mem_some_iff.1 h, hr]

theorem slots_readBlock? {start offset n : Nat} (h : result ∈ readBlock? start r offset n) (hr : r.slots = slots) :
    result.cells.slots = slots := by
  induction n generalizing r offset with
  | zero => rw [← Option.mem_some_iff.1 h, hr]
  | succ n ih =>
    obtain ⟨a, -, h⟩ := Option.mem_bind_iff.1 h
    split at h
    · obtain ⟨value, -, h⟩ := Option.mem_bind_iff.1 h
      obtain ⟨registers, -, h⟩ := Option.mem_bind_iff.1 h
      exact ih h hr
    · rw [← Option.mem_some_iff.1 h, hr]

theorem slots_drawRows? {x y start row n : Nat} {erased : Bool} {rows : Result × Bool}
    (h : rows ∈ drawRows? x y start r erased row n) (hr : r.slots = slots) : rows.1.cells.slots = slots := by
  induction n generalizing r erased row with
  | zero => rw [← Option.mem_some_iff.1 h, hr]
  | succ n ih =>
    unfold drawRows? at h
    split at h
    · rw [← Option.mem_some_iff.1 h, hr]
    · obtain ⟨a, -, h⟩ := Option.mem_bind_iff.1 h
      split at h
      · obtain ⟨data, -, h⟩ := Option.mem_bind_iff.1 h
        obtain ⟨⟨pixels, erased'⟩, -, h⟩ := Option.mem_bind_iff.1 h
        exact ih h hr
      · rw [← Option.mem_some_iff.1 h, hr]

theorem slots_draw? {x y : Register} {n : Nibble} (h : result ∈ r.draw? x y n) : result.cells.slots = r.slots := by
  obtain ⟨vx, -, h⟩ := Option.mem_bind_iff.1 h
  obtain ⟨vy, -, h⟩ := Option.mem_bind_iff.1 h
  obtain ⟨⟨rows, erased⟩, hrows, h⟩ := Option.mem_bind_iff.1 h
  refine slots_afterBlock? h (fun h hr => ?_) (slots_drawRows? hrows rfl)
  obtain ⟨r₁, hset, h⟩ := Option.mem_bind_iff.1 h
  exact slots_advance? h (slots_setRegister? hset hr)

/-- **Only a call touches the places**, and it writes to one of them. -/
theorem slots_execute? {i : Instruction} (h : result ∈ r.execute? i) (hs : r.slots.size = stackLimit) :
    result.cells.slots = r.slotsAfter i := by
  unfold execute? at h
  cases i with
  | machineRoutine nnn => rw [← Option.mem_some_iff.1 h]; rfl
  | clearScreen => exact slots_advance? h rfl
  | returnFromCall => exact slots_returnFromCall? h
  | jump nnn => rw [← Option.mem_some_iff.1 h]; rfl
  | call nnn => exact slots_call? h hs
  | jumpOffset nnn =>
    obtain ⟨v, -, h⟩ := Option.mem_bind_iff.1 h
    obtain ⟨pc, -, h⟩ := Option.mem_bind_iff.1 h
    rw [← Option.mem_some_iff.1 h]
    rfl
  | skip condition =>
    obtain ⟨holds, -, h⟩ := Option.mem_bind_iff.1 h
    exact slots_advance? h rfl
  | setByte x nn | readDelay x | random x nn =>
    obtain ⟨r₁, hr, h⟩ := Option.mem_bind_iff.1 h
    have hset := slots_setRegister? hr rfl
    exact slots_advance? h hset
  | addByte x nn =>
    obtain ⟨v, -, h⟩ := Option.mem_bind_iff.1 h
    obtain ⟨r₁, hr, h⟩ := Option.mem_bind_iff.1 h
    exact slots_advance? h (slots_setRegister? hr rfl)
  | combine op x y =>
    obtain ⟨r₁, hr, h⟩ := Option.mem_bind_iff.1 h
    exact slots_advance? h (slots_combine? hr)
  | setIndex nnn => exact slots_advance? h rfl
  | draw x y n => exact slots_draw? h
  | waitKey x => exact slots_waitKey? h
  | setDelay x | setSound x | addIndex x =>
    obtain ⟨v, -, h⟩ := Option.mem_bind_iff.1 h
    exact slots_advance? h rfl
  | fontGlyph x =>
    obtain ⟨r₁, hr, h⟩ := Option.mem_bind_iff.1 h
    exact slots_advance? h (slots_pointToGlyph? hr)
  | storeDecimal x =>
    obtain ⟨v, -, h⟩ := Option.mem_bind_iff.1 h
    obtain ⟨block, hblock, h⟩ := Option.mem_bind_iff.1 h
    exact slots_afterBlock? h slots_advance? (slots_writeBlock? hblock rfl)
  | storeRegisters x =>
    obtain ⟨block, hblock, h⟩ := Option.mem_bind_iff.1 h
    exact slots_afterBlock? h slots_passBlock? (slots_writeBlock? hblock rfl)
  | loadRegisters x =>
    obtain ⟨block, hblock, h⟩ := Option.mem_bind_iff.1 h
    exact slots_afterBlock? h slots_passBlock? (slots_readBlock? hblock rfl)

end

/-! ## What an operation leaves in the places -/

theorem slots_load? {r r' : Cells} {program : List UInt8} (h : r' ∈ r.load? program) :
    r'.slots = Places.empty.toArray := by
  obtain ⟨r₁, hreset, h⟩ := Option.mem_bind_iff.1 h
  obtain ⟨memory, -, hreset⟩ := Option.mem_bind_iff.1 hreset
  have hempty : r₁.slots = Array.replicate stackLimit 0 := by rw [← Option.mem_some_iff.1 hreset]
  split at h
  · obtain ⟨memory, -, h⟩ := Option.mem_bind_iff.1 h
    rw [← Option.mem_some_iff.1 h]
    exact hempty
  · rw [← Option.mem_some_iff.1 h]
    exact hempty

/-- The cells are those of a machine, with these places. -/
structure Stores (r : Cells) (m : Machine) (places : Places) : Prop extends Represents r m where
  places : r.slots = places.toArray

section

variable {r r' : Cells} {m : Machine} {places : Places}

theorem Shows.unique {pixels pixels' : Array Bool} {picture : Nat → Nat → Bool} (h : Shows pixels picture)
    (h' : Shows pixels' picture) : pixels = pixels' := by
  refine Array.ext_getElem? fun i => ?_
  by_cases hi : i < screenWidth * screenHeight
  · have hi : i < 64 * 32 := hi
    have hcell : i = i / screenWidth * screenWidth + i % screenWidth := (Nat.div_add_mod' i 64).symm
    rw [hcell, h.pixel _ _ (Nat.mod_lt i (by decide)) (show i / 64 < 32 by omega),
      h'.pixel _ _ (Nat.mod_lt i (by decide)) (show i / 64 < 32 by omega)]
  · rw [Array.getElem?_eq_none (by rw [h.size]; exact Nat.not_lt.1 hi),
      Array.getElem?_eq_none (by rw [h'.size]; exact Nat.not_lt.1 hi)]

/-- **A machine and its places make the cells.** -/
theorem Stores.unique (h : r.Stores m places) (h' : r'.Stores m places) : r = r' := by
  have hdepth : r.depth = r'.depth := UInt8.toNat_inj.1 (h.depth.trans h'.depth.symm)
  have hpixels : r.pixels = r'.pixels := h.pixels.unique h'.pixels
  cases r
  cases r'
  rw [Cells.mk.injEq]
  exact ⟨h.config.trans h'.config.symm, h.registers.trans h'.registers.symm, h.index.trans h'.index.symm,
    h.pc.trans h'.pc.symm, h.places.trans h'.places.symm, hdepth, h.timers.trans h'.timers.symm,
    h.memory.trans h'.memory.symm, hpixels, h.dirty.trans h'.dirty.symm, h.keys.trans h'.keys.symm,
    h.held.trans h'.held.symm, h.status.trans h'.status.symm, h.generator.trans h'.generator.symm⟩

theorem stores_build (config : Config) (entropy : Random.Key) :
    ∃ r, build? config entropy = some r ∧ r.Stores (Machine.build config entropy) .empty := by
  obtain ⟨r, hbuild, hrep⟩ := represents_build config entropy
  refine ⟨r, hbuild, { hrep with places := ?_ }⟩
  obtain ⟨memory, -, hreset⟩ := Option.mem_bind_iff.1 hbuild
  rw [← Option.mem_some_iff.1 hreset]
  rfl

theorem Stores.elapse (h : r.Stores m places) (ticks : Nat) :
    Stores { r with timers := r.timers.elapse ticks } (m.elapse ticks) places :=
  { h with timers := congrArg (·.elapse ticks) h.timers }

theorem Stores.slotsAfter {i : Instruction} (h : r.Stores m places) (ok : m.status = .ok) (hu : m.upcoming? = some i)
    (ticks : Nat) : r.slotsAfter i = (m.placesAfter places (.step ticks)).toArray := by
  cases i with
  | call nnn =>
    rw [Machine.placesAfter_of_call ok hu, Vector.toArray_setIfInBounds, ← h.places, ← h.depth, ← h.pc]
    rfl
  | _ =>
    rw [Machine.placesAfter_of_not_call ok hu nofun, ← h.places]
    rfl

theorem Stores.slots_step? (h : r.Stores m places) {ticks : Nat} (hr : r' ∈ r.step? ticks) :
    r'.slots = (m.placesAfter places (.step ticks)).toArray := by
  unfold step? at hr
  rw [show r.status.isOk = m.status.isOk from congrArg _ h.status] at hr
  split at hr
  · rename_i ok
    have ok := Status.isOk_iff.1 ok
    obtain ⟨result, hcycle, hr⟩ := Option.mem_bind_iff.1 hr
    have hslots : r'.slots = result.cells.slots := by
      split at hr
      · rw [← Option.mem_some_iff.1 hr]
      · rw [← Option.mem_some_iff.1 hr]
    rw [cycle?_eq (h.elapse ticks).toRepresents, show (m.elapse ticks).upcoming? = m.upcoming? from rfl] at hcycle
    rw [hslots]
    cases hu : m.upcoming? with
    | none =>
      rw [hu, Option.elim_none] at hcycle
      rw [← Option.mem_some_iff.1 hcycle, Machine.placesAfter, if_neg (Machine.not_executes hu (by decide))]
      exact h.places
    | some i =>
      rw [hu, Option.elim_some] at hcycle
      rw [slots_execute? hcycle h.slots]
      exact h.slotsAfter ok hu ticks
  · rename_i ok
    rw [← Option.mem_some_iff.1 hr, Machine.placesAfter, if_neg fun he => ok (Status.isOk_iff.2 he.1)]
    exact h.places

/-- **An operation on the cells does to the places what the machine says.** -/
theorem Stores.perform (h : r.Stores m places) (wf : m.WellFormed) (o : Operation) :
    ∃ r', r.perform? o = some r' ∧ r'.Stores (m.perform o) (m.placesAfter places o) := by
  obtain ⟨r', hr, hrep⟩ := represents_perform h.toRepresents wf o
  refine ⟨r', hr, { hrep with places := ?_ }⟩
  cases o with
  | load program => exact slots_load? hr
  | step ticks => exact h.slots_step? hr
  | _ =>
    rw [← Option.mem_some_iff.1 hr]
    exact h.places

theorem Stores.run (h : r.Stores m places) (wf : m.WellFormed) (history : List Operation) :
    ∃ r', r.run? history = some r' ∧ r'.Stores (m.run history) (m.placesOver places history) := by
  induction history generalizing r m places with
  | nil => exact ⟨r, rfl, h⟩
  | cons o history ih =>
    obtain ⟨r', hr, hstores⟩ := h.perform wf o
    obtain ⟨r'', hrun, hstores'⟩ := ih hstores (Machine.wellFormed_perform m o wf)
    exact ⟨r'', by unfold run?; rw [List.foldlM_cons, hr]; exact hrun, hstores'⟩

end

/-- The cells that a history leads to from cells that were built. -/
def reached? (config : Config) (entropy : Random.Key) (history : List Operation) : Option Cells :=
  (build? config entropy).bind (·.run? history)

theorem stores_reached (config : Config) (entropy : Random.Key) (history : List Operation) :
    ∃ r, reached? config entropy history = some r ∧
      r.Stores ((Machine.build config entropy).run history)
        ((Machine.build config entropy).placesOver .empty history) := by
  obtain ⟨r₀, hbuild, hstores⟩ := stores_build config entropy
  obtain ⟨r, hrun, hstores'⟩ := hstores.run (Machine.wellFormed_initial _ _) history
  exact ⟨r, by rw [reached?, hbuild]; exact hrun, hstores'⟩

/-- **The cells behind a history are those of its machine and its places**, and no others. -/
theorem reached?_eq_some_iff {config : Config} {entropy : Random.Key} {history : List Operation} {r : Cells} :
    reached? config entropy history = some r ↔
      r.Stores ((Machine.build config entropy).run history)
        ((Machine.build config entropy).placesOver .empty history) := by
  obtain ⟨r', hreached, hstores⟩ := stores_reached config entropy history
  rw [hreached, Option.some.injEq]
  exact ⟨fun h => h ▸ hstores, fun h => hstores.unique h⟩

end Cells

end Chip8
