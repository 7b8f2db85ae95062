import Mathlib
import Chip8.Proofs.Cells.Places
/-!
# Dialects — how far a dialect matters

Two kinds of instruction read the dialect.  A shift takes its value from one register or the other, which matters only
if they hold different values; and a block transfer passes the block with the index or not, which matters only if it
gets to the end of the block.  A step of one of these kinds is *sensitive* to another dialect.  Up to the first such
step, machines that differ in nothing but their dialect stay so, with the same answers and the same cells
(`agree_until_sensitive`).  If that step is a transfer, they differ in the index from then on, by the length of the
block.
-/
namespace Chip8
namespace Machine

def inDialect (m : Machine) (d : Dialect) : Machine :=
  { m with config := { m.config with dialect := d } }

theorem inDialect_eq {m : Machine} {config : Config} (h : m.config = config) (d : Dialect) :
    m.inDialect d = { m with config := { config with dialect := d } } := by
  rw [inDialect, h]

/-! ## Steps that read the dialect -/

/-- Whether a step executes a shift, `8XY6` or `8XYE`, of a value that is another one in the dialect `d`. -/
def ShiftsApart (m : Machine) (d : Dialect) : Prop :=
  (m.Executes [some 0x8, none, none, some 0x6] ∨ m.Executes [some 0x8, none, none, some 0xe]) ∧
    m.register m.currentX ≠ m.register m.currentY ∧ m.config.dialect.shift ≠ d.shift

/-- Whether a step executes a transfer, `FX55` or `FX65`, of a block that lies in memory, and leaves another index than
in the dialect `d`. -/
def TransfersApart (m : Machine) (d : Dialect) : Prop :=
  (m.Executes [some 0xf, none, some 0x5, some 0x5] ∨ m.Executes [some 0xf, none, some 0x6, some 0x5]) ∧
    m.index.toNat + m.currentX.val < memorySize ∧ m.config.dialect.transfer ≠ d.transfer

/-- Whether an operation of a machine would come out otherwise in another dialect. -/
def Sensitive (m : Machine) (d : Dialect) : Operation → Prop
  | .step _ => m.ShiftsApart d ∨ m.TransfersApart d
  | _ => False

instance (m : Machine) (d : Dialect) : Decidable (m.ShiftsApart d) :=
  inferInstanceAs (Decidable (_ ∧ _))

instance (m : Machine) (d : Dialect) : Decidable (m.TransfersApart d) :=
  inferInstanceAs (Decidable (_ ∧ _))

instance (m : Machine) (d : Dialect) : (o : Operation) → Decidable (m.Sensitive d o)
  | .step _ => inferInstanceAs (Decidable (_ ∨ _))
  | .load _ | .keyDown _ | .keyUp _ | .takeDirty => inferInstanceAs (Decidable False)

/-! ## One instruction -/

section

variable {m : Machine} {d : Dialect}

theorem combine_inDialect {op : Operator} {x y : Register}
    (h : op = .shiftRight ∨ op = .shiftLeft → m.register x ≠ m.register y → m.config.dialect.shift = d.shift) :
    ((m.inDialect d).combine op x y).registers = (m.combine op x y).registers := by
  have hpick : op = .shiftRight ∨ op = .shiftLeft →
      d.shift.pick (m.register x) (m.register y) = m.config.dialect.shift.pick (m.register x) (m.register y) := by
    intro hop
    by_cases hxy : m.register x = m.register y
    · rw [hxy]
      cases d.shift <;> cases m.config.dialect.shift <;> rfl
    · rw [h hop hxy]
  have happly : op.apply d.shift (m.register x) (m.register y) =
      op.apply m.config.dialect.shift (m.register x) (m.register y) := by
    cases op with
    | shiftRight => simp only [Operator.apply, hpick (Or.inl rfl)]
    | shiftLeft => simp only [Operator.apply, hpick (Or.inr rfl)]
    | _ => rfl
  unfold combine
  rw [show op.apply (m.inDialect d).config.dialect.shift ((m.inDialect d).register x) ((m.inDialect d).register y) =
    op.apply d.shift (m.register x) (m.register y) from rfl, happly]
  split <;> rfl

theorem registersAfter_inDialect {i : Instruction} (ok : m.status = .ok) (hu : m.upcoming? = some i)
    (h : ¬m.ShiftsApart d) : (m.inDialect d).registersAfter i = m.registersAfter i := by
  cases i with
  | combine op x y =>
    refine combine_inDialect fun hop hxy => ?_
    by_contra hd
    refine h ⟨?_, by rwa [currentX_eq hu rfl, currentY_eq hu rfl], hd⟩
    rw [executes_iff ok hu, executes_iff ok hu]
    rcases hop with rfl | rfl
    · exact Or.inl rfl
    · exact Or.inr rfl
  | _ => rfl

theorem indexAfterTransfer_inDialect {n : Nat}
    (h : m.index.toNat + n < memorySize → m.config.dialect.transfer = d.transfer) :
    (m.inDialect d).indexAfterTransfer (n + 1) = m.indexAfterTransfer (n + 1) := by
  unfold indexAfterTransfer
  simp only [isSome_blockFault?_iff]
  by_cases hfits : m.index.toNat + n < memorySize
  · rw [h hfits]
    rfl
  · rw [if_pos (Nat.not_lt.1 hfits)]
    exact if_pos (Nat.not_lt.1 hfits)

theorem indexAfter_inDialect {i : Instruction} (ok : m.status = .ok) (hu : m.upcoming? = some i)
    (h : ¬m.TransfersApart d) : (m.inDialect d).indexAfter i = m.indexAfter i := by
  cases i with
  | storeRegisters x =>
    refine indexAfterTransfer_inDialect fun hfits => ?_
    by_contra hd
    exact h ⟨Or.inl ((executes_iff ok hu).2 rfl), by rwa [currentX_eq hu rfl], hd⟩
  | loadRegisters x =>
    refine indexAfterTransfer_inDialect fun hfits => ?_
    by_contra hd
    exact h ⟨Or.inr ((executes_iff ok hu).2 rfl), by rwa [currentX_eq hu rfl], hd⟩
  | fontGlyph x =>
    show ((m.inDialect d).pointToGlyph x).index = (m.pointToGlyph x).index
    unfold pointToGlyph
    show (if m.register x < 16 then _ else _ : Machine).index = _
    split <;> rfl
  | _ => rfl

theorem after_inDialect {i : Instruction} (h : (m.inDialect d).registersAfter i = m.registersAfter i) :
    (m.inDialect d).after i = { (m.after i).inDialect d with index := (m.inDialect d).indexAfter i } := by
  unfold after
  rw [h]
  rfl

/-! ## One operation -/

/-- **A step that is no sensitive shift** leaves the same in both dialects, except for the index. -/
theorem step_inDialect (h : ¬m.ShiftsApart d) (ticks : Nat) :
    (m.inDialect d).step ticks =
      { (m.step ticks).inDialect d with index := ((m.inDialect d).step ticks).index } := by
  rw [step_eq, step_eq]
  by_cases ok : m.status = .ok
  · rw [if_pos ok, if_pos (show (m.inDialect d).status = .ok from ok),
      show (m.inDialect d).upcoming? = m.upcoming? from rfl]
    cases hu : m.upcoming? with
    | none => rfl
    | some i => exact after_inDialect (registersAfter_inDialect (m := m.elapse ticks) ok hu h)
  · rw [if_neg ok, if_neg (show (m.inDialect d).status ≠ .ok from ok)]

theorem index_step_inDialect (h : ¬m.TransfersApart d) (ticks : Nat) :
    ((m.inDialect d).step ticks).index = (m.step ticks).index := by
  rw [step_eq, step_eq]
  by_cases ok : m.status = .ok
  · rw [if_pos ok, if_pos (show (m.inDialect d).status = .ok from ok),
      show (m.inDialect d).upcoming? = m.upcoming? from rfl]
    cases hu : m.upcoming? with
    | none => rfl
    | some i => exact indexAfter_inDialect (m := m.elapse ticks) ok hu h
  · rw [if_neg ok, if_neg (show (m.inDialect d).status ≠ .ok from ok)]
    rfl

/-- **An operation that is not sensitive** comes out alike in both dialects. -/
theorem perform_inDialect {o : Operation} (h : ¬m.Sensitive d o) :
    (m.inDialect d).perform o = (m.perform o).inDialect d := by
  cases o with
  | load program =>
    rw [perform_load, perform_load, load_eq, load_eq]
    rfl
  | step ticks =>
    obtain ⟨hshift, htransfer⟩ := not_or.1 h
    rw [perform_step, perform_step, step_inDialect hshift, index_step_inDialect htransfer]
    rfl
  | _ => rfl

theorem answer_inDialect {o : Operation} (h : ¬m.Sensitive d o) : (m.inDialect d).answer o = m.answer o := by
  cases o with
  | load program | step ticks => exact congrArg (fun n => Answer.status n.status) (perform_inDialect h)
  | _ => rfl

theorem placesAfter_inDialect (places : Places) (o : Operation) :
    (m.inDialect d).placesAfter places o = m.placesAfter places o := by
  cases o <;> rfl

/-! ## A sensitive transfer -/

theorem TransfersApart.not_shiftsApart (h : m.TransfersApart d) : ¬m.ShiftsApart d := by
  rintro ⟨hshift, -⟩
  have hf := h.1.elim Executes.firstDigit Executes.firstDigit
  have h8 := hshift.elim Executes.firstDigit Executes.firstDigit
  omega

theorem TransfersApart.step_inDialect {config : Config} (h : m.TransfersApart d) (hc : m.config = config) (ticks : Nat) :
    (m.inDialect d).step ticks = { m.step ticks with
      config := { config with dialect := d }
      index := ((m.inDialect d).step ticks).index } := by
  have hs := Machine.step_inDialect h.not_shiftsApart ticks
  have hc' : (m.step ticks).config = config := (config_perform m (.step ticks)).trans hc
  rwa [inDialect_eq hc'] at hs

/-- **A transfer of a block that lies in memory** leaves the index that the machine's dialect says. -/
theorem index_step_of_transfer
    (h : m.Executes [some 0xf, none, some 0x5, some 0x5] ∨ m.Executes [some 0xf, none, some 0x6, some 0x5])
    (hfits : m.index.toNat + m.currentX.val < memorySize) (ticks : Nat) :
    (m.step ticks).index = m.config.dialect.transfer.pass m.index (m.currentX.val + 1) := by
  have hin : ¬(blockFault? m.index (m.currentX.val + 1)).isSome :=
    fun hout => Nat.not_le.2 hfits (isSome_blockFault?_iff.1 hout)
  rcases h with h | h
  · rw [step_eq_after h.1 (upcoming?_of_device h)]
    exact if_neg hin
  · rw [step_eq_after h.1 (upcoming?_of_device h)]
    exact if_neg hin

/-- **A sensitive transfer leaves two indices apart by the length of the block**: the machine that passes the block has
the higher one. -/
theorem TransfersApart.index_step (h : m.TransfersApart d) (ticks : Nat) :
    (m.config.dialect.transfer = .advanced →
      (m.step ticks).index.toNat = ((m.inDialect d).step ticks).index.toNat + (m.currentX.val + 1)) ∧
    (m.config.dialect.transfer = .restored →
      ((m.inDialect d).step ticks).index.toNat = (m.step ticks).index.toNat + (m.currentX.val + 1)) := by
  obtain ⟨htransfer, hfits, hd⟩ := h
  have hpassed : (IndexAfterTransfer.advanced.pass m.index (m.currentX.val + 1)).toNat =
      m.index.toNat + (m.currentX.val + 1) := by
    have : m.index.toNat + m.currentX.val < 4096 := hfits
    exact UInt16.toNat_ofNat_of_lt' (show _ < 65536 by omega)
  have hindex : ((m.inDialect d).step ticks).index = d.transfer.pass m.index (m.currentX.val + 1) :=
    index_step_of_transfer (m := m.inDialect d) htransfer hfits ticks
  rw [index_step_of_transfer htransfer hfits, hindex]
  cases hm : m.config.dialect.transfer with
  | advanced =>
    cases ho : d.transfer with
    | advanced => exact absurd (hm.trans ho.symm) hd
    | restored => exact ⟨fun _ => hpassed, nofun⟩
  | restored =>
    cases ho : d.transfer with
    | advanced => exact ⟨nofun, fun _ => hpassed⟩
    | restored => exact absurd (hm.trans ho.symm) hd

end

/-! ## Histories -/

theorem run_inDialect {m : Machine} {d : Dialect} {history : List Operation}
    (h : m.Each (fun n o => ¬n.Sensitive d o) history) (places : Places) :
    (m.inDialect d).run history = (m.run history).inDialect d ∧
      (m.inDialect d).answers history = m.answers history ∧
      (m.inDialect d).placesOver places history = m.placesOver places history := by
  induction history generalizing m places with
  | nil => exact ⟨rfl, rfl, rfl⟩
  | cons o history ih =>
    obtain ⟨hrun, hanswers, hplaces⟩ := ih h.2 (m.placesAfter places o)
    rw [run_cons, answers, placesOver, perform_inDialect h.1, answer_inDialect h.1, placesAfter_inDialect, hrun,
      hanswers, hplaces]
    exact ⟨rfl, rfl, rfl⟩

theorem build_inDialect {config : Config} {entropy₁ entropy₂ : Random.Key}
    (hseed : config.seed.isSome ∨ entropy₁ = entropy₂) (d : Dialect) :
    build { config with dialect := d } entropy₂ = (build config entropy₁).inDialect d := by
  rw [← build_of_seed hseed]
  rfl

section

variable {config : Config} {other : Dialect} {entropy₁ entropy₂ : Random.Key}
  (hseed : config.seed.isSome ∨ entropy₁ = entropy₂) {history : List Operation}
  (insensitive : (build config entropy₁).Each (fun m o => ¬m.Sensitive other o) history)
include hseed insensitive

/-- **A history without a sensitive step** comes out alike in both dialects. -/
theorem run_of_insensitive :
    (build { config with dialect := other } entropy₂).run history =
        ((build config entropy₁).run history).inDialect other ∧
      (build { config with dialect := other } entropy₂).answers history = (build config entropy₁).answers history ∧
      (build { config with dialect := other } entropy₂).placesOver .empty history =
        (build config entropy₁).placesOver .empty history := by
  rw [build_inDialect hseed]
  exact run_inDialect insensitive .empty

theorem cells_of_insensitive :
    ∃ r, Cells.reached? config entropy₁ history = some r ∧
      Cells.reached? { config with dialect := other } entropy₂ history =
        some { r with config := { config with dialect := other } } := by
  obtain ⟨hrun, -, hplaces⟩ := run_of_insensitive hseed insensitive
  obtain ⟨r, hr, hs⟩ := Cells.stores_reached config entropy₁ history
  refine ⟨r, hr, Cells.reached?_eq_some_iff.2 ?_⟩
  rw [hplaces, hrun, inDialect_eq (config_run _ history)]
  exact { hs with config := rfl }

theorem cells_of_transfer (hapart : ((build config entropy₁).run history).TransfersApart other) (ticks : Nat) :
    ∃ r, Cells.reached? config entropy₁ (history ++ [.step ticks]) = some r ∧
      Cells.reached? { config with dialect := other } entropy₂ (history ++ [.step ticks]) =
        some { r with
          config := { config with dialect := other }
          index := (((build { config with dialect := other } entropy₂).run history).step ticks).index } := by
  obtain ⟨hrun, -, hplaces⟩ := run_of_insensitive hseed insensitive
  obtain ⟨r, hr, hs⟩ := Cells.stores_reached config entropy₁ (history ++ [.step ticks])
  refine ⟨r, hr, Cells.reached?_eq_some_iff.2 ?_⟩
  rw [placesOver_append, run_concat, placesOver, placesOver] at hs ⊢
  rw [hplaces, hrun, placesAfter_inDialect, perform_step, hapart.step_inDialect (config_run _ history)]
  exact { hs with config := rfl, index := rfl }

end

/-- **Dialects change only what they name.**  Two machines are built alike but for their dialects, with a seed or with
the same entropy, and the same is done to both.  As long as no sensitive step was executed, the machines and their cells
are the same but for the dialect, and so are their answers.  A sensitive transfer after that leaves both the same but
for the dialect and the index, and the index of the machine that passes the block is the other's and the length of the
block. -/
theorem agree_until_sensitive (config : Config) (other : Dialect) {entropy₁ entropy₂ : Random.Key}
    (hseed : config.seed.isSome ∨ entropy₁ = entropy₂) {history : List Operation}
    (insensitive : (build config entropy₁).Each (fun m o => ¬m.Sensitive other o) history) :
    let config' : Config := { config with dialect := other }
    let m₁ := (build config entropy₁).run history
    let m₂ := (build config' entropy₂).run history
    (m₂ = { m₁ with config := config' } ∧
      (build config' entropy₂).answers history = (build config entropy₁).answers history ∧
      ∃ r, Cells.reached? config entropy₁ history = some r ∧
        Cells.reached? config' entropy₂ history = some { r with config := config' }) ∧
    ∀ ticks, m₁.TransfersApart other →
      let n₁ := m₁.step ticks
      let n₂ := m₂.step ticks
      n₂ = { n₁ with config := config', index := n₂.index } ∧
      (config.dialect.transfer = .advanced → n₁.index.toNat = n₂.index.toNat + (m₁.currentX.val + 1)) ∧
      (config.dialect.transfer = .restored → n₂.index.toNat = n₁.index.toNat + (m₁.currentX.val + 1)) ∧
      ∃ r, Cells.reached? config entropy₁ (history ++ [.step ticks]) = some r ∧
        Cells.reached? config' entropy₂ (history ++ [.step ticks]) =
          some { r with config := config', index := n₂.index } := by
  intro config' m₁ m₂
  obtain ⟨hrun, hanswers, -⟩ := run_of_insensitive hseed insensitive
  have hconfig : m₁.config = config := config_run _ history
  have hinDialect : m₂ = m₁.inDialect other := hrun
  refine ⟨⟨hinDialect.trans (inDialect_eq hconfig other), hanswers, cells_of_insensitive hseed insensitive⟩,
    fun ticks hapart => ?_⟩
  intro n₁ n₂
  have hstep : n₂ = { n₁ with config := config', index := n₂.index } := by
    rw [show n₂ = (m₁.inDialect other).step ticks from congrArg (·.step ticks) hinDialect]
    exact hapart.step_inDialect hconfig ticks
  have hindex := hapart.index_step ticks
  rw [← hinDialect, hconfig] at hindex
  exact ⟨hstep, hindex.1, hindex.2, cells_of_transfer hseed insensitive hapart ticks⟩

/-- A shift of two registers that hold the same value parts no machines; storing two registers does. -/
theorem agree_until_sensitive_store :
    let other : Dialect := { shift := .vx, transfer := .restored }
    let history : List Operation :=
      [.load [0x60, 0x05, 0x61, 0x05, 0x80, 0x16, 0xA3, 0x00, 0xF1, 0x55], .step 0, .step 0, .step 0, .step 0]
    let m₁ := (build {} (Vector.replicate 8 0)).run history
    let m₂ := (build { dialect := other } (Vector.replicate 8 0)).run history
    m₁.register 0 = 2 ∧ m₂ = { m₁ with config := { dialect := other } } ∧
      (m₁.step 0).index.toNat = (m₂.step 0).index.toNat + 2 := by
  intro other history m₁ m₂
  have hregister : m₁.register 0 = 2 ∧ m₁.currentX = 1 := by decide +kernel
  have insensitive : (build {} (Vector.replicate 8 0)).Each (fun m o => ¬m.Sensitive other o) history := by
    decide +kernel
  have hapart : m₁.TransfersApart other := by decide +kernel
  obtain ⟨⟨hsame, -⟩, hlater⟩ := agree_until_sensitive {} other (Or.inr rfl) insensitive
  have hindex := (hlater 0 hapart).2.1 rfl
  rw [show ((build {} (Vector.replicate 8 0)).run history).currentX = 1 from hregister.2] at hindex
  exact ⟨hregister.1, hsame, hindex⟩

end Machine

end Chip8
