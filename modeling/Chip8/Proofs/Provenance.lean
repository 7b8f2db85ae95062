import Mathlib
import Chip8.Proofs.Words
/-!
# Provenance — where a byte of memory comes from

Two instructions write to memory: one the decimal digits of a register, the other the registers themselves, and both
from the index on.  What of it lies past the end of memory is lost, and meets a fault, but the bytes before it have been
written.  Nothing else writes, so a byte is the one that the last such step gave to its address, and if there was none
since the load it is the byte of the image that the load made (`byte_of_history`).  The font and the program that runs
are written to like anything else.
-/
namespace Chip8
namespace Machine

/-! ## What a step writes -/

/-- The bytes that a step of a machine writes, from the index on: `FX33` the decimal digits of `VX`, and `FX55` the
registers from `V0` to `VX`. -/
def written (m : Machine) : List UInt8 :=
  if m.Executes [some 0xf, none, some 0x3, some 0x3] then
    let v := (m.register m.currentX).toNat
    [v / 100, v / 10 % 10, v % 10].map UInt8.ofNat
  else if m.Executes [some 0xf, none, some 0x5, some 0x5] then m.registers.toList.take (m.currentX.val + 1)
  else []

/-- The byte that an operation gives to an address, if it gives it one. -/
def given? (m : Machine) (a : Nat) : Operation → Option UInt8
  | .step _ => if m.index.toNat ≤ a then m.written[a - m.index.toNat]? else none
  | _ => none

theorem decimalDigits_eq (v : UInt8) :
    decimalDigits v = [v.toNat / 100, v.toNat / 10 % 10, v.toNat % 10].map UInt8.ofNat := by
  have hbyte : ∀ (b : UInt8) (n : Nat), b.toNat = n → b = UInt8.ofNat n := fun b n h => by rw [← h, UInt8.ofNat_toNat]
  unfold decimalDigits
  rw [hbyte (v / 100) _ (UInt8.toNat_div ..), hbyte (v % 10) _ (UInt8.toNat_mod ..),
    hbyte (v / 10 % 10) _ ((UInt8.toNat_mod ..).trans (congrArg (· % 10) (UInt8.toNat_div ..)))]
  rfl

/-- **What an instruction writes to memory is told by the digits of its word.** -/
theorem memoryAfter_eq {m : Machine} {i : Instruction} (ok : m.status = .ok) (hu : m.upcoming? = some i) :
    m.memoryAfter i = m.memory.store m.index.toNat m.written := by
  unfold written
  simp only [executes_iff ok hu]
  cases i with
  | storeDecimal x =>
    simp only [Instruction.digits, Pattern.fits]
    rw [currentX_eq hu rfl, ← decimalDigits_eq]
    rfl
  | storeRegisters x =>
    rw [currentX_eq hu rfl]
    rfl
  | skip condition =>
    simp only [Instruction.digits, fits_skip condition 0xf (by decide)]
    rfl
  | _ => rfl

theorem written_eq_nil {m : Machine} (h : m.status ≠ .ok ∨ m.upcoming? = none) : m.written = [] := by
  have hnot : ∀ pattern ∈ patterns, ¬m.Executes pattern := fun pattern hp => by
    rcases h with h | h
    · exact fun he => h he.1
    · exact not_executes h hp
  unfold written
  rw [if_neg (hnot _ (by decide)), if_neg (hnot _ (by decide))]

/-- **What a step does to memory**: it stores what it writes, as far as that lies in memory. -/
theorem memory_step (m : Machine) (ticks : Nat) :
    (m.step ticks).memory = m.memory.store m.index.toNat m.written := by
  rw [step_eq]
  by_cases ok : m.status = .ok
  · rw [if_pos ok]
    cases hu : m.upcoming? with
    | none => rw [written_eq_nil (Or.inr hu)]; rfl
    | some i => exact memoryAfter_eq ok hu
  · rw [if_neg ok, written_eq_nil (Or.inl ok)]
    rfl

theorem getElem?_memory_perform (m : Machine) {o : Operation} (ho : ∀ program, o ≠ .load program) {a : Nat}
    (ha : a < memorySize) : (m.perform o).memory[a]? = (m.given? a o).or m.memory[a]? := by
  cases o with
  | load program => exact absurd rfl (ho program)
  | step ticks =>
    rw [perform_step, memory_step, Memory.getElem?_store]
    unfold given?
    by_cases hle : m.index.toNat ≤ a
    · by_cases hlt : a - m.index.toNat < m.written.length
      · rw [if_pos ⟨hle, by omega, ha⟩, if_pos hle, List.getElem?_eq_getElem hlt]
        rfl
      · rw [if_neg (by omega), if_pos hle, List.getElem?_eq_none (Nat.not_lt.1 hlt)]
        rfl
    · rw [if_neg (fun h => hle h.1), if_neg hle]
      rfl
  | _ => rfl

/-! ## The last step that gave a byte -/

/-- Whether the last operation of a history that gives an address a byte gives it this one. -/
def LastGives (m : Machine) (a : Nat) (v : UInt8) (history : List Operation) : Prop :=
  ∃ earlier o later, history = earlier ++ o :: later ∧ (m.run earlier).given? a o = some v ∧
    (m.run (earlier ++ [o])).Each (fun n o => n.given? a o = none) later

theorem lastGives_concat {m : Machine} {a : Nat} {v : UInt8} {history : List Operation} {o : Operation} :
    m.LastGives a v (history ++ [o]) ↔ (m.run history).given? a o = some v ∨
      m.LastGives a v history ∧ (m.run history).given? a o = none := by
  unfold LastGives
  rw [exists_split_concat]
  refine or_congr (iff_of_eq (and_true _)) ?_
  constructor
  · rintro ⟨earlier, last, later, rfl, hgives, hlater⟩
    rw [each_concat, ← run_append, List.append_assoc] at hlater
    exact ⟨⟨earlier, last, later, rfl, hgives, hlater.1⟩, hlater.2⟩
  · rintro ⟨⟨earlier, last, later, rfl, hgives, hlater⟩, hnone⟩
    refine ⟨earlier, last, later, rfl, hgives, each_concat.2 ⟨hlater, ?_⟩⟩
    rw [← run_append, List.append_assoc]
    exact hnone

/-- **A byte is the one that was given last, or the one that there was.** -/
theorem byte_run {m : Machine} {a : Nat} {v : UInt8} (ha : a < memorySize) (history : List Operation)
    (hload : ∀ o ∈ history, ∀ program, o ≠ .load program) (hv : (m.run history).memory[a]? = some v) :
    m.LastGives a v history ∨ m.Each (fun n o => n.given? a o = none) history ∧ m.memory[a]? = some v := by
  induction history using List.reverseRecOn generalizing v with
  | nil => exact Or.inr ⟨trivial, hv⟩
  | append_singleton history o ih =>
    obtain ⟨hrest, ho⟩ := List.forall_mem_append.1 hload
    rw [run_concat, getElem?_memory_perform _ (ho o (List.mem_singleton_self o)) ha] at hv
    rw [lastGives_concat, each_concat]
    cases hg : (m.run history).given? a o with
    | some w =>
      rw [hg] at hv
      exact Or.inl (Or.inl hv)
    | none =>
      rw [hg] at hv
      rcases ih hrest hv with h | ⟨hnone, hstart⟩
      · exact Or.inl (Or.inr ⟨h, rfl⟩)
      · exact Or.inr ⟨⟨hnone, rfl⟩, hstart⟩

end Machine

/-! ## What a load leaves -/

/-- The byte that a load leaves at an address: the font's at the start of memory, the program's from `0x200` on, and zero
elsewhere. -/
def loadedByte (font : Font) (program : List UInt8) (a : Nat) : UInt8 :=
  if h : a < fontSize then font[a] else if 0x200 ≤ a then program[a - 0x200]?.getD 0 else 0

theorem getElem?_image (font : Font) {program : List UInt8} (hp : program.length ≤ programCapacity) {a : Nat}
    (ha : a < memorySize) : (Memory.image font program)[a]? = some (loadedByte font program a) := by
  have hp : program.length ≤ 4096 - 0x200 := hp
  unfold Memory.image loadedByte
  rw [Memory.getElem?_store, Memory.getElem?_store, Vector.length_toList, Vector.getElem?_toList, Nat.sub_zero]
  by_cases hprogram : programStart ≤ a ∧ a < programStart + program.length ∧ a < memorySize
  · have hle : 0x200 ≤ a := hprogram.1
    have hlt : a - 0x200 < program.length := by
      have : a < 0x200 + program.length := hprogram.2.1
      omega
    rw [if_pos hprogram, dif_neg (show ¬a < 80 by omega), if_pos hle, List.getElem?_eq_getElem hlt]
    rfl
  · rw [if_neg hprogram]
    by_cases hfont : a < fontSize
    · rw [if_pos ⟨Nat.zero_le a, by omega, ha⟩, dif_pos hfont]
      exact Vector.getElem?_eq_getElem hfont
    · have hzero : Memory.zero[a]? = some 0 := by
        unfold Memory.zero
        rw [Vector.getElem?_replicate, if_pos ha]
      rw [if_neg (by omega), dif_neg hfont, hzero]
      by_cases hle : 0x200 ≤ a
      · have hout : program.length ≤ a - 0x200 := by
          by_contra hlt
          exact hprogram ⟨hle, show a < 0x200 + program.length by omega, ha⟩
        rw [if_pos hle, List.getElem?_eq_none hout]
        rfl
      · rw [if_neg hle]

namespace Machine

/-- **Every byte of memory has one of two origins.**  After a load and any history without another one, the byte at an
address is the one that the last step to give it a byte gave it, or no step gave it one, and it is the byte that the
load left; a program that is too big leaves no more than an empty one. -/
theorem byte_of_history (config : Config) (entropy : Random.Key) (before : List Operation) (program : List UInt8)
    (history : List Operation) (hload : ∀ o ∈ history, ∀ program, o ≠ .load program) {a : Nat} (ha : a < memorySize) :
    let loaded := ((build config entropy).run before).load program
    loaded.LastGives a (loaded.run history).memory[a] history ∨
      loaded.Each (fun n o => n.given? a o = none) history ∧
        (loaded.run history).memory[a] =
          loadedByte config.font (if program.length ≤ programCapacity then program else []) a := by
  intro loaded
  have hfits : (if program.length ≤ programCapacity then program else []).length ≤ programCapacity := by
    split
    · assumption
    · exact Nat.zero_le _
  have hmemory : loaded.memory =
      .image config.font (if program.length ≤ programCapacity then program else []) := by
    rw [show loaded = ((build config entropy).run before).load program from rfl, load_eq, config_run]
    rfl
  refine (byte_run ha history hload (Vector.getElem?_eq_getElem ha)).imp_right fun ⟨hnone, hbyte⟩ => ⟨hnone, ?_⟩
  rw [hmemory, getElem?_image _ hfits ha] at hbyte
  exact (Option.some.inj hbyte).symm

/-- A machine that is to write the digits of 123 to the last two bytes of memory, and past them. -/
def beforeDigits : Machine :=
  (build {} (Vector.replicate 8 0)).load [0x60, 0x7B, 0xAF, 0xFE, 0xF0, 0x33]

/-- The step that writes them stops the machine, and the last byte is theirs nevertheless. -/
theorem byte_of_history_digits :
    (beforeDigits.run [.step 0, .step 0, .step 0]).status = .halted (.outOfBounds 0x1000) ∧
    (beforeDigits.run [.step 0, .step 0, .step 0]).memory[0xFFF] = 2 ∧
    beforeDigits.LastGives 0xFFF 2 [.step 0, .step 0, .step 0] := by
  have hend : (beforeDigits.run [.step 0, .step 0, .step 0]).status = .halted (.outOfBounds 0x1000) ∧
      (beforeDigits.run [.step 0, .step 0, .step 0]).memory[0xFFF] = 2 := by decide +kernel
  have hgiven : ¬beforeDigits.Each (fun n o => n.given? 0xFFF o = none) [.step 0, .step 0, .step 0] := by
    decide +kernel
  have hlast := (byte_of_history {} (Vector.replicate 8 0) [] [0x60, 0x7B, 0xAF, 0xFE, 0xF0, 0x33]
    [.step 0, .step 0, .step 0] (by simp) (show 0xFFF < memorySize by decide)).resolve_right fun h => hgiven h.1
  exact ⟨hend.1, hend.2, by rw [← hend.2]; exact hlast⟩

end Machine

end Chip8
