import Mathlib
import Chip8.Proofs.Numerals
import Chip8.Session.KeyPress
/-!
# PressText — the texts of a key press

A key press is written as its key in hexadecimal and its steps in decimal, `K@S` or `K@S-E`.  These are all the texts
that are read as one, and each is read as the key press that it says (`ofChars_eq_ok_iff`).  Any other text is refused
for the first check that it does not pass, where the key is looked at before the steps, and the last step before the
first (`ofChars_eq_error_iff`).
-/
namespace Chip8

namespace Text

/-- A text is cut at the first place of a character: what stands before it, and what stands after it. -/
structure IsCut (sep : Char) (s before after : List Char) : Prop where
  eq : s = before ++ sep :: after
  first : sep ∉ before

theorem exists_isCut {sep : Char} {s : List Char} (h : sep ∈ s) : ∃ before after, IsCut sep s before after :=
  let ⟨before, after, hs, hfirst⟩ := List.eq_append_cons_of_mem h
  ⟨before, after, hs, hfirst⟩

theorem splitFirst?_of_not_mem {sep : Char} {s : List Char} (h : sep ∉ s) : splitFirst? sep s = none := by
  have hpass : ∀ c ∈ s, (c != sep) = true := fun c hc => bne_iff_ne.2 (ne_of_mem_of_not_mem hc h)
  unfold splitFirst?
  rw [List.dropWhile_eq_nil_iff.2 hpass]

theorem splitFirst?_of_isCut {sep : Char} {s before after : List Char} (h : IsCut sep s before after) :
    splitFirst? sep s = some (before, after) := by
  have hpass : ∀ c ∈ before, (c != sep) = true := fun c hc => bne_iff_ne.2 (ne_of_mem_of_not_mem hc h.first)
  unfold splitFirst?
  rw [h.eq, List.dropWhile_append_of_pos hpass, List.takeWhile_append_of_pos hpass,
    List.dropWhile_cons_of_neg (by simp), List.takeWhile_cons_of_neg (by simp), List.append_nil]

end Text

open Text

namespace KeyPress

/-! ## The parts of a text -/

theorem readKey_of_isNumeral {s : List Char} {n : Nat} (h : IsNumeral 16 s n) (hn : n < 0x100) :
    readKey s = if hk : n < keyCount then .ok ⟨n, hk⟩ else .error (.notOnKeypad n) := by
  unfold readKey
  rw [(readNumeral_eq_ok_iff (by decide) (by decide)).2 ⟨h, hn⟩]

theorem readKey_of_misread {s : List Char} {cause : NumeralError} (h : Misread 16 0x100 s cause) :
    readKey s = .error (.invalidKey s cause) := by
  unfold readKey
  rw [(readNumeral_eq_error_iff (by decide) (by decide)).2 h]

theorem readKey_of_key {s : List Char} (key : Fin keyCount) (h : IsNumeral 16 s key) : readKey s = .ok key := by
  have hkey : key.val < keyCount := key.isLt
  rw [readKey_of_isNumeral h (hkey.trans (by decide)), dif_pos hkey]

theorem readStep_of_isNumeral {s : List Char} {step : UInt64} (h : IsNumeral 10 s step.toNat) :
    readStep s = .ok step := by
  unfold readStep
  rw [(readNumeral_eq_ok_iff (by decide) (by decide)).2 ⟨h, step.toNat_lt⟩]
  simp only [UInt64.ofNat_toNat]

theorem readStep_of_misread {s : List Char} {cause : NumeralError} (h : Misread 10 (2 ^ 64) s cause) :
    readStep s = .error (.invalidStep cause) := by
  have hread : readNumeral 10 0x10000000000000000 s = .error cause :=
    (readNumeral_eq_error_iff (by decide) (by decide)).2 h
  unfold readStep
  rw [hread]

/-- A text is the numeral of a step, or it is misread in some way. -/
theorem isStep_or_misread (s : List Char) :
    (∃ step : UInt64, IsNumeral 10 s step.toNat) ∨ ∃ cause, Misread 10 (2 ^ 64) s cause := by
  refine (isNumeral_or_misread (by decide) (by decide) s).imp_left fun ⟨n, h, hn⟩ => ⟨UInt64.ofNat n, ?_⟩
  rwa [UInt64.toNat_ofNat_of_lt' hn]

/-! ## The steps -/

/-- A text says from which step on a key is pressed, and until which one if it is let go: `S`, or `S-E`. -/
def SaysSteps (s : List Char) (start : Nat) : Option Nat → Prop
  | none => IsNumeral 10 s start
  | some stop => ∃ b e, s = b ++ '-' :: e ∧ IsNumeral 10 b start ∧ IsNumeral 10 e stop

/-- Why a text says no steps: the last step is none, or the first step is none, or it does not come before the last. -/
inductive StepsRefused (s : List Char) : KeyPressError → Prop
  | stop {b e cause} : IsCut '-' s b e → Misread 10 (2 ^ 64) e cause → StepsRefused s (.invalidStep cause)
  | start {b e cause} {stop : UInt64} : IsCut '-' s b e → IsNumeral 10 e stop.toNat → Misread 10 (2 ^ 64) b cause →
      StepsRefused s (.invalidStep cause)
  | onlyStart {cause} : '-' ∉ s → Misread 10 (2 ^ 64) s cause → StepsRefused s (.invalidStep cause)
  | order {b e} {start stop : UInt64} : IsCut '-' s b e → IsNumeral 10 e stop.toNat → IsNumeral 10 b start.toNat →
      stop ≤ start → StepsRefused s (.releaseNotAfter start stop)

theorem lt_of_mem_none (start : UInt64) : ∀ s ∈ (none : Option UInt64), start < s :=
  fun s hs => absurd hs (Option.not_mem_none s)

theorem lt_of_mem_some {start stop : UInt64} (h : start < stop) : ∀ s ∈ some stop, start < s :=
  fun _ hs => Option.some.inj hs ▸ h

/-- Reads the steps of a key press. -/
def ofSteps (key : Fin keyCount) (steps : List Char) : Except KeyPressError KeyPress :=
  match splitFirst? '-' steps with
  | none => do
    let start ← readStep steps
    return { key, start, stop := none, start_lt_stop := lt_of_mem_none start }
  | some (start, stop) => do
    let stop ← readStep stop
    let start ← readStep start
    if h : start < stop then
      return { key, start, stop := some stop, start_lt_stop := lt_of_mem_some h }
    else throw (.releaseNotAfter start stop)

section

variable {key : Fin keyCount} {s b e : List Char}

theorem ofSteps_of_start (hcut : '-' ∉ s) {start : UInt64} (hb : IsNumeral 10 s start.toNat) :
    ofSteps key s = .ok { key, start, stop := none, start_lt_stop := lt_of_mem_none start } := by
  unfold ofSteps
  rw [splitFirst?_of_not_mem hcut]
  simp only [readStep_of_isNumeral hb]
  rfl

theorem ofSteps_of_stop (hcut : IsCut '-' s b e) {start stop : UInt64} (hb : IsNumeral 10 b start.toNat)
    (he : IsNumeral 10 e stop.toNat) :
    ofSteps key s = if h : start < stop then
      .ok { key, start, stop := some stop, start_lt_stop := lt_of_mem_some h }
    else .error (.releaseNotAfter start stop) := by
  unfold ofSteps
  rw [splitFirst?_of_isCut hcut]
  simp only [readStep_of_isNumeral hb, readStep_of_isNumeral he]
  rfl

theorem ofSteps_of_stepsRefused {error : KeyPressError} (h : StepsRefused s error) : ofSteps key s = .error error := by
  cases h with
  | stop hcut he =>
    unfold ofSteps
    rw [splitFirst?_of_isCut hcut]
    simp only [readStep_of_misread he]
    rfl
  | start hcut he hb =>
    unfold ofSteps
    rw [splitFirst?_of_isCut hcut]
    simp only [readStep_of_isNumeral he, readStep_of_misread hb]
    rfl
  | onlyStart hcut hb =>
    unfold ofSteps
    rw [splitFirst?_of_not_mem hcut]
    simp only [readStep_of_misread hb]
    rfl
  | order hcut he hb hle => rw [ofSteps_of_stop hcut hb he, dif_neg (UInt64.not_lt.2 hle)]

/-- Steps are read as what they say, or refused for a reason. -/
theorem ofSteps_cases (key : Fin keyCount) (s : List Char) :
    (∃ p, ofSteps key s = .ok p ∧ p.key = key ∧ SaysSteps s p.start.toNat (p.stop.map UInt64.toNat)) ∨
      ∃ error, StepsRefused s error := by
  by_cases hmem : '-' ∈ s
  · obtain ⟨b, e, hcut⟩ := exists_isCut hmem
    rcases isStep_or_misread e with ⟨stop, he⟩ | ⟨cause, he⟩
    · rcases isStep_or_misread b with ⟨start, hb⟩ | ⟨cause, hb⟩
      · by_cases hlt : start < stop
        · exact Or.inl ⟨_, (ofSteps_of_stop hcut hb he).trans (dif_pos hlt), rfl, b, e, hcut.eq, hb, he⟩
        · exact Or.inr ⟨_, .order hcut he hb (UInt64.not_lt.1 hlt)⟩
      · exact Or.inr ⟨_, .start hcut he hb⟩
    · exact Or.inr ⟨_, .stop hcut he⟩
  · rcases isStep_or_misread s with ⟨start, hb⟩ | ⟨cause, hb⟩
    · exact Or.inl ⟨_, ofSteps_of_start hmem hb, rfl, hb⟩
    · exact Or.inr ⟨_, .onlyStart hmem hb⟩

end

/-! ## The whole text -/

theorem ofChars_of_not_mem {s : List Char} (h : '@' ∉ s) : ofChars s = .error (.noSeparator s) := by
  unfold ofChars
  rw [splitFirst?_of_not_mem h]
  rfl

theorem ofChars_of_isCut {s k steps : List Char} (h : IsCut '@' s k steps) :
    ofChars s = readKey k >>= fun key => ofSteps key steps := by
  unfold ofChars
  rw [splitFirst?_of_isCut h]
  rfl

/-- A text says that a key is pressed from a step on, and until another one if it is let go: `K@S`, or `K@S-E`. -/
def Says (s : List Char) (key start : Nat) (stop : Option Nat) : Prop :=
  ∃ k steps, s = k ++ '@' :: steps ∧ IsNumeral 16 k key ∧ SaysSteps steps start stop

/-- Why a text is refused, by the first check that it does not pass: nothing is cut off for the key, or the key is not
the numeral of a byte, or there is no such key, or the steps are refused. -/
inductive Refused (s : List Char) : KeyPressError → Prop
  | noSeparator : '@' ∉ s → Refused s (.noSeparator s)
  | invalidKey {k steps cause} : IsCut '@' s k steps → Misread 16 0x100 k cause → Refused s (.invalidKey k cause)
  | notOnKeypad {k steps n} : IsCut '@' s k steps → IsNumeral 16 k n → n < 0x100 → 16 ≤ n → Refused s (.notOnKeypad n)
  | steps {k steps n error} : IsCut '@' s k steps → IsNumeral 16 k n → n < 16 → StepsRefused steps error →
      Refused s error

theorem ofChars_of_refused {s : List Char} {error : KeyPressError} (h : Refused s error) :
    ofChars s = .error error := by
  cases h with
  | noSeparator hcut => exact ofChars_of_not_mem hcut
  | invalidKey hcut hk =>
    rw [ofChars_of_isCut hcut, readKey_of_misread hk]
    rfl
  | notOnKeypad hcut hk hbyte hle =>
    rw [ofChars_of_isCut hcut, readKey_of_isNumeral hk hbyte, dif_neg (Nat.not_lt.2 hle)]
    rfl
  | @steps k steps n error hcut hk hlt hsteps =>
    rw [ofChars_of_isCut hcut, readKey_of_key ⟨n, hlt⟩ hk]
    exact ofSteps_of_stepsRefused hsteps

/-- **A text is read as what it says, or refused for a reason.** -/
theorem ofChars_cases (s : List Char) :
    (∃ p, ofChars s = .ok p ∧ Says s p.key p.start.toNat (p.stop.map UInt64.toNat)) ∨ ∃ error, Refused s error := by
  by_cases hmem : '@' ∈ s
  · obtain ⟨k, steps, hcut⟩ := exists_isCut hmem
    rcases isNumeral_or_misread (show 0 < 16 ∧ 16 ≤ 16 by decide) (show 0 < 0x100 by decide) k with
      ⟨n, hk, hbyte⟩ | ⟨cause, hk⟩
    · by_cases hlt : n < 16
      · have hread : ofChars s = ofSteps ⟨n, hlt⟩ steps := by
          rw [ofChars_of_isCut hcut, readKey_of_key ⟨n, hlt⟩ hk]
          rfl
        rcases ofSteps_cases ⟨n, hlt⟩ steps with ⟨p, hp, hkey, hsays⟩ | ⟨error, hrefused⟩
        · exact Or.inl ⟨p, hread.trans hp, k, steps, hcut.eq, by rw [hkey]; exact hk, hsays⟩
        · exact Or.inr ⟨error, .steps hcut hk hlt hrefused⟩
      · exact Or.inr ⟨_, .notOnKeypad hcut hk hbyte (Nat.not_lt.1 hlt)⟩
    · exact Or.inr ⟨_, .invalidKey hcut hk⟩
  · exact Or.inr ⟨_, .noSeparator hmem⟩

theorem ofSteps_of_says {p : KeyPress} {steps : List Char}
    (h : SaysSteps steps p.start.toNat (p.stop.map UInt64.toNat)) : ofSteps p.key steps = .ok p := by
  obtain ⟨key, start, stop, hlt⟩ := p
  cases stop with
  | none => exact ofSteps_of_start (not_mem_of_isNumeral (by decide) h (by decide) rfl) h
  | some stop =>
    obtain ⟨b, e, rfl, hb, he⟩ := h
    have hcut : IsCut '-' (b ++ '-' :: e) b e := ⟨rfl, not_mem_of_isNumeral (by decide) hb (by decide) rfl⟩
    exact (ofSteps_of_stop hcut hb he).trans (dif_pos (hlt stop rfl))

theorem ofChars_of_says {p : KeyPress} {s : List Char} (h : Says s p.key p.start.toNat (p.stop.map UInt64.toNat)) :
    ofChars s = .ok p := by
  obtain ⟨k, steps, rfl, hk, hsteps⟩ := h
  have hcut : IsCut '@' (k ++ '@' :: steps) k steps := ⟨rfl, not_mem_of_isNumeral (by decide) hk (by decide) rfl⟩
  rw [ofChars_of_isCut hcut, readKey_of_key p.key hk]
  exact ofSteps_of_says hsteps

theorem ofChars_eq_ok_iff {s : List Char} {p : KeyPress} :
    ofChars s = .ok p ↔ Says s p.key p.start.toNat (p.stop.map UInt64.toNat) := by
  refine ⟨fun h => ?_, ofChars_of_says⟩
  rcases ofChars_cases s with ⟨p', hp', hsays⟩ | ⟨error, hrefused⟩
  · rw [hp'] at h
    rwa [← Except.ok.inj h]
  · rw [ofChars_of_refused hrefused] at h
    exact nomatch h

theorem ofChars_eq_error_iff {s : List Char} {error : KeyPressError} : ofChars s = .error error ↔ Refused s error := by
  refine ⟨fun h => ?_, ofChars_of_refused⟩
  rcases ofChars_cases s with ⟨p, hp, -⟩ | ⟨error', hrefused⟩
  · rw [hp] at h
    exact nomatch h
  · rw [ofChars_of_refused hrefused] at h
    rwa [← Except.error.inj h]

/-- Numbers that are in range, and in order, are those of a key press. -/
theorem exists_press {key start : Nat} {stop : Option Nat} (hkey : key < 16) (hstart : start < 2 ^ 64)
    (hstop : ∀ e ∈ stop, start < e ∧ e < 2 ^ 64) :
    ∃ p : KeyPress, p.key.val = key ∧ p.start.toNat = start ∧ p.stop.map UInt64.toNat = stop := by
  have hword {n : Nat} (hn : n < 2 ^ 64) : (UInt64.ofNat n).toNat = n := UInt64.toNat_ofNat_of_lt' hn
  cases stop with
  | none => exact ⟨⟨⟨key, hkey⟩, .ofNat start, none, lt_of_mem_none _⟩, rfl, hword hstart, rfl⟩
  | some stop =>
    obtain ⟨hlt, hbound⟩ := hstop stop rfl
    have horder : UInt64.ofNat start < .ofNat stop := by rwa [UInt64.lt_iff_toNat_lt, hword hstart, hword hbound]
    exact ⟨⟨⟨key, hkey⟩, .ofNat start, some (.ofNat stop), lt_of_mem_some horder⟩, rfl, hword hstart,
      congrArg some (hword hbound)⟩

/-- The text of a key press with no more digits than it takes. -/
def text (p : KeyPress) : String :=
  Text.hex 1 p.key.val ++ "@" ++ toString p.start ++ p.stop.elim "" fun stop => "-" ++ toString stop

theorem says_text (p : KeyPress) : Says p.text.toList p.key p.start.toNat (p.stop.map UInt64.toNat) := by
  have hdecimal (step : UInt64) : IsNumeral 10 (toString step).toList step.toNat := by
    show IsNumeral 10 step.toNat.repr.toList step.toNat
    rw [Nat.toList_repr]
    exact isNumeral_toDigits (by decide) step.toNat
  refine ⟨hexDigits 1 p.key.val,
    (toString p.start).toList ++ (p.stop.elim "" fun stop => "-" ++ toString stop).toList, ?_,
    isNumeral_hexDigits 1 p.key.val, ?_⟩
  · unfold text hex
    simp only [String.toList_append, String.toList_ofList, List.append_assoc]
    rfl
  · cases p.stop with
    | none =>
      show IsNumeral 10 _ _
      rw [Option.elim_none, String.toList_empty, List.append_nil]
      exact hdecimal p.start
    | some stop =>
      refine ⟨_, _, ?_, hdecimal p.start, hdecimal stop⟩
      rw [Option.elim_some, String.toList_append]
      rfl

/-- **The texts of a key press.**  A text is read as a key press exactly if it is `K@S` or `K@S-E`, where `K` is a
hexadecimal numeral below 16 and `S` and `E` are decimal ones below 2^64, the first less than the second.  It is then
read as the key press that it says, and every key press has a text that says it.  Any other text is refused, for the
first of the checks that it does not pass: that there is an `@`, that the key is a byte, and one of the sixteen, that
the last step is a number, that the first step is one, and that it comes before the last. -/
theorem press_of_text (s : String) (p : KeyPress) (error : KeyPressError) :
    ((∃ q, parse s = .ok q) ↔ ∃ key start stop, Says s.toList key start stop ∧ key < 16 ∧ start < 2 ^ 64 ∧
      ∀ e ∈ stop, start < e ∧ e < 2 ^ 64) ∧
    (parse s = .ok p ↔ Says s.toList p.key p.start.toNat (p.stop.map UInt64.toNat)) ∧ parse p.text = .ok p ∧
    (parse s = .error error ↔ Refused s.toList error) := by
  refine ⟨⟨?_, ?_⟩, ofChars_eq_ok_iff, ofChars_of_says p.says_text, ofChars_eq_error_iff⟩
  · rintro ⟨q, hq⟩
    refine ⟨q.key, q.start.toNat, q.stop.map UInt64.toNat, ofChars_eq_ok_iff.1 hq, q.key.isLt, q.start.toNat_lt, ?_⟩
    intro e he
    obtain ⟨stop, hstop, rfl⟩ := Option.mem_map.1 he
    exact ⟨q.start_lt_stop stop hstop, stop.toNat_lt⟩
  · rintro ⟨key, start, stop, hsays, hkey, hstart, hstop⟩
    obtain ⟨q, rfl, rfl, rfl⟩ := exists_press hkey hstart hstop
    exact ⟨q, ofChars_of_says hsays⟩

/-- A key with a zero before its digit and a step with a plus sign; and two faults in a text, of which the key's is
told. -/
example : (parse "0A@+7-9").toOption.map (fun p => (p.key.val, p.start, p.stop)) = some (10, 7, some 9) ∧
    (parse "10@9-7" matches .error (.notOnKeypad 16)) = true := by
  decide +kernel

end KeyPress

end Chip8
