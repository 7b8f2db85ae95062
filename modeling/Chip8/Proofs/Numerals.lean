import Mathlib
import Chip8.Text.Numeral
/-!
# Numerals — which texts are numbers, and which numbers they are

A numeral is one or more digits, letters in either case and the first digit the heaviest, after at most one plus sign
(`IsNumeral`).  A text is read as a number below a limit exactly if it is a numeral of that number
(`readNumeral_eq_ok_iff`).  If it is not, what comes first from the left decides: a character that is not a digit, or
digits that reach the limit (`readNumeral_eq_error_iff`).  What is written in some base is a numeral of it.
-/
namespace Chip8.Text

/-! ## Digits -/

/-- The character is written for a digit of base `radix`, a letter in either case. -/
def IsDigit (radix : Nat) (c : Char) (d : Nat) : Prop :=
  d < radix ∧ c.toLower = Nat.digitChar d

/-- The characters are written for these digits, one by one. -/
abbrev AreDigits (radix : Nat) : List Char → List Nat → Prop :=
  List.Forall₂ (IsDigit radix)

theorem digitValue?_ascii : ∀ n < 128, ∀ d < 16,
    digitValue? 16 (Char.ofNat n) = some d ↔ (Char.ofNat n).toLower = Nat.digitChar d := by
  decide +kernel

theorem digitValue?_of_not_ascii {c : Char} (h : 128 ≤ c.toNat) : digitValue? 16 c = none := by
  have hgt : ∀ b : Char, b.toNat < 128 → ¬c ≤ b := fun b hb hle => Nat.not_lt.2 (h.trans hle) hb
  unfold digitValue?
  rw [if_neg fun hc => hgt _ (by decide) hc.2, if_neg fun hc => hgt _ (by decide) hc.2,
    if_neg fun hc => hgt _ (by decide) hc.2]
  rfl

theorem toLower_of_not_ascii {c : Char} (h : 128 ≤ c.toNat) : c.toLower = c :=
  dif_neg fun hc => absurd (show c.toNat ≤ 90 from hc.2) (by omega)

theorem digitValue?_of_le {radix : Nat} (hr : radix ≤ 16) (c : Char) :
    digitValue? radix c = (digitValue? 16 c).filter (· < radix) := by
  have hboth : (fun d => decide (d < 16) && decide (d < radix)) = fun d => decide (d < radix) := by
    funext d
    by_cases hd : d < radix
    · simp [hd, Nat.lt_of_lt_of_le hd hr]
    · simp [hd]
  unfold digitValue?
  rw [Option.filter_filter]
  simp only [hboth]

/-- **A digit is what numbers are written with**, up to its case. -/
theorem digitValue?_eq_some_iff {radix d : Nat} (hr : radix ≤ 16) {c : Char} :
    digitValue? radix c = some d ↔ IsDigit radix c d := by
  rw [digitValue?_of_le hr, Option.filter_eq_some_iff, decide_eq_true_eq, and_comm]
  refine and_congr_right fun hd => ?_
  by_cases hc : c.toNat < 128
  · have hascii := digitValue?_ascii c.toNat hc d (Nat.lt_of_lt_of_le hd hr)
    rwa [Char.ofNat_toNat] at hascii
  · have hle := Nat.not_lt.1 hc
    rw [digitValue?_of_not_ascii hle, toLower_of_not_ascii hle]
    refine iff_of_false nofun ?_
    rintro rfl
    have hdigit : ∀ d < 16, (Nat.digitChar d).toNat < 128 := by decide
    exact hc (hdigit d (Nat.lt_of_lt_of_le hd hr))

theorem digitValue?_eq_none_iff {radix : Nat} (hr : radix ≤ 16) {c : Char} :
    digitValue? radix c = none ↔ ∀ d, ¬IsDigit radix c d := by
  simp only [Option.eq_none_iff_forall_ne_some, ne_eq, digitValue?_eq_some_iff hr]

theorem isDigit_digitChar : ∀ d < 16, IsDigit 16 (Nat.digitChar d) d := by
  unfold IsDigit
  decide

theorem areDigits_iff {radix : Nat} {cs : List Char} {ds : List Nat} :
    AreDigits radix cs ds ↔ (∀ d ∈ ds, d < radix) ∧ cs.map Char.toLower = ds.map Nat.digitChar := by
  induction cs generalizing ds with
  | nil => cases ds <;> simp
  | cons c cs ih =>
    cases ds with
    | nil => simp
    | cons d ds =>
      rw [List.forall_mem_cons, List.map_cons, List.map_cons, List.cons.injEq, and_and_and_comm, ← ih]
      exact List.forall₂_cons

/-! ## Reading digits -/

/-- The value of digits that come after others of this value. -/
def valueFrom (radix acc : Nat) (ds : List Nat) : Nat :=
  ds.foldl (fun n d => n * radix + d) acc

theorem valueFrom_zero (radix : Nat) (ds : List Nat) : valueFrom radix 0 ds = Nat.ofDigits radix ds.reverse := by
  unfold valueFrom
  rw [Nat.ofDigits_eq_foldr, List.foldr_reverse]
  congr 1
  funext n d
  rw [Nat.cast_id, Nat.mul_comm, Nat.add_comm]

theorem le_valueFrom {radix : Nat} (hr : 0 < radix) (acc : Nat) (ds : List Nat) : acc ≤ valueFrom radix acc ds := by
  induction ds generalizing acc with
  | nil => exact Nat.le_refl acc
  | cons d ds ih => exact ((Nat.le_mul_of_pos_right acc hr).trans (Nat.le_add_right _ d)).trans (ih _)

section

variable {radix limit : Nat} (hr : 0 < radix ∧ radix ≤ 16) {acc : Nat} {before after : List Char} {ds : List Nat}
include hr

/-- Digits whose value stays below the limit are read, and what follows is read onto it. -/
theorem readDigits_append (h : AreDigits radix before ds) (hlt : valueFrom radix acc ds < limit) :
    readDigits radix limit acc (before ++ after) = readDigits radix limit (valueFrom radix acc ds) after := by
  induction h generalizing acc with
  | nil => rfl
  | @cons c d before ds hd _ ih =>
    have hnext : acc * radix + d < limit := Nat.lt_of_le_of_lt (le_valueFrom hr.1 _ ds) hlt
    rw [List.cons_append, readDigits, (digitValue?_eq_some_iff hr.2).2 hd]
    simp only [if_pos hnext]
    exact ih hlt

/-- Digits whose value reaches the limit end the reading. -/
theorem readDigits_of_reaches (h : AreDigits radix before ds) (hacc : acc < limit)
    (hle : limit ≤ valueFrom radix acc ds) : readDigits radix limit acc (before ++ after) = .error .tooLarge := by
  induction h generalizing acc with
  | nil => exact absurd hacc (Nat.not_lt.2 hle)
  | @cons c d before ds hd _ ih =>
    rw [List.cons_append, readDigits, (digitValue?_eq_some_iff hr.2).2 hd]
    by_cases hnext : acc * radix + d < limit
    · simp only [if_pos hnext]
      exact ih hnext hle
    · simp only [if_neg hnext]

/-- A character that is not a digit ends the reading, if digits below the limit come before it. -/
theorem readDigits_of_not_digit (h : AreDigits radix before ds) (hlt : valueFrom radix acc ds < limit) {c : Char}
    (hc : ∀ d, ¬IsDigit radix c d) : readDigits radix limit acc (before ++ c :: after) = .error .invalidDigit := by
  rw [readDigits_append hr h hlt, readDigits, (digitValue?_eq_none_iff hr.2).2 hc]

theorem readDigits_of_digits (h : AreDigits radix before ds) (hlt : valueFrom radix acc ds < limit) :
    readDigits radix limit acc before = .ok (valueFrom radix acc ds) := by
  have hread : readDigits radix limit acc (before ++ []) = _ := readDigits_append hr h hlt
  rwa [List.append_nil] at hread

end

/-- **A text is digits below the limit, or something comes first** that is no digit or reaches the limit. -/
theorem digits_or_first (radix : Nat) {limit acc : Nat} (cs : List Char) (hacc : acc < limit) :
    (∃ ds, AreDigits radix cs ds ∧ valueFrom radix acc ds < limit) ∨
    (∃ before c after ds, cs = before ++ c :: after ∧ AreDigits radix before ds ∧ valueFrom radix acc ds < limit ∧
      ∀ d, ¬IsDigit radix c d) ∨
    ∃ before after ds, cs = before ++ after ∧ AreDigits radix before ds ∧ limit ≤ valueFrom radix acc ds := by
  induction cs generalizing acc with
  | nil => exact Or.inl ⟨[], .nil, hacc⟩
  | cons c cs ih =>
    by_cases hc : ∃ d, IsDigit radix c d
    · obtain ⟨d, hd⟩ := hc
      by_cases hnext : acc * radix + d < limit
      · rcases ih hnext with ⟨ds, h, hlt⟩ | ⟨before, b, after, ds, rfl, h, hlt, hb⟩ | ⟨before, after, ds, rfl, h, hle⟩
        · exact Or.inl ⟨d :: ds, .cons hd h, hlt⟩
        · exact Or.inr (Or.inl ⟨c :: before, b, after, d :: ds, rfl, .cons hd h, hlt, hb⟩)
        · exact Or.inr (Or.inr ⟨c :: before, after, d :: ds, rfl, .cons hd h, hle⟩)
      · exact Or.inr (Or.inr ⟨[c], cs, [d], rfl, .cons hd .nil, Nat.not_lt.1 hnext⟩)
    · exact Or.inr (Or.inl ⟨[], c, cs, [], rfl, .nil, hacc, not_exists.1 hc⟩)

/-! ## Numerals -/

/-- The numerals of a number: one or more digits, the first of them the heaviest, after at most one plus sign. -/
def IsNumeral (radix : Nat) (s : List Char) (n : Nat) : Prop :=
  ∃ sign cs ds, s = sign ++ cs ∧ (sign = [] ∨ sign = ['+']) ∧ cs ≠ [] ∧ AreDigits radix cs ds ∧
    n = Nat.ofDigits radix ds.reverse

/-- A text without the plus sign that may stand before other characters. -/
def unsigned : List Char → List Char
  | '+' :: c :: cs => c :: cs
  | s => s

/-- How a text fails to be a number below a limit, read from the left: there is nothing to read, or a character that is
not a digit comes after digits below the limit, or digits reach it. -/
inductive Misread (radix limit : Nat) (s : List Char) : NumeralError → Prop
  | empty : s = [] → Misread radix limit s .empty
  | invalidDigit {before c after ds} : unsigned s = before ++ c :: after → AreDigits radix before ds →
      Nat.ofDigits radix ds.reverse < limit → (∀ d, ¬IsDigit radix c d) → Misread radix limit s .invalidDigit
  | tooLarge {before after ds} : unsigned s = before ++ after → AreDigits radix before ds →
      limit ≤ Nat.ofDigits radix ds.reverse → Misread radix limit s .tooLarge

theorem unsigned_eq_or (s : List Char) : unsigned s = s ∨ ∃ c cs, s = '+' :: c :: cs := by
  unfold unsigned
  split
  · exact Or.inr ⟨_, _, rfl⟩
  · exact Or.inl rfl

theorem readNumeral_eq (radix limit : Nat) {s : List Char} (hs : s ≠ []) :
    readNumeral radix limit s = readDigits radix limit 0 (unsigned s) := by
  unfold readNumeral
  split
  · exact absurd rfl hs
  · rfl
  · next digits hplus =>
    obtain ⟨c, cs, rfl⟩ := List.exists_cons_of_ne_nil hplus
    rfl
  · next hnot =>
    rcases unsigned_eq_or s with h | ⟨c, cs, rfl⟩
    · rw [h]
    · exact absurd rfl (hnot _)

section

variable {radix limit : Nat} (hr : 0 < radix ∧ radix ≤ 16) {s : List Char} {n : Nat}
include hr

theorem isNumeral_iff :
    IsNumeral radix s n ↔ s ≠ [] ∧ ∃ ds, AreDigits radix (unsigned s) ds ∧ n = Nat.ofDigits radix ds.reverse := by
  have hplus : ∀ d, ¬IsDigit radix '+' d := (digitValue?_eq_none_iff hr.2).1 rfl
  constructor
  · rintro ⟨sign, cs, ds, rfl, rfl | rfl, hne, h, hn⟩
    · refine ⟨hne, ds, ?_, hn⟩
      rcases unsigned_eq_or cs with hcs | ⟨c, cs, rfl⟩
      · rwa [List.nil_append, hcs]
      · cases h with
        | cons hd _ => exact absurd hd (hplus _)
    · obtain ⟨c, cs, rfl⟩ := List.exists_cons_of_ne_nil hne
      exact ⟨List.cons_ne_nil _ _, ds, h, hn⟩
  · rintro ⟨hne, ds, h, hn⟩
    rcases unsigned_eq_or s with hs | ⟨c, cs, rfl⟩
    · exact ⟨[], s, ds, rfl, Or.inl rfl, hne, hs ▸ h, hn⟩
    · exact ⟨['+'], c :: cs, ds, rfl, Or.inr rfl, List.cons_ne_nil _ _, h, hn⟩

theorem readNumeral_of_isNumeral (h : IsNumeral radix s n) (hlt : n < limit) : readNumeral radix limit s = .ok n := by
  obtain ⟨hne, ds, hds, rfl⟩ := (isNumeral_iff hr).1 h
  rw [← valueFrom_zero] at hlt ⊢
  rw [readNumeral_eq radix limit hne]
  exact readDigits_of_digits hr hds hlt

theorem readNumeral_of_misread (hlimit : 0 < limit) {e : NumeralError} (h : Misread radix limit s e) :
    readNumeral radix limit s = .error e := by
  cases h with
  | empty hs =>
    rw [hs]
    rfl
  | invalidDigit hs hds hlt hc =>
    rw [← valueFrom_zero] at hlt
    rw [readNumeral_eq radix limit (by rintro rfl; simp [unsigned] at hs), hs]
    exact readDigits_of_not_digit hr hds hlt hc
  | @tooLarge before after ds hs hds hle =>
    rw [← valueFrom_zero] at hle
    have hne : s ≠ [] := by
      rintro rfl
      obtain ⟨rfl, rfl⟩ := List.append_eq_nil_iff.1 hs.symm
      cases hds
      exact absurd hlimit (Nat.not_lt.2 hle)
    rw [readNumeral_eq radix limit hne, hs]
    exact readDigits_of_reaches hr hds hlimit hle

/-- There are only digits in a numeral, and a plus sign. -/
theorem not_mem_of_isNumeral (h : IsNumeral radix s n) {c : Char} (hplus : c ≠ '+')
    (hc : digitValue? radix c = none) : c ∉ s := by
  obtain ⟨sign, cs, ds, rfl, hsign, -, hds, -⟩ := h
  rw [List.mem_append, not_or]
  constructor
  · rcases hsign with rfl | rfl
    · exact List.not_mem_nil
    · exact mt List.mem_singleton.1 hplus
  · intro hmem
    obtain ⟨i, hi, rfl⟩ := List.getElem_of_mem hmem
    exact (digitValue?_eq_none_iff hr.2).1 hc _ (hds.get hi (hds.length_eq ▸ hi))

/-- A text is a numeral below the limit, or it is misread in some way. -/
theorem isNumeral_or_misread (hlimit : 0 < limit) (s : List Char) :
    (∃ n, IsNumeral radix s n ∧ n < limit) ∨ ∃ e, Misread radix limit s e := by
  by_cases hne : s = []
  · exact Or.inr ⟨_, .empty hne⟩
  · rcases digits_or_first radix (unsigned s) hlimit with
      ⟨ds, hds, hlt⟩ | ⟨before, c, after, ds, hs, hds, hlt, hc⟩ | ⟨before, after, ds, hs, hds, hle⟩
    · exact Or.inl ⟨_, (isNumeral_iff hr).2 ⟨hne, ds, hds, rfl⟩, valueFrom_zero radix ds ▸ hlt⟩
    · exact Or.inr ⟨_, .invalidDigit hs hds (valueFrom_zero radix ds ▸ hlt) hc⟩
    · exact Or.inr ⟨_, .tooLarge hs hds (valueFrom_zero radix ds ▸ hle)⟩

/-- **The numbers that are read are those of numerals**, as far as they are below the limit. -/
theorem readNumeral_eq_ok_iff (hlimit : 0 < limit) :
    readNumeral radix limit s = .ok n ↔ IsNumeral radix s n ∧ n < limit := by
  refine ⟨fun h => ?_, fun h => readNumeral_of_isNumeral hr h.1 h.2⟩
  rcases isNumeral_or_misread hr hlimit s with ⟨k, hk, hlt⟩ | ⟨e, he⟩
  · rw [readNumeral_of_isNumeral hr hk hlt] at h
    rw [← Except.ok.inj h]
    exact ⟨hk, hlt⟩
  · rw [readNumeral_of_misread hr hlimit he] at h
    exact nomatch h

/-- **What is not read is refused for what comes first.** -/
theorem readNumeral_eq_error_iff (hlimit : 0 < limit) {e : NumeralError} :
    readNumeral radix limit s = .error e ↔ Misread radix limit s e := by
  refine ⟨fun h => ?_, readNumeral_of_misread hr hlimit⟩
  rcases isNumeral_or_misread hr hlimit s with ⟨k, hk, hlt⟩ | ⟨e', he⟩
  · rw [readNumeral_of_isNumeral hr hk hlt] at h
    exact nomatch h
  · rw [readNumeral_of_misread hr hlimit he] at h
    rwa [← Except.error.inj h]

end

/-! ## Writing -/

theorem areDigits_toDigits {radix : Nat} (hr : 1 < radix ∧ radix ≤ 16) (n : Nat) :
    ∃ ds, AreDigits radix (Nat.toDigits radix n) ds ∧ n = Nat.ofDigits radix ds.reverse := by
  induction n using Nat.strongRecOn with
  | ind n ih =>
    have hdigit {d : Nat} (hd : d < radix) : IsDigit radix (Nat.digitChar d) d :=
      ⟨hd, (isDigit_digitChar d (Nat.lt_of_lt_of_le hd hr.2)).2⟩
    by_cases hn : n < radix
    · exact ⟨[n], by rw [Nat.toDigits_of_lt_base hn]; exact .cons (hdigit hn) .nil, (Nat.ofDigits_singleton ..).symm⟩
    · have hle : radix ≤ n := Nat.not_lt.1 hn
      obtain ⟨ds, hds, hvalue⟩ := ih (n / radix) (Nat.div_lt_self (by omega) hr.1)
      refine ⟨ds ++ [n % radix], ?_, ?_⟩
      · rw [Nat.toDigits_of_base_le hr.1 hle]
        exact List.rel_append hds (.cons (hdigit (Nat.mod_lt n (by omega))) .nil)
      · rw [List.reverse_append, List.reverse_singleton, List.singleton_append, Nat.ofDigits_cons, ← hvalue]
        exact (Nat.mod_add_div n radix).symm

theorem isNumeral_toDigits {radix : Nat} (hr : 1 < radix ∧ radix ≤ 16) (n : Nat) :
    IsNumeral radix (Nat.toDigits radix n) n := by
  obtain ⟨ds, hds, hn⟩ := areDigits_toDigits hr n
  exact ⟨[], _, ds, rfl, Or.inl rfl, Nat.toDigits_ne_nil, hds, hn⟩

/-- What fills a number up to its width is no matter. -/
theorem isNumeral_hexDigits (width n : Nat) : IsNumeral 16 (hexDigits width n) n := by
  obtain ⟨ds, hds, hn⟩ := areDigits_toDigits (show 1 < 16 ∧ 16 ≤ 16 by decide) n
  let fill := width - (Nat.toDigits 16 n).length
  have hzero : IsDigit 16 '0' 0 := isDigit_digitChar 0 (by decide)
  have hzeros : AreDigits 16 (List.replicate fill '0') (List.replicate fill 0) :=
    List.forall₂_iff_get.2 ⟨by simp, fun i _ _ => by simpa using hzero⟩
  refine ⟨[], hexDigits width n, List.replicate fill 0 ++ ds, rfl, Or.inl rfl, ?_, List.rel_append hzeros hds, ?_⟩
  · exact List.append_ne_nil_of_right_ne_nil _ Nat.toDigits_ne_nil
  · rw [List.reverse_append, List.reverse_replicate, Nat.ofDigits_append_replicate_zero]
    exact hn

end Chip8.Text
