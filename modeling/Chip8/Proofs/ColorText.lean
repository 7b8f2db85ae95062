import Mathlib
import Chip8.Picture.Color
import Chip8.Proofs.Numerals
/-!
# ColorText — the texts of a color

A color is written as the hexadecimal digits of its three channels, two for each and letters in either case, and one
`0x` may stand before them.  No other text is read as a color.  A text is stored in bytes, of which a character may take
several, and reading a color counts them and cuts between them.  No cut ever falls inside a character, since by then it
is known that all characters are digits, and a digit is a single byte (`parseBytes?_eq`).
-/
namespace Chip8

namespace Text

/-! ## Hexadecimal digits -/

/-- One of the 22 characters that are hexadecimal digits. -/
def IsHexDigit (c : Char) : Prop :=
  '0' ≤ c ∧ c ≤ '9' ∨ 'a' ≤ c ∧ c ≤ 'f' ∨ 'A' ≤ c ∧ c ≤ 'F'

instance : DecidablePred IsHexDigit := fun _ => inferInstanceAs (Decidable (_ ∨ _))

theorem isHexDigit_ascii : ∀ n < 128,
    IsHexDigit (Char.ofNat n) ↔ ∃ d < 16, (Char.ofNat n).toLower = Nat.digitChar d := by
  decide +kernel

theorem IsHexDigit.ascii {c : Char} (h : IsHexDigit c) : c.toNat < 128 := by
  have hle : c.toNat ≤ '9'.toNat ∨ c.toNat ≤ 'f'.toNat ∨ c.toNat ≤ 'F'.toNat :=
    h.imp And.right (Or.imp And.right And.right)
  have : '9'.toNat = 57 ∧ 'f'.toNat = 102 ∧ 'F'.toNat = 70 := by decide
  omega

theorem isHexDigit_iff {c : Char} : IsHexDigit c ↔ ∃ d, IsDigit 16 c d := by
  by_cases hc : c.toNat < 128
  · have hascii := isHexDigit_ascii c.toNat hc
    rwa [Char.ofNat_toNat] at hascii
  · refine iff_of_false (mt IsHexDigit.ascii hc) (not_exists.2 ?_)
    exact (digitValue?_eq_none_iff (le_refl 16)).1 (digitValue?_of_not_ascii (Nat.not_lt.1 hc))

/-- A hexadecimal digit is a single byte. -/
theorem IsHexDigit.utf8Size {c : Char} (h : IsHexDigit c) : c.utf8Size = 1 :=
  Char.utf8Size_eq_one_iff.2 (Nat.le_of_lt_succ h.ascii)

theorem utf8ByteSize_of_digits {t : List Char} (h : ∀ c ∈ t, IsHexDigit c) :
    (String.ofList t).utf8ByteSize = t.length := by
  induction t with
  | nil => rfl
  | cons c t ih =>
    obtain ⟨hc, ht⟩ := List.forall_mem_cons.1 h
    rw [String.ofList_cons, String.utf8ByteSize_append, String.utf8ByteSize_singleton, hc.utf8Size, ih ht,
      List.length_cons, Nat.add_comm]

/-- What a byte is shown as. -/
theorem hexDigits_byte (b : UInt8) :
    hexDigits 2 b.toNat = [Nat.digitChar (b.toNat / 16), Nat.digitChar (b.toNat % 16)] := by
  have hb : b.toNat < 256 := b.toNat_lt
  unfold hexDigits
  by_cases hlt : b.toNat < 16
  · rw [Nat.toDigits_of_lt_base hlt, Nat.div_eq_of_lt hlt, Nat.mod_eq_of_lt hlt]
    rfl
  · rw [Nat.toDigits_of_base_le (by decide) (Nat.not_lt.1 hlt), Nat.toDigits_of_lt_base (by omega)]
    rfl

/-! ## Parts of a stored text -/

/-- The part of a text between two of its bytes; there is none if one of them is inside a character or past the end, or
the second comes before the first. -/
def between? (s : String) (i j : Nat) : Option String := do
  let p ← s.pos? ⟨i⟩
  let q ← s.pos? ⟨j⟩
  let part ← s.slice? p q
  return part.copy

/-- Behind the first part of a text there is a position. -/
theorem exists_pos? {s t u : String} (h : s = t ++ u) :
    ∃ p : s.Pos, s.pos? ⟨t.utf8ByteSize⟩ = some p ∧ p.Splits t u := by
  subst h
  have hvalid : t.rawEndPos.IsValid (t ++ u) := String.Pos.Raw.isValid_rawEndPos.append_right u
  refine ⟨_, ?_, String.Pos.splits_append_rawEndPos⟩
  show String.pos? _ t.rawEndPos = _
  unfold String.pos? String.Slice.pos?
  rw [dif_pos (String.Pos.Raw.isValidForSlice_eq_true_iff.2 hvalid.toSlice)]
  rfl

theorem between?_append (a b c : String) :
    between? (a ++ (b ++ c)) a.utf8ByteSize (a ++ b).utf8ByteSize = some b := by
  obtain ⟨p, hp, hbefore⟩ := exists_pos? (s := a ++ (b ++ c)) (t := a) rfl
  obtain ⟨q, hq, hafter⟩ := exists_pos? (s := a ++ (b ++ c)) (t := a ++ b) String.append_assoc.symm
  obtain ⟨hle, hcopy⟩ := String.copy_slice_eq_iff_splits.2 ⟨a, c, hbefore, hafter⟩
  unfold between?
  rw [hp, hq]
  simp only [Option.bind_eq_bind, Option.bind_some]
  unfold String.slice?
  rw [dif_pos hle]
  exact congrArg some hcopy

/-- Between digits every cut is possible. -/
theorem between?_of_digits {a b c : List Char} (h : ∀ x ∈ a ++ b ++ c, IsHexDigit x) :
    between? (String.ofList (a ++ b ++ c)) a.length (a.length + b.length) = some (String.ofList b) := by
  obtain ⟨hab, hc⟩ := List.forall_mem_append.1 h
  obtain ⟨ha, hb⟩ := List.forall_mem_append.1 hab
  have hcut := between?_append (String.ofList a) (String.ofList b) (String.ofList c)
  rwa [String.utf8ByteSize_append, utf8ByteSize_of_digits ha, utf8ByteSize_of_digits hb, ← String.append_assoc,
    ← String.ofList_append, ← String.ofList_append] at hcut

end Text

open Text

namespace Color

/-! ## The digits of a color -/

/-- The digits of a color, two for each channel and letters in lower case. -/
def digits (c : Color) : List Char :=
  c.bytes.flatMap fun b => hexDigits 2 b.toNat

theorem channel?_eq_some_iff {high low : Char} {b : UInt8} :
    channel? high low = some b ↔ IsDigit 16 high (b.toNat / 16) ∧ IsDigit 16 low (b.toNat % 16) := by
  have hvalue (c : Char) (d : Nat) := digitValue?_eq_some_iff (d := d) (le_refl 16) (c := c)
  unfold channel?
  constructor
  · intro h
    obtain ⟨h', hhigh, h⟩ := Option.bind_eq_some_iff.1 h
    obtain ⟨l, hlow, h⟩ := Option.bind_eq_some_iff.1 h
    have hdigits := And.intro ((hvalue high h').1 hhigh) ((hvalue low l).1 hlow)
    have hlt : h' < 16 ∧ l < 16 := ⟨hdigits.1.1, hdigits.2.1⟩
    have hb : b.toNat = 16 * h' + l := by
      rw [← Option.some.inj h, UInt8.toNat_ofNat_of_lt' (show 16 * h' + l < 256 by omega)]
    rwa [show b.toNat / 16 = h' by omega, show b.toNat % 16 = l by omega]
  · rintro ⟨hhigh, hlow⟩
    rw [(hvalue high _).2 hhigh, (hvalue low _).2 hlow]
    simp only [Option.bind_eq_bind, Option.bind_some, Nat.div_add_mod, UInt8.ofNat_toNat]
    rfl

theorem exists_channel? {high low : Char} (hhigh : IsHexDigit high) (hlow : IsHexDigit low) :
    ∃ b, channel? high low = some b := by
  obtain ⟨h, hh⟩ := isHexDigit_iff.1 hhigh
  obtain ⟨l, hl⟩ := isHexDigit_iff.1 hlow
  unfold channel?
  rw [(digitValue?_eq_some_iff (le_refl 16)).2 hh, (digitValue?_eq_some_iff (le_refl 16)).2 hl]
  exact ⟨_, rfl⟩

/-- **A color is read from the digits of its channels**, and from nothing else. -/
theorem ofDigits?_eq_some_iff {t : List Char} {c : Color} :
    ofDigits? t = some c ↔ AreDigits 16 t [c.red.toNat / 16, c.red.toNat % 16, c.green.toNat / 16, c.green.toNat % 16,
      c.blue.toNat / 16, c.blue.toNat % 16] := by
  obtain ⟨red, green, blue⟩ := c
  constructor
  · intro h
    unfold ofDigits? at h
    split at h
    · obtain ⟨_, hred, h⟩ := Option.bind_eq_some_iff.1 h
      obtain ⟨_, hgreen, h⟩ := Option.bind_eq_some_iff.1 h
      obtain ⟨_, hblue, h⟩ := Option.bind_eq_some_iff.1 h
      obtain ⟨rfl, rfl, rfl⟩ := Color.mk.inj (Option.some.inj h)
      obtain ⟨ha, hb⟩ := channel?_eq_some_iff.1 hred
      obtain ⟨hc, hd⟩ := channel?_eq_some_iff.1 hgreen
      obtain ⟨he, hf⟩ := channel?_eq_some_iff.1 hblue
      exact .cons ha (.cons hb (.cons hc (.cons hd (.cons he (.cons hf .nil)))))
    · exact nomatch h
  · rintro (_ | ⟨ha, _ | ⟨hb, _ | ⟨hc, _ | ⟨hd, _ | ⟨he, _ | ⟨hf, _ | _⟩⟩⟩⟩⟩⟩)
    unfold ofDigits?
    simp only [channel?_eq_some_iff.2 ⟨ha, hb⟩, channel?_eq_some_iff.2 ⟨hc, hd⟩, channel?_eq_some_iff.2 ⟨he, hf⟩]
    rfl

theorem ofDigits?_eq_some_iff_map {t : List Char} {c : Color} :
    ofDigits? t = some c ↔ t.map Char.toLower = c.digits := by
  rw [ofDigits?_eq_some_iff, areDigits_iff, and_iff_right]
  · unfold digits bytes
    simp only [List.flatMap_cons, List.flatMap_nil, hexDigits_byte]
    rfl
  · have hred := c.red.toNat_lt
    have hgreen := c.green.toNat_lt
    have hblue := c.blue.toNat_lt
    simp only [List.forall_mem_cons]
    exact ⟨by omega, by omega, by omega, by omega, by omega, by omega, nofun⟩

/-- **Six characters are read as a color if they are digits.** -/
theorem exists_ofDigits?_iff {t : List Char} :
    (∃ c, ofDigits? t = some c) ↔ t.length = 6 ∧ ∀ x ∈ t, IsHexDigit x := by
  constructor
  · rintro ⟨c, hc⟩
    have h := ofDigits?_eq_some_iff.1 hc
    refine ⟨h.length_eq, fun x hx => ?_⟩
    obtain ⟨i, hi, rfl⟩ := List.getElem_of_mem hx
    exact isHexDigit_iff.2 ⟨_, h.get hi (h.length_eq ▸ hi)⟩
  · rintro ⟨hlength, hdigits⟩
    match t with
    | [a, b, c, d, e, f] =>
      simp only [List.forall_mem_cons] at hdigits
      obtain ⟨ha, hb, hc, hd, he, hf, -⟩ := hdigits
      obtain ⟨red, hred⟩ := exists_channel? ha hb
      obtain ⟨green, hgreen⟩ := exists_channel? hc hd
      obtain ⟨blue, hblue⟩ := exists_channel? he hf
      refine ⟨⟨red, green, blue⟩, ?_⟩
      unfold ofDigits?
      simp only [hred, hgreen, hblue]
      rfl

/-- A text without a mark is as it was. -/
theorem dropMark_of_digits {t : List Char} (h : ∀ x ∈ t, IsHexDigit x) : dropMark t = t := by
  unfold dropMark
  split
  · exact absurd (h 'x' (by simp)) (by decide)
  · rfl

/-! ## The whole text -/

theorem parse_eq_ok_iff {s : String} {c : Color} : parse s = .ok c ↔ ofDigits? (dropMark s.toList) = some c := by
  unfold parse ofChars
  cases ofDigits? (dropMark s.toList) with
  | none => simp
  | some d => simp

theorem parse_eq_ok_iff_map {s : String} {c : Color} :
    parse s = .ok c ↔ (dropMark s.toList).map Char.toLower = c.digits :=
  parse_eq_ok_iff.trans ofDigits?_eq_some_iff_map

theorem parse_of_none {s : String} (h : ofDigits? (dropMark s.toList) = none) :
    parse s = .error ⟨dropMark s.toList⟩ := by
  unfold parse ofChars
  rw [h]

theorem parse_eq_error_iff {s : String} {e : ColorError} :
    parse s = .error e ↔ e = ⟨dropMark s.toList⟩ ∧ ¬∃ c, parse s = .ok c := by
  cases h : ofDigits? (dropMark s.toList) with
  | none =>
    have herror := parse_of_none h
    simp only [herror, reduceCtorEq, exists_false, not_false_eq_true, and_true, Except.error.injEq]
    exact eq_comm
  | some c =>
    have hok := parse_eq_ok_iff.2 h
    exact iff_of_false (by rw [hok]; nofun) fun hnot => hnot.2 ⟨c, hok⟩

/-- A color is read from each way to write its digits, with a mark and without. -/
theorem parse_of_map {u : List Char} {c : Color} (hu : u.map Char.toLower = c.digits) :
    parse (String.ofList u) = .ok c ∧ parse ("0x" ++ String.ofList u) = .ok c := by
  constructor
  · have hdrop := dropMark_of_digits (exists_ofDigits?_iff.1 ⟨c, ofDigits?_eq_some_iff_map.2 hu⟩).2
    rwa [parse_eq_ok_iff_map, String.toList_ofList, hdrop]
  · have hmark : ("0x" ++ String.ofList u).toList = '0' :: 'x' :: u := by
      rw [String.toList_append, show (String.ofList u).toList = u from String.toList_ofList]
      rfl
    rw [parse_eq_ok_iff_map, hmark]
    exact hu

/-! ## Reading from the bytes of a text -/

/-- Reads the channel that is written from a byte on. -/
def readPart? (t : String) (i : Nat) : ExceptT ColorError Option UInt8 :=
  (between? t i (i + 2)).map fun part =>
    match readNumeral 16 0x100 part.toList with
    | .error _ => .error ⟨t.toList⟩
    | .ok n => .ok (UInt8.ofNat n)

/-- Reads a color from the bytes of a text; there is nothing if a cut falls inside a character. -/
def parseBytes? (s : String) : ExceptT ColorError Option Color := do
  let t := String.ofList (dropMark s.toList)
  if t.utf8ByteSize ≠ 6 ∨ ∃ x ∈ t.toList, ¬IsHexDigit x then throw ⟨t.toList⟩
  return ⟨← readPart? t 0, ← readPart? t 2, ← readPart? t 4⟩

theorem readPart?_of_digits {a c : List Char} {x y : Char} {b : UInt8}
    (h : ∀ z ∈ a ++ [x, y] ++ c, IsHexDigit z) (hx : IsDigit 16 x (b.toNat / 16)) (hy : IsDigit 16 y (b.toNat % 16)) :
    readPart? (String.ofList (a ++ [x, y] ++ c)) a.length = some (.ok b) := by
  have hnumeral : IsNumeral 16 [x, y] b.toNat := by
    refine ⟨[], [x, y], _, rfl, Or.inl rfl, List.cons_ne_nil _ _, .cons hx (.cons hy .nil), ?_⟩
    exact (Nat.mod_add_div b.toNat 16).symm
  unfold readPart?
  rw [show 2 = [x, y].length from rfl, between?_of_digits h, Option.map_some, String.toList_ofList,
    (readNumeral_eq_ok_iff (by decide) (by decide)).2 ⟨hnumeral, b.toNat_lt⟩]
  simp only [UInt8.ofNat_toNat]

/-- **Reading from bytes never cuts inside a character**, and it reads what is read from characters. -/
theorem parseBytes?_eq (s : String) : parseBytes? s = some (parse s) := by
  unfold parseBytes? parse ofChars
  generalize dropMark s.toList = t
  simp only [String.toList_ofList]
  by_cases h : t.length = 6 ∧ ∀ x ∈ t, IsHexDigit x
  · obtain ⟨c, hc⟩ := exists_ofDigits?_iff.2 h
    rw [hc, if_neg (not_or.2 ⟨not_not.2 ((utf8ByteSize_of_digits h.2).trans h.1), by simpa using h.2⟩)]
    match t, h.2, ofDigits?_eq_some_iff.1 hc with
    | [r, r', g, g', b, b'], hdigits, .cons hr (.cons hr' (.cons hg (.cons hg' (.cons hb (.cons hb' .nil))))) =>
      let stored := String.ofList [r, r', g, g', b, b']
      have hred : readPart? stored 0 = pure c.red :=
        readPart?_of_digits (a := []) (c := [g, g', b, b']) hdigits hr hr'
      have hgreen : readPart? stored 2 = pure c.green :=
        readPart?_of_digits (a := [r, r']) (c := [b, b']) hdigits hg hg'
      have hblue : readPart? stored 4 = pure c.blue :=
        readPart?_of_digits (a := [r, r', g, g']) (c := []) hdigits hb hb'
      rw [hred, hgreen, hblue]
      rfl
  · have hnone : ofDigits? t = none :=
      Option.eq_none_iff_forall_ne_some.2 fun c hc => h (exists_ofDigits?_iff.1 ⟨c, hc⟩)
    have hstops : (String.ofList t).utf8ByteSize ≠ 6 ∨ ∃ x ∈ t, ¬IsHexDigit x := by
      by_contra hnot
      push Not at hnot
      exact h ⟨(utf8ByteSize_of_digits hnot.2).symm.trans hnot.1, hnot.2⟩
    rw [hnone, if_pos hstops]
    rfl

/-! ## The texts of a color -/

/-- **The texts of a color.**  A text is read as a color exactly if, without one `0x` that it may begin with, it is six
hexadecimal digits; these are then the digits of the color's channels.  Any other text is refused, and the message shows
it without that `0x`.  So every color is read from each way to write its digits, with `0x` and without, and two texts
are read as the same color exactly if both are read and differ in nothing but letter case and `0x`.  Reading from the
bytes of the text comes to the same, and never cuts inside a character. -/
theorem color_of_text (s : String) (c : Color) :
    let t := dropMark s.toList
    ((∃ d, parse s = .ok d) ↔ t.length = 6 ∧ ∀ x ∈ t, IsHexDigit x) ∧
    (parse s = .ok c ↔ AreDigits 16 t [c.red.toNat / 16, c.red.toNat % 16, c.green.toNat / 16, c.green.toNat % 16,
      c.blue.toNat / 16, c.blue.toNat % 16]) ∧
    (∀ error, parse s = .error error ↔ error = ⟨t⟩ ∧ ¬(t.length = 6 ∧ ∀ x ∈ t, IsHexDigit x)) ∧
    (∀ error, parse s = .error error → error.message = "failed to parse hex color: " ++ String.ofList t) ∧
    parseBytes? s = some (parse s) ∧
    (∀ u : List Char, u.map Char.toLower = c.digits →
      parse (String.ofList u) = .ok c ∧ parse ("0x" ++ String.ofList u) = .ok c) ∧
    ∀ s', (∃ d, parse s = .ok d ∧ parse s' = .ok d) ↔
      (∃ d, parse s = .ok d) ∧ (∃ d, parse s' = .ok d) ∧
        t.map Char.toLower = (dropMark s'.toList).map Char.toLower := by
  intro t
  have haccepts : (∃ d, parse s = .ok d) ↔ t.length = 6 ∧ ∀ x ∈ t, IsHexDigit x := by
    simp only [parse_eq_ok_iff]
    exact exists_ofDigits?_iff
  refine ⟨haccepts, parse_eq_ok_iff.trans ofDigits?_eq_some_iff, fun error => ?_, fun error herror => ?_,
    parseBytes?_eq s, fun u => parse_of_map, fun s' => ⟨?_, ?_⟩⟩
  · rw [← haccepts]
    exact parse_eq_error_iff
  · rw [(parse_eq_error_iff.1 herror).1]
    rfl
  · rintro ⟨d, h, h'⟩
    exact ⟨⟨d, h⟩, ⟨d, h'⟩, (parse_eq_ok_iff_map.1 h).trans (parse_eq_ok_iff_map.1 h').symm⟩
  · rintro ⟨⟨d, h⟩, -, hsame⟩
    exact ⟨d, h, parse_eq_ok_iff_map.2 (hsame.symm.trans (parse_eq_ok_iff_map.1 h))⟩

end Color

end Chip8
