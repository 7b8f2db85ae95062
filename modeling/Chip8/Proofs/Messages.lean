import Mathlib
import Chip8.CommandLine.Report
import Chip8.Proofs.Assembly
/-!
# Messages — what is written says what happened

Faults, events, notices and the errors of readers are shown as texts.  No two of them are shown alike: a text begins
with words that say which kind it is, and behind them the numbers are told from the words around them, since a decimal
number ends with its digits and a hexadecimal one has its width.  Where a text can hold any characters, it is quoted
(`quoted_injective`), or stands where the rest is read from its other end.

The notices of a run stand one behind the other.  Each begins with a bracket and sets its further lines in, so its end
is seen, and the whole list can be read back (`Report.noticeText_injective`).
-/
namespace Chip8

namespace Text

/-! ## Numbers in a text -/

theorem IsCut.unique {sep : Char} {s a b a' b' : List Char} (h : IsCut sep s a b) (h' : IsCut sep s a' b') :
    a = a' ∧ b = b' := by
  have hcut := (splitFirst?_of_isCut h).symm.trans (splitFirst?_of_isCut h')
  exact Prod.mk.inj (Option.some.inj hcut)

/-- What stands before the first `sep` and behind it. -/
theorem append_cons_inj {sep : Char} {a b a' b' : List Char} (ha : sep ∉ a) (ha' : sep ∉ a')
    (h : a ++ sep :: b = a' ++ sep :: b') : a = a' ∧ b = b' :=
  IsCut.unique ⟨rfl, ha⟩ ⟨h, ha'⟩

/-- The same for the last `sep`. -/
theorem append_cons_inj_last {sep : Char} {a b a' b' : List Char} (hb : sep ∉ b) (hb' : sep ∉ b')
    (h : a ++ sep :: b = a' ++ sep :: b') : a = a' ∧ b = b' := by
  have hreversed : b.reverse ++ sep :: a.reverse = b'.reverse ++ sep :: a'.reverse := by
    simpa using congrArg List.reverse h
  obtain ⟨hb, ha⟩ := append_cons_inj (by simpa using hb) (by simpa using hb') hreversed
  exact ⟨List.reverse_inj.1 ha, List.reverse_inj.1 hb⟩

theorem toList_decimal (n : Nat) : (toString n).toList = Nat.toDigits 10 n :=
  String.toList_ofList

theorem toDigits_inj {n k : Nat} : Nat.toDigits 10 n = Nat.toDigits 10 k ↔ n = k := by
  refine ⟨fun h => Nat.repr_injective (String.toList_inj.1 ?_), fun h => by rw [h]⟩
  rwa [Nat.toList_repr, Nat.toList_repr]

theorem isDigit_of_mem_toDigits {n : Nat} {c : Char} (h : c ∈ Nat.toDigits 10 n) : c.isDigit = true :=
  Nat.isDigit_of_mem_toDigits (by decide) (by decide) h

theorem not_mem_toDigits {c : Char} (hc : c.isDigit = false) (n : Nat) : c ∉ Nat.toDigits 10 n :=
  fun h => Bool.false_ne_true (hc.symm.trans (isDigit_of_mem_toDigits h))

theorem hex_inj {width n k : Nat} : hex width n = hex width k ↔ n = k := by
  rw [← String.toList_inj, toList_hex, toList_hex, hexDigits_inj]

theorem not_mem_hexDigits {c : Char} (hplus : c ≠ '+') (hc : digitValue? 16 c = none) (width n : Nat) :
    c ∉ hexDigits width n :=
  not_mem_of_isNumeral (by decide) (isNumeral_hexDigits width n) hplus hc

theorem decimal_between_inj {s t : String} {n k : Nat} (h : s ++ toString n ++ t = s ++ toString k ++ t) : n = k :=
  Nat.repr_injective ((String.append_right_inj s).1 ((String.append_left_inj t).1 h))

theorem hex_between_inj {s t : String} {w w' : UInt16} (h : s ++ hex 4 w.toNat ++ t = s ++ hex 4 w'.toNat ++ t) :
    w = w' :=
  UInt16.toNat_inj.1 (hex_inj.1 ((String.append_right_inj s).1 ((String.append_left_inj t).1 h)))

/-! ## How a text begins -/

theorem begins_append {w : List Char} {s t : String} (h : w <+: s.toList) : w <+: (s ++ t).toList := by
  rw [String.toList_append]
  exact h.trans (List.prefix_append _ _)

/-- What a text begins with is part of what it begins with further, or the other way round. -/
theorem begins_or_begins {w w' : List Char} {s s' : String} (h : w <+: s.toList) (h' : w' <+: s'.toList)
    (heq : s = s') : w <+: w' ∨ w' <+: w :=
  List.prefix_or_prefix_of_prefix h (heq ▸ h')

end Text

open Text

/-! ## Faults and events -/

namespace Fault

/-- The letters that a fault's text begins with. -/
def opening : Fault → List Char
  | programTooBig _ => ['p']
  | outOfBounds _ => ['m', 'e']
  | notRecognized _ => ['i']
  | machineRoutine _ => ['m', 'a']
  | stackOverflow => ['s', 't', 'a', 'c', 'k', ' ', 'o']
  | stackUnderflow => ['s', 't', 'a', 'c', 'k', ' ', 'u']

theorem message_begins (f : Fault) : f.opening <+: f.message.toList := by
  cases f with
  | programTooBig size => exact begins_append (begins_append (show ['p'] <+: "program of ".toList by decide))
  | outOfBounds address =>
    exact begins_append (show ['m', 'e'] <+: "memory accessed out of bounds at 0x".toList by decide)
  | notRecognized word => exact begins_append (begins_append (show ['i'] <+: "instruction 0x".toList by decide))
  | machineRoutine word =>
    exact begins_append (begins_append (show ['m', 'a'] <+: "machine code routine 0x".toList by decide))
  | stackOverflow => decide
  | stackUnderflow => decide

/-- **No two faults have the same text.** -/
theorem message_injective : Function.Injective message := by
  intro f f' h
  have hopening := begins_or_begins f.message_begins f'.message_begins h
  cases f with
  | programTooBig size =>
    cases f' with
    | programTooBig size' => rw [decimal_between_inj h]
    | _ => simp [opening] at hopening
  | outOfBounds address =>
    cases f' with
    | outOfBounds address' => rw [hex_inj.1 ((String.append_right_inj _).1 h)]
    | _ => simp [opening] at hopening
  | notRecognized word =>
    cases f' with
    | notRecognized word' => rw [hex_between_inj h]
    | _ => simp [opening] at hopening
  | machineRoutine word =>
    cases f' with
    | machineRoutine word' => rw [hex_between_inj h]
    | _ => simp [opening] at hopening
  | stackOverflow =>
    cases f' with
    | stackOverflow => rfl
    | _ => simp [opening] at hopening
  | stackUnderflow =>
    cases f' with
    | stackUnderflow => rfl
    | _ => simp [opening] at hopening

end Fault

namespace Event

def opening : Event → List Char
  | reset => ['M']
  | loaded _ => ['L']
  | executing _ _ _ => ['0']
  | halted _ _ => ['H']

theorem message_begins (e : Event) : e.opening <+: e.message.toList := by
  cases e with
  | reset => decide
  | loaded size => exact begins_append (begins_append (show ['L'] <+: "Loaded ".toList by decide))
  | executing pc word i =>
    rw [toList_message]
    exact List.prefix_append ['0'] _
  | halted pc fault =>
    exact begins_append (begins_append (begins_append (show ['H'] <+: "Halted at 0x".toList by decide)))

theorem toList_halted (pc : UInt16) (fault : Fault) :
    (halted pc fault).message.toList =
      "Halted at 0x".toList ++ (hexDigits 4 pc.toNat ++ (": ".toList ++ fault.message.toList)) := by
  show ("Halted at 0x" ++ hex 4 pc.toNat ++ ": " ++ fault.message).toList = _
  simp only [String.toList_append, toList_hex, List.append_assoc]

/-- **No two events have the same text.** -/
theorem message_injective : Function.Injective message := by
  intro e e' h
  have hopening := begins_or_begins e.message_begins e'.message_begins h
  cases e with
  | reset =>
    cases e' with
    | reset => rfl
    | _ => simp [opening] at hopening
  | loaded size =>
    cases e' with
    | loaded size' => rw [decimal_between_inj h]
    | _ => simp [opening] at hopening
  | executing pc word i =>
    cases e' with
    | executing pc' word' i' =>
      obtain ⟨rfl, rfl, rfl⟩ := message_inj h
      rfl
    | _ => simp [opening] at hopening
  | halted pc fault =>
    cases e' with
    | halted pc' fault' =>
      have hlength (w : UInt16) : (hexDigits 4 w.toNat).length = 4 := length_hexDigits (by decide) w.toNat_lt
      have hlist := congrArg String.toList h
      rw [toList_halted, toList_halted] at hlist
      obtain ⟨hpc, hlist⟩ := List.append_inj (List.append_cancel_left hlist) ((hlength pc).trans (hlength pc').symm)
      rw [UInt16.toNat_inj.1 (hexDigits_inj.1 hpc),
        Fault.message_injective (String.toList_inj.1 (List.append_cancel_left hlist))]
    | _ => simp [opening] at hopening

end Event

/-! ## Errors of readers -/

namespace Text

theorem NumeralError.message_injective : Function.Injective NumeralError.message := by
  intro e e'
  cases e <;> cases e' <;> decide

/-- Reads what a backslash stands before. -/
def unescapeMarked? : List Char → Option (Char × List Char)
  | '"' :: s => some ('"', s)
  | '\\' :: s => some ('\\', s)
  | 't' :: s => some ('\t', s)
  | 'r' :: s => some ('\r', s)
  | 'n' :: s => some ('\n', s)
  | '0' :: s => some ('\x00', s)
  | 'u' :: '\x7b' :: s => do
    let (digits, rest) ← splitFirst? '\x7d' s
    return (Char.ofNat (← hexValue? 0x110000 digits), rest)
  | _ => none

/-- Reads one character of a quoted text, and gives what follows it. -/
def unescape? : List Char → Option (Char × List Char)
  | '\\' :: s => unescapeMarked? s
  | c :: s => some (c, s)
  | [] => none

theorem unescape?_escape (c : Char) (s : List Char) : unescape? (escape c ++ s) = some (c, s) := by
  unfold escape
  split
  case h_7 hquote hslash _ _ _ _ =>
    split
    · have hcut : IsCut '\x7d' (hexDigits 1 c.toNat ++ '\x7d' :: s) (hexDigits 1 c.toNat) s :=
        ⟨rfl, not_mem_hexDigits (by decide) (by decide) 1 _⟩
      have hvalue : hexValue? 0x110000 (hexDigits 1 c.toNat) = some c.toNat := by
        refine hexValue?_hexDigits ?_ 1
        rcases c.valid with h | h
        · exact Nat.lt_trans h (by decide)
        · exact h.2
      have hlist : ['\\', 'u', '\x7b'] ++ hexDigits 1 c.toNat ++ ['\x7d'] ++ s =
          '\\' :: 'u' :: '\x7b' :: (hexDigits 1 c.toNat ++ '\x7d' :: s) := by simp
      rw [hlist, unescape?, unescapeMarked?, splitFirst?_of_isCut hcut]
      simp only [Option.bind_eq_bind, Option.bind_some, hvalue, Char.ofNat_toNat]
      rfl
    · rw [List.singleton_append, unescape?]
      exact hslash
  all_goals rfl

theorem flatMap_escape_injective : Function.Injective fun s : List Char => s.flatMap escape := by
  intro s s' h
  have hread := congrArg unescape? h
  induction s generalizing s' with
  | nil =>
    cases s' with
    | nil => rfl
    | cons c' s' =>
      simp only [List.flatMap_cons, unescape?_escape] at hread
      exact nomatch hread
  | cons c s ih =>
    cases s' with
    | nil =>
      simp only [List.flatMap_cons, unescape?_escape] at hread
      exact nomatch hread
    | cons c' s' =>
      simp only [List.flatMap_cons, unescape?_escape, Option.some.injEq, Prod.mk.injEq] at hread
      rw [hread.1, ih hread.2 (congrArg unescape? hread.2)]

/-- **A quoted text can be read back.** -/
theorem quoted_injective : Function.Injective quoted := by
  intro s s' h
  have hlist := congrArg String.toList h
  rw [quoted, quoted, String.toList_ofList, String.toList_ofList] at hlist
  exact flatMap_escape_injective (List.append_cancel_right (List.cons.inj hlist).2)

end Text

namespace KeyPressError

def opening : KeyPressError → List Char
  | noSeparator _ => ['e']
  | invalidKey _ _ => ['i', 'n', 'v', 'a', 'l', 'i', 'd', ' ', 'k']
  | notOnKeypad _ => ['k', 'e', 'y', ' ', '0']
  | invalidStep .empty => ['c']
  | invalidStep .invalidDigit => ['i', 'n', 'v', 'a', 'l', 'i', 'd', ' ', 'd']
  | invalidStep .tooLarge => ['n']
  | releaseNotAfter _ _ => ['k', 'e', 'y', ' ', 'r']

theorem message_begins (e : KeyPressError) : e.opening <+: e.message.toList := by
  cases e with
  | noSeparator text => exact begins_append (show ['e'] <+: "expected KEY@STEP[-STEP], got ".toList by decide)
  | invalidKey text cause =>
    exact begins_append (show ['i', 'n', 'v', 'a', 'l', 'i', 'd', ' ', 'k'] <+: "invalid key ".toList by decide)
  | notOnKeypad key =>
    exact begins_append (begins_append (show ['k', 'e', 'y', ' ', '0'] <+: "key 0x".toList by decide))
  | invalidStep cause => cases cause <;> decide
  | releaseNotAfter start stop =>
    exact begins_append (begins_append (begins_append
      (show ['k', 'e', 'y', ' ', 'r'] <+: "key release at step ".toList by decide)))

theorem toList_releaseNotAfter (start stop : UInt64) :
    (releaseNotAfter start stop).message.toList = "key release at step ".toList ++ (Nat.toDigits 10 stop.toNat ++
      (' ' :: ("is not after press at ".toList ++ Nat.toDigits 10 start.toNat))) := by
  show ("key release at step " ++ toString stop.toNat ++ " is not after press at " ++ toString start.toNat).toList = _
  simp only [String.toList_append, toList_decimal, List.append_assoc]
  rfl

/-- **No two errors are shown alike**, with what led to them. -/
theorem shown_injective : Function.Injective fun e : KeyPressError => (e.message, e.cause?) := by
  intro e e' h
  obtain ⟨hmessage, hcause⟩ := Prod.mk.inj h
  have hopening := begins_or_begins e.message_begins e'.message_begins hmessage
  cases e with
  | noSeparator text =>
    cases e' with
    | noSeparator text' => rw [quoted_injective ((String.append_right_inj _).1 hmessage)]
    | invalidStep cause' => cases cause' <;> simp [opening] at hopening
    | _ => simp [opening] at hopening
  | invalidKey text cause =>
    cases e' with
    | invalidKey text' cause' =>
      rw [quoted_injective ((String.append_right_inj _).1 hmessage),
        NumeralError.message_injective (Option.some.inj hcause)]
    | invalidStep cause' => cases cause' <;> simp [opening] at hopening
    | _ => simp [opening] at hopening
  | notOnKeypad key =>
    cases e' with
    | notOnKeypad key' =>
      rw [hex_inj.1 ((String.append_right_inj _).1 ((String.append_left_inj _).1 hmessage))]
    | invalidStep cause' => cases cause' <;> simp [opening] at hopening
    | _ => simp [opening] at hopening
  | invalidStep cause =>
    cases e' with
    | invalidStep cause' => rw [NumeralError.message_injective hmessage]
    | _ => cases cause <;> simp [opening] at hopening
  | releaseNotAfter start stop =>
    cases e' with
    | releaseNotAfter start' stop' =>
      have hlist := congrArg String.toList hmessage
      rw [toList_releaseNotAfter, toList_releaseNotAfter] at hlist
      obtain ⟨hstop, hlist⟩ := append_cons_inj (not_mem_toDigits (by decide) _) (not_mem_toDigits (by decide) _)
        (List.append_cancel_left hlist)
      rw [UInt64.toNat_inj.1 (toDigits_inj.1 hstop),
        UInt64.toNat_inj.1 (toDigits_inj.1 (List.append_cancel_left hlist))]
    | invalidStep cause' => cases cause' <;> simp [opening] at hopening
    | _ => simp [opening] at hopening

end KeyPressError

/-! ## Notices -/

theorem Dialect.summary_injective : Function.Injective summary := by
  rintro ⟨shift, transfer⟩ ⟨shift', transfer'⟩
  cases shift <;> cases transfer <;> cases shift' <;> cases transfer' <;> decide

theorem Dialect.length_summary (d : Dialect) : d.summary.toList.length = 40 := by
  obtain ⟨shift, transfer⟩ := d
  cases shift <;> cases transfer <;> decide

namespace Notice

theorem toList_key (k : Fin keyCount) (down : Bool) (step : Nat) :
    (key k down step).message.toList = "Key 0x".toList ++ (hexDigits 1 k.val ++ (' ' ::
      ((if down then "down" else "up").toList ++ (' ' :: ("at step ".toList ++ Nat.toDigits 10 step))))) := by
  show ("Key 0x" ++ hex 1 k.val ++ " " ++ (if down then "down" else "up") ++ " at step " ++ toString step).toList = _
  simp only [String.toList_append, toList_hex, toList_decimal, List.append_assoc]
  rfl

theorem toList_loaded (path : String) (size : Nat) (d : Dialect) :
    (loaded path size d).message.toList = "Loaded ".toList ++ (path.toList ++ (' ' :: '(' ::
      (Nat.toDigits 10 size ++ (" bytes), ".toList ++ d.summary.toList)))) := by
  show ("Loaded " ++ path ++ " (" ++ toString size ++ " bytes), " ++ d.summary).toList = _
  simp only [String.toList_append, toList_decimal, List.append_assoc]
  rfl

theorem toList_running (steps rate : Nat) :
    (running steps rate).message.toList = "Running ".toList ++ (Nat.toDigits 10 steps ++ (' ' ::
      ("steps at ".toList ++ (Nat.toDigits 10 rate ++ " instructions per second".toList)))) := by
  show ("Running " ++ toString steps ++ " steps at " ++ toString rate ++ " instructions per second").toList = _
  simp only [String.toList_append, toList_decimal, List.append_assoc]
  rfl

theorem toList_sound (playing : Bool) (step : Nat) :
    (sound playing step).message.toList = "Sound ".toList ++
      ((if playing then "on" else "off").toList ++ (' ' :: ("at step ".toList ++ Nat.toDigits 10 step))) := by
  show ("Sound " ++ (if playing then "on" else "off") ++ " at step " ++ toString step).toList = _
  simp only [String.toList_append, toList_decimal, List.append_assoc]
  rfl

theorem toList_updates (count : Nat) :
    (updates count).message.toList = Nat.toDigits 10 count ++ " screen updates".toList := by
  show (toString count ++ " screen updates").toList = _
  rw [String.toList_append, toList_decimal]

/-! ### Texts and their kinds -/

/-- The letter that the text of a notice begins with, if it always begins with the same. -/
def opening : Notice → List Char
  | loaded _ _ _ => ['L']
  | running _ _ => ['R']
  | sound _ _ => ['S']
  | snapshot _ => ['W']
  | _ => []

theorem message_begins (n : Notice) : n.opening <+: n.message.toList := by
  cases n with
  | loaded path size d => exact toList_loaded path size d ▸ List.prefix_append ['L'] _
  | running steps rate => exact toList_running steps rate ▸ List.prefix_append ['R'] _
  | sound playing step => exact toList_sound playing step ▸ List.prefix_append ['S'] _
  | snapshot path => exact begins_append (show ['W'] <+: "Wrote snapshot to ".toList by decide)
  | _ => exact List.nil_prefix

theorem exists_digit (count : Nat) : ∃ c rest, (updates count).message.toList = c :: rest ∧ c.isDigit = true := by
  obtain ⟨c, rest, h⟩ := List.exists_cons_of_ne_nil (show Nat.toDigits 10 count ≠ [] from Nat.toDigits_ne_nil)
  refine ⟨c, rest ++ " screen updates".toList, ?_, isDigit_of_mem_toDigits (h ▸ List.mem_cons_self)⟩
  rw [toList_updates, h]
  rfl

/-- A letter is no digit, so the number of updates is not taken for another notice. -/
theorem message_ne_updates {n : Notice} (hopening : n.opening ≠ []) (count : Nat) :
    n.message ≠ (updates count).message := by
  intro h
  obtain ⟨c, rest, hcount, hdigit⟩ := exists_digit count
  have hbegins := n.message_begins
  rw [h, hcount] at hbegins
  cases n with
  | machine _ | key _ _ _ | updates _ => exact hopening rfl
  | _ =>
    obtain ⟨rfl, -⟩ := List.cons_prefix_cons.1 hbegins
    exact absurd hdigit (by decide)

theorem key_inj {k k' : Fin keyCount} {down down' : Bool} {step step' : Nat}
    (h : (key k down step).message = (key k' down' step').message) : key k down step = key k' down' step' := by
  have hhex (n : Nat) : ' ' ∉ hexDigits 1 n := not_mem_hexDigits (by decide) (by decide) 1 n
  have hword (b : Bool) : ' ' ∉ (if b then "down" else "up").toList := by cases b <;> decide
  have hlist := congrArg String.toList h
  rw [toList_key, toList_key] at hlist
  obtain ⟨hk, hlist⟩ := append_cons_inj (hhex _) (hhex _) (List.append_cancel_left hlist)
  obtain ⟨hdown, hlist⟩ := append_cons_inj (hword _) (hword _) hlist
  have hsame : down = down' := by
    revert hdown
    cases down <;> cases down' <;> decide
  rw [Fin.ext (hexDigits_inj.1 hk), hsame, toDigits_inj.1 (List.append_cancel_left hlist)]

theorem loaded_inj {path path' : String} {size size' : Nat} {d d' : Dialect}
    (h : (loaded path size d).message = (loaded path' size' d').message) :
    loaded path size d = loaded path' size' d' := by
  have hlist := congrArg String.toList h
  rw [toList_loaded, toList_loaded] at hlist
  -- what follows the size has always the same length, and behind the last bracket there are only digits
  have hassoc (p : List Char) (n : Nat) (t : List Char) :
      p ++ (' ' :: '(' :: (Nat.toDigits 10 n ++ t)) = ((p ++ [' ']) ++ '(' :: Nat.toDigits 10 n) ++ t := by simp
  rw [hassoc, hassoc] at hlist
  obtain ⟨hlist, htail⟩ := List.append_inj' (List.append_cancel_left hlist)
    (by rw [List.length_append, List.length_append, Dialect.length_summary, Dialect.length_summary])
  obtain ⟨hpath, hsize⟩ :=
    append_cons_inj_last (not_mem_toDigits (by decide) _) (not_mem_toDigits (by decide) _) hlist
  rw [String.toList_inj.1 (List.append_cancel_right hpath), toDigits_inj.1 hsize,
    Dialect.summary_injective (String.toList_inj.1 (List.append_cancel_left htail))]

theorem running_inj {steps steps' rate rate' : Nat}
    (h : (running steps rate).message = (running steps' rate').message) :
    running steps rate = running steps' rate' := by
  have hlist := congrArg String.toList h
  rw [toList_running, toList_running] at hlist
  obtain ⟨hsteps, hlist⟩ := append_cons_inj (not_mem_toDigits (by decide) _) (not_mem_toDigits (by decide) _)
    (List.append_cancel_left hlist)
  rw [toDigits_inj.1 hsteps, toDigits_inj.1 (List.append_cancel_right (List.append_cancel_left hlist))]

theorem sound_inj {playing playing' : Bool} {step step' : Nat}
    (h : (sound playing step).message = (sound playing' step').message) :
    sound playing step = sound playing' step' := by
  have hword (b : Bool) : ' ' ∉ (if b then "on" else "off").toList := by cases b <;> decide
  have hlist := congrArg String.toList h
  rw [toList_sound, toList_sound] at hlist
  obtain ⟨hplaying, hlist⟩ := append_cons_inj (hword _) (hword _) (List.append_cancel_left hlist)
  have hsame : playing = playing' := by
    revert hplaying
    cases playing <;> cases playing' <;> decide
  rw [hsame, toDigits_inj.1 (List.append_cancel_left hlist)]

/-- **Source and text say which notice it is.** -/
theorem eq_of_message {n n' : Notice} (hsource : n.source = n'.source) (h : n.message = n'.message) : n = n' := by
  have hopening := begins_or_begins n.message_begins n'.message_begins h
  cases n with
  | machine e =>
    cases n' with
    | machine e' => rw [Event.message_injective h]
    | _ => simp [source] at hsource
  | key k down step =>
    cases n' with
    | key k' down' step' => exact key_inj h
    | _ => simp [source] at hsource
  | loaded path size d =>
    cases n' with
    | loaded path' size' d' => exact loaded_inj h
    | machine _ | key _ _ _ => simp [source] at hsource
    | updates count => exact absurd h (message_ne_updates (by simp [opening]) count)
    | _ => simp [opening] at hopening
  | running steps rate =>
    cases n' with
    | running steps' rate' => exact running_inj h
    | machine _ | key _ _ _ => simp [source] at hsource
    | updates count => exact absurd h (message_ne_updates (by simp [opening]) count)
    | _ => simp [opening] at hopening
  | sound playing step =>
    cases n' with
    | sound playing' step' => exact sound_inj h
    | machine _ | key _ _ _ => simp [source] at hsource
    | updates count => exact absurd h (message_ne_updates (by simp [opening]) count)
    | _ => simp [opening] at hopening
  | updates count =>
    cases n' with
    | updates count' => rw [Nat.repr_injective ((String.append_left_inj _).1 h)]
    | machine _ | key _ _ _ => simp [source] at hsource
    | _ => exact absurd h.symm (message_ne_updates (by simp [opening]) count)
  | snapshot path =>
    cases n' with
    | snapshot path' => rw [show path = path' from (String.append_right_inj _).1 h]
    | machine _ | key _ _ _ => simp [source] at hsource
    | updates count => exact absurd h (message_ne_updates (by simp [opening]) count)
    | _ => simp [opening] at hopening

/-! ### Lines -/

/-- What stands in a notice's line before its text. -/
def head (n : Notice) : List Char :=
  '[' :: (n.level.name.toList.rightpad 5 ' ' ++ ' ' :: (n.source.toList ++ [']', ' ']))

theorem toList_line (n : Notice) : n.line.toList = n.head ++ n.message.toList.flatMap indent := by
  unfold line head
  simp only [String.toList_append, String.toList_ofList, List.append_assoc, List.cons_append, List.nil_append]
  rfl

theorem source_cases (n : Notice) :
    n.source = "chip_8_core::chip8" ∨ n.source = "chip_8_frontend::input" ∨ n.source = "chip_8_frontend" := by
  cases n <;> simp [source]

theorem not_mem_source (n : Notice) : ']' ∉ n.source.toList ∧ '\n' ∉ n.source.toList := by
  rcases n.source_cases with h | h | h <;> rw [h] <;> decide

theorem head_of_run {n : Notice} (hlevel : n.level = .info) (hsource : n.source = "chip_8_frontend") :
    n.head = "[INFO  chip_8_frontend] ".toList := by
  rw [head, hlevel, hsource]
  decide

theorem head_append_inj {n n' : Notice} {s s' : List Char} (h : n.head ++ s = n'.head ++ s') :
    n.source = n'.source ∧ s = s' := by
  have hlength (l : Level) : (l.name.toList.rightpad 5 ' ').length = 5 := by cases l <;> decide
  simp only [head, List.cons_append, List.append_assoc, List.nil_append, List.cons.injEq, true_and] at h
  obtain ⟨-, h⟩ := List.append_inj h ((hlength _).trans (hlength _).symm)
  obtain ⟨hsource, h⟩ := append_cons_inj n.not_mem_source.1 n'.not_mem_source.1 (List.cons.inj h).2
  exact ⟨String.toList_inj.1 hsource, (List.cons.inj h).2⟩

/-- Reads a text whose further lines are set in, and gives what follows it. -/
def unindent : List Char → List Char × List Char
  | [] => ([], [])
  | '\n' :: ' ' :: ' ' :: ' ' :: ' ' :: s => ('\n' :: (unindent s).1, (unindent s).2)
  | c :: s => if c = '\n' then ([], s) else (c :: (unindent s).1, (unindent s).2)

/-- **A text ends where a line is not set in.** -/
theorem unindent_indent {rest : List Char} (hrest : rest.head? ≠ some ' ') (m : List Char) :
    unindent (m.flatMap indent ++ '\n' :: rest) = (m, rest) := by
  induction m with
  | nil =>
    rw [List.flatMap_nil, List.nil_append, unindent, if_pos rfl]
    rintro s - rfl
    exact hrest rfl
  | cons c m ih =>
    rw [List.flatMap_cons, List.append_assoc]
    by_cases hc : c = '\n'
    · subst hc
      show ('\n' :: (unindent (m.flatMap indent ++ '\n' :: rest)).1, _) = _
      rw [ih]
      exact congrArg (fun r : List Char × List Char => ('\n' :: m, r.2)) ih
    · rw [show indent c = [c] from if_neg hc, List.singleton_append, unindent, if_neg hc, ih]
      exact fun _ hfeed _ => hc hfeed

end Notice

/-! ### The messages of a run -/

namespace Report

theorem toList_noticeText_cons (n : Notice) (notices : List Notice) :
    (noticeText (n :: notices)).toList =
      n.head ++ (n.message.toList.flatMap Notice.indent ++ '\n' :: (noticeText notices).toList) := by
  unfold noticeText
  rw [List.map_cons, String.join_cons, String.toList_append, String.toList_append, Notice.toList_line,
    List.append_assoc, List.append_assoc]
  rfl

theorem head?_noticeText (notices : List Notice) : (noticeText notices).toList.head? ≠ some ' ' := by
  cases notices with
  | nil => decide
  | cons n notices =>
    rw [toList_noticeText_cons]
    exact fun hhead => absurd (Option.some.inj hhead) (by decide)

theorem noticeText_cons_ne (n : Notice) (notices : List Notice) : noticeText (n :: notices) ≠ noticeText [] := by
  intro h
  have hlist := congrArg String.toList h
  rw [toList_noticeText_cons] at hlist
  exact nomatch hlist

/-- **The notices of a run can be read back from its messages.** -/
theorem noticeText_injective : Function.Injective noticeText := by
  intro notices notices' h
  induction notices generalizing notices' with
  | nil =>
    cases notices' with
    | nil => rfl
    | cons n' notices' => exact absurd h.symm (noticeText_cons_ne n' notices')
  | cons n notices ih =>
    cases notices' with
    | nil => exact absurd h (noticeText_cons_ne n notices)
    | cons n' notices' =>
      have hlist := congrArg String.toList h
      rw [toList_noticeText_cons, toList_noticeText_cons] at hlist
      obtain ⟨hsource, htext⟩ := Notice.head_append_inj hlist
      have hread := congrArg Notice.unindent htext
      rw [Notice.unindent_indent (head?_noticeText notices),
        Notice.unindent_indent (head?_noticeText notices')] at hread
      obtain ⟨hmessage, hrest⟩ := Prod.mk.inj hread
      rw [Notice.eq_of_message hsource (String.toList_inj.1 hmessage), ih (String.toList_inj.1 hrest)]

end Report

/-! ## Lines

The messages of a run as lines, and which of them tell of the tone or of the screen. -/

namespace Notice

/-- The tone that a notice tells of, and the step. -/
def sound? : Notice → Option (Bool × Nat)
  | sound playing step => some (playing, step)
  | _ => none

/-- The number of updates that a notice tells. -/
def updates? : Notice → Option Nat
  | updates count => some count
  | _ => none

/-- The lines of a text behind what stands before the first of them. -/
def linesFrom (before : List Char) : List Char → List (List Char)
  | [] => [before]
  | c :: m => if c = '\n' then before :: linesFrom [' ', ' ', ' ', ' '] m else linesFrom (before ++ [c]) m

def lines (n : Notice) : List String :=
  (linesFrom n.head n.message.toList).map String.ofList

theorem flatMap_linesFrom (before m : List Char) :
    (linesFrom before m).flatMap (· ++ ['\n']) = before ++ (m.flatMap indent ++ ['\n']) := by
  induction m generalizing before with
  | nil => exact List.flatMap_singleton ..
  | cons c m ih =>
    rw [linesFrom, List.flatMap_cons, List.append_assoc]
    by_cases hc : c = '\n'
    · rw [if_pos hc, List.flatMap_cons, ih, hc, List.append_assoc]
      rfl
    · rw [if_neg hc, ih, show indent c = [c] from if_neg hc, List.append_assoc]

theorem join_lines (n : Notice) : String.join (n.lines.map (· ++ "\n")) = n.line ++ "\n" := by
  have hline (l : List Char) : (String.ofList l ++ "\n").toList = l ++ ['\n'] := by
    rw [String.toList_append, String.toList_ofList]
    rfl
  rw [← String.toList_inj, String.toList_join, lines, List.map_map, List.flatMap_map, String.toList_append, toList_line,
    List.append_assoc]
  simp only [Function.comp_apply, hline]
  exact flatMap_linesFrom _ _

theorem not_mem_linesFrom {before : List Char} (h : '\n' ∉ before) (m : List Char) :
    ∀ l ∈ linesFrom before m, '\n' ∉ l := by
  induction m generalizing before with
  | nil => exact List.forall_mem_singleton.2 h
  | cons c m ih =>
    rw [linesFrom]
    by_cases hc : c = '\n'
    · rw [if_pos hc]
      exact List.forall_mem_cons.2 ⟨h, ih (by decide)⟩
    · rw [if_neg hc]
      refine ih fun hmem => ?_
      rcases List.mem_append.1 hmem with hbefore | hlast
      · exact h hbefore
      · exact hc (List.mem_singleton.1 hlast).symm

theorem not_mem_head (n : Notice) : '\n' ∉ n.head := by
  have hlevel : '\n' ∉ n.level.name.toList.rightpad 5 ' ' := by cases n.level <;> decide
  simp only [head, List.mem_cons, List.mem_append, hlevel, n.not_mem_source.2, false_or]
  decide

theorem not_mem_of_mem_lines {n : Notice} : ∀ l ∈ n.lines, '\n' ∉ l.toList := by
  intro l hl
  obtain ⟨t, ht, rfl⟩ := List.mem_map.1 hl
  rw [String.toList_ofList]
  exact not_mem_linesFrom n.not_mem_head _ t ht

theorem linesFrom_of_not_mem {m : List Char} (h : '\n' ∉ m) (before : List Char) :
    linesFrom before m = [before ++ m] := by
  induction m generalizing before with
  | nil => rw [linesFrom, List.append_nil]
  | cons c m ih =>
    obtain ⟨hc, hm⟩ := not_or.1 (mt List.mem_cons.2 h)
    rw [linesFrom, if_neg (Ne.symm hc), ih hm, List.append_assoc, List.singleton_append]

/-- Further lines begin with a blank. -/
theorem begins_of_mem_linesFrom (before m : List Char) : ∀ l ∈ linesFrom before m, before <+: l ∨ [' '] <+: l := by
  induction m generalizing before with
  | nil => exact List.forall_mem_singleton.2 (Or.inl (List.prefix_refl _))
  | cons c m ih =>
    rw [linesFrom]
    by_cases hc : c = '\n'
    · rw [if_pos hc]
      refine List.forall_mem_cons.2 ⟨Or.inl (List.prefix_refl _), fun l hl => Or.inr ?_⟩
      exact (ih _ l hl).elim (List.prefix_append [' '] _).trans id
    · rw [if_neg hc]
      exact fun l hl => (ih _ l hl).imp_left (List.prefix_append before [c]).trans

theorem exists_initial (n : Notice) : ∃ c rest, n.message.toList = c :: rest ∧ c ≠ '\n' := by
  have hbegins {c : Char} {s : List Char} (hc : c ≠ '\n') (h : [c] <+: s) : ∃ d rest, s = d :: rest ∧ d ≠ '\n' := by
    obtain ⟨rest, rfl⟩ := h
    exact ⟨c, rest, rfl, hc⟩
  have hopening := n.message_begins
  cases n with
  | machine e =>
    have hevent := e.message_begins
    cases e <;> exact hbegins (by decide) hevent
  | key k down step => exact hbegins (by decide) (toList_key k down step ▸ List.prefix_append ['K'] _)
  | updates count =>
    obtain ⟨c, rest, h, hdigit⟩ := exists_digit count
    exact ⟨c, rest, h, by rintro rfl; exact absurd hdigit (by decide)⟩
  | _ => exact hbegins (by decide) hopening

/-- **A line tells its notice's source, and how the text begins.** -/
theorem initial_of_line {n : Notice} {l : String} (hl : l ∈ n.lines) {c : Char} {s : List Char}
    (h : l.toList = "[INFO  chip_8_frontend] ".toList ++ c :: s) :
    n.source = "chip_8_frontend" ∧ ∃ rest, n.message.toList = c :: rest := by
  obtain ⟨d, rest, hmessage, hd⟩ := n.exists_initial
  obtain ⟨t, ht, rfl⟩ := List.mem_map.1 hl
  rw [String.toList_ofList] at h
  rw [hmessage, linesFrom, if_neg hd] at ht
  rcases begins_of_mem_linesFrom _ _ t ht with ⟨u, hu⟩ | ⟨u, hu⟩
  · rw [h, List.append_assoc] at hu
    have hhead : (updates 0).head = "[INFO  chip_8_frontend] ".toList := head_of_run rfl rfl
    rw [← hhead] at hu
    obtain ⟨hsource, hinitial⟩ := head_append_inj hu
    obtain ⟨rfl, -⟩ := List.cons.inj hinitial
    exact ⟨hsource, rest, hmessage⟩
  · rw [h] at hu
    exact absurd (List.cons.inj hu).1 (by decide)

/-! ### The lines about the tone and the screen -/

def soundLine (sound : Bool × Nat) : String :=
  "[INFO  chip_8_frontend] Sound " ++ (if sound.1 then "on" else "off") ++ " at step " ++ toString sound.2

def updatesLine (count : Nat) : String :=
  "[INFO  chip_8_frontend] " ++ toString count ++ " screen updates"

theorem soundHead_eq : "[INFO  chip_8_frontend] Sound " = "[INFO  chip_8_frontend] " ++ "Sound " := by
  decide

theorem lines_sound (playing : Bool) (step : Nat) : (sound playing step).lines = [soundLine (playing, step)] := by
  have hfeed : '\n' ∉ (sound playing step).message.toList := by
    have hword : '\n' ∉ (if playing then "on" else "off").toList := by cases playing <;> decide
    rw [toList_sound]
    simp only [List.mem_append, List.mem_cons, hword, not_mem_toDigits (show '\n'.isDigit = false by decide), false_or,
      or_false]
    decide
  have hstep : " at step ".toList = ' ' :: "at step ".toList := by decide
  rw [lines, linesFrom_of_not_mem hfeed, List.map_singleton, List.singleton_inj, ← String.toList_inj,
    String.toList_ofList, toList_sound, head_of_run rfl rfl]
  unfold soundLine
  simp only [soundHead_eq, String.toList_append, toList_decimal, hstep, List.append_assoc, List.cons_append]

theorem lines_updates (count : Nat) : (updates count).lines = [updatesLine count] := by
  have hfeed : '\n' ∉ (updates count).message.toList := by
    rw [toList_updates]
    simp only [List.mem_append, not_mem_toDigits (show '\n'.isDigit = false by decide), false_or]
    decide
  rw [lines, linesFrom_of_not_mem hfeed, List.map_singleton, List.singleton_inj, ← String.toList_inj,
    String.toList_ofList, toList_updates, head_of_run rfl rfl]
  unfold updatesLine
  simp only [String.toList_append, toList_decimal, List.append_assoc]

/-- Whether a line tells of the tone. -/
def isSoundLine (l : String) : Bool :=
  "[INFO  chip_8_frontend] Sound ".toList.isPrefixOf l.toList

theorem exists_sound_of_line {n : Notice} {l : String} (hl : l ∈ n.lines) (h : isSoundLine l = true) :
    ∃ playing step, n = sound playing step := by
  have hword : "Sound ".toList = 'S' :: "ound ".toList := by decide
  obtain ⟨s, hs⟩ := List.isPrefixOf_iff_prefix.1 h
  rw [soundHead_eq, String.toList_append, List.append_assoc, hword, List.cons_append] at hs
  obtain ⟨hsource, rest, hmessage⟩ := initial_of_line hl hs.symm
  have hopening := n.message_begins
  rw [hmessage] at hopening
  cases n with
  | machine _ | key _ _ _ => simp [source] at hsource
  | sound playing step => exact ⟨playing, step, rfl⟩
  | updates count =>
    obtain ⟨c, rest', hcount, hdigit⟩ := exists_digit count
    obtain ⟨rfl, -⟩ := List.cons.inj (hcount.symm.trans hmessage)
    exact absurd hdigit (by decide)
  | _ => simp [opening] at hopening

theorem exists_updates_of_line {n : Notice} {k : Nat} (hl : updatesLine k ∈ n.lines) : ∃ count, n = updates count := by
  obtain ⟨c, rest, hdigits⟩ := List.exists_cons_of_ne_nil (show Nat.toDigits 10 k ≠ [] from Nat.toDigits_ne_nil)
  have hdigit : c.isDigit = true := isDigit_of_mem_toDigits (hdigits ▸ List.mem_cons_self)
  have hline : (updatesLine k).toList =
      "[INFO  chip_8_frontend] ".toList ++ c :: (rest ++ " screen updates".toList) := by
    unfold updatesLine
    rw [String.toList_append, String.toList_append, toList_decimal, hdigits, List.append_assoc]
    rfl
  obtain ⟨hsource, rest', hmessage⟩ := initial_of_line hl hline
  have hopening := n.message_begins
  rw [hmessage] at hopening
  cases n with
  | machine _ | key _ _ _ => simp [source] at hsource
  | updates count => exact ⟨count, rfl⟩
  | _ =>
    obtain ⟨rfl, -⟩ := List.cons_prefix_cons.1 hopening
    exact absurd hdigit (by decide)

/-- **The lines that tell of the tone** are those of the notices that do. -/
theorem filter_lines (n : Notice) : n.lines.filter isSoundLine = n.sound?.toList.map soundLine := by
  by_cases hsound : ∃ playing step, n = sound playing step
  · obtain ⟨playing, step, rfl⟩ := hsound
    have hline : isSoundLine (soundLine (playing, step)) = true := by
      refine List.isPrefixOf_iff_prefix.2 (begins_append (begins_append (begins_append ?_)))
      exact List.prefix_refl _
    rw [lines_sound, List.filter_singleton, hline]
    rfl
  · have hnone : n.sound? = none := by
      cases n with
      | sound playing step => exact absurd ⟨playing, step, rfl⟩ hsound
      | _ => rfl
    rw [hnone, List.filter_eq_nil_iff.2 fun l hl hline => hsound (exists_sound_of_line hl hline)]
    rfl

theorem count_lines (n : Notice) (k : Nat) : n.lines.count (updatesLine k) = n.updates?.toList.count k := by
  by_cases hupdates : ∃ count, n = updates count
  · obtain ⟨count, rfl⟩ := hupdates
    have hline : updatesLine count = updatesLine k ↔ count = k :=
      ⟨decimal_between_inj, fun h => by rw [h]⟩
    rw [lines_updates]
    show _ = [count].count k
    rw [List.count_singleton, List.count_singleton]
    simp only [beq_iff_eq, hline]
  · have hnone : n.updates? = none := by
      cases n with
      | updates count => exact absurd ⟨count, rfl⟩ hupdates
      | _ => rfl
    rw [hnone, List.count_eq_zero.2 fun hl => hupdates (exists_updates_of_line hl)]
    rfl

end Notice

namespace Report

open Notice

theorem noticeText_eq_lines (notices : List Notice) :
    noticeText notices = String.join ((notices.flatMap lines).map (· ++ "\n")) := by
  induction notices with
  | nil => rfl
  | cons n notices ih =>
    rw [List.flatMap_cons, List.map_append, String.join_append, ← ih, join_lines]
    exact String.join_cons

theorem filter_flatMap_lines (notices : List Notice) :
    (notices.flatMap lines).filter isSoundLine = (notices.filterMap sound?).map soundLine := by
  induction notices with
  | nil => rfl
  | cons n notices ih =>
    rw [List.flatMap_cons, List.filter_append, filter_lines, ih, List.filterMap_cons]
    cases n.sound? <;> rfl

theorem count_flatMap_lines (notices : List Notice) (k : Nat) :
    (notices.flatMap lines).count (updatesLine k) = (notices.filterMap updates?).count k := by
  induction notices with
  | nil => rfl
  | cons n notices ih =>
    rw [List.flatMap_cons, List.count_append, count_lines, ih, List.filterMap_cons, ← List.count_append]
    cases n.updates? <;> rfl

end Report

end Chip8
