import Mathlib
import Chip8.Instruction.Disassembly
import Chip8.Machine.Event
import Chip8.Proofs.Halting
import Chip8.Proofs.PressText
/-!
# Assembly — a line of assembly says which word it was

Eleven kinds of words share the mnemonic `LD`, and others share `ADD`, `SE`, `SNE` and `JP`.  They are told apart by
their operands: a register has a `V`, a byte has two digits and an address three, and the rest have names of their own.
So a line can be read back, its operands one by one (`Operand.ofChars?_text`) and then the instruction that they make
with their mnemonic (`Instruction.ofChars?_text`).  No two instructions have the same text, and since no two words have
the same instruction, the text of a word is the text of that word only (`word_of_text`).
-/
namespace Chip8

/-! ## Hexadecimal numbers -/

namespace Text

theorem toList_hex (width n : Nat) : (hex width n).toList = hexDigits width n :=
  String.toList_ofList

/-- A number that fits in a width takes all of it. -/
theorem length_hexDigits {width n : Nat} (hw : 0 < width) (hn : n < 16 ^ width) :
    (hexDigits width n).length = width := by
  unfold hexDigits
  rw [List.length_leftpad]
  exact Nat.max_eq_left ((Nat.length_toDigits_le_iff (by decide) hw).2 hn)

theorem not_mem_marked {c : Char} (hmark : c ∉ ['0', 'x', '+']) (hc : digitValue? 16 c = none) (width n : Nat) :
    c ∉ '0' :: 'x' :: hexDigits width n := by
  simp only [List.mem_cons, List.not_mem_nil, or_false, not_or] at hmark ⊢
  exact ⟨hmark.1, hmark.2.1, not_mem_of_isNumeral (by decide) (isNumeral_hexDigits width n) hmark.2.2 hc⟩

/-- The number below a limit that a text is in base sixteen. -/
def hexValue? (limit : Nat) (s : List Char) : Option Nat :=
  (readNumeral 16 limit s).toOption

theorem hexValue?_hexDigits {limit n : Nat} (hn : n < limit) (width : Nat) :
    hexValue? limit (hexDigits width n) = some n := by
  unfold hexValue?
  rw [readNumeral_of_isNumeral (by decide) (isNumeral_hexDigits width n) hn]
  rfl

/-- Numbers that are written alike are the same. -/
theorem hexDigits_inj {width n k : Nat} : hexDigits width n = hexDigits width k ↔ n = k := by
  refine ⟨fun h => ?_, fun h => by rw [h]⟩
  have hn := hexValue?_hexDigits (Nat.lt_succ_of_le (Nat.le_max_left n k)) width
  have hk := hexValue?_hexDigits (Nat.lt_succ_of_le (Nat.le_max_right n k)) width
  rw [h, hk] at hn
  exact (Option.some.inj hn).symm

end Text

open Text

/-! ## Operands -/

namespace Operand

/-- Reads an operand. -/
def ofChars? : List Char → Option Operand
  | ['I'] => some .index
  | ['[', 'I', ']'] => some .indexed
  | ['D', 'T'] => some .delay
  | ['S', 'T'] => some .sound
  | ['K'] => some .key
  | ['F'] => some .glyph
  | ['B'] => some .decimal
  | 'V' :: x => (hexValue? 0x10 x).map fun n => .register (.ofNat n)
  | '0' :: 'x' :: digits =>
    if digits.length = 2 then (hexValue? 0x100 digits).map fun n => .byte (.ofNat n)
    else (hexValue? 0x1000 digits).map fun n => .address (.ofNat n)
  | n => (hexValue? 0x10 n).map fun n => .nibble (.ofNat n)

theorem toList_text_byte (b : UInt8) : (byte b).text.toList = '0' :: 'x' :: hexDigits 2 b.toNat := by
  show ("0x" ++ hex 2 b.toNat).toList = _
  rw [String.toList_append, toList_hex]
  rfl

theorem toList_text_address (a : Address) : (address a).text.toList = '0' :: 'x' :: hexDigits 3 a.val := by
  show ("0x" ++ hex 3 a.val).toList = _
  rw [String.toList_append, toList_hex]
  rfl

theorem ofChars?_text_byte (b : UInt8) : ofChars? (byte b).text.toList = some (.byte b) := by
  have hb : b.toNat < 0x100 := b.toNat_lt
  rw [toList_text_byte, ofChars?, if_pos (length_hexDigits (by decide) hb), hexValue?_hexDigits hb, Option.map_some,
    UInt8.ofNat_toNat]

theorem ofChars?_text_address (a : Address) : ofChars? (address a).text.toList = some (.address a) := by
  have hlength : (hexDigits 3 a.val).length = 3 := length_hexDigits (by decide) a.isLt
  rw [toList_text_address, ofChars?, if_neg (by rw [hlength]; decide), hexValue?_hexDigits a.isLt, Option.map_some]
  exact congrArg (some ∘ address) (Fin.ext (Nat.mod_eq_of_lt a.isLt))

/-- **Every operand is read back.** -/
theorem ofChars?_text (o : Operand) : ofChars? o.text.toList = some o := by
  cases o with
  | register r => revert r; decide +kernel
  | nibble n => revert n; decide +kernel
  | byte b => exact ofChars?_text_byte b
  | address a => exact ofChars?_text_address a
  | _ => decide

/-- No operand has a blank or a comma in it. -/
theorem not_mem_text (o : Operand) : ' ' ∉ o.text.toList ∧ ',' ∉ o.text.toList := by
  cases o with
  | register r => revert r; decide +kernel
  | nibble n => revert n; decide +kernel
  | byte b =>
    rw [toList_text_byte]
    exact ⟨not_mem_marked (by decide) (by decide) 2 _, not_mem_marked (by decide) (by decide) 2 _⟩
  | address a =>
    rw [toList_text_address]
    exact ⟨not_mem_marked (by decide) (by decide) 3 _, not_mem_marked (by decide) (by decide) 3 _⟩
  | _ => decide

/-! ### Lists of operands -/

/-- Operands as they stand in a line. -/
def join (operands : List Operand) : List Char :=
  [',', ' '].intercalate (operands.map (·.text.toList))

/-- Reads operands that commas separate; blanks are no matter. -/
def listOfChars? (s : List Char) : Option (List Operand) :=
  ((s.filter (· != ' ')).splitOn ',').mapM ofChars?

theorem filter_join (operands : List Operand) :
    (join operands).filter (· != ' ') = [','].intercalate (operands.map (·.text.toList)) := by
  have hkeep (o : Operand) : o.text.toList.filter (· != ' ') = o.text.toList :=
    List.filter_eq_self.2 fun c hc => bne_iff_ne.2 (ne_of_mem_of_not_mem hc o.not_mem_text.1)
  unfold join
  induction operands with
  | nil => rfl
  | cons o operands ih =>
    cases operands with
    | nil => rw [List.map_singleton, List.intercalate_singleton, List.intercalate_singleton, hkeep]
    | cons o' operands =>
      simp only [List.map_cons] at ih ⊢
      rw [List.intercalate_cons_cons, List.intercalate_cons_cons, List.filter_append, List.filter_append, hkeep, ih]
      rfl

theorem mapM_ofChars? (operands : List Operand) :
    (operands.map (·.text.toList)).mapM ofChars? = some operands := by
  induction operands with
  | nil => rfl
  | cons o operands ih =>
    rw [List.map_cons, List.mapM_cons, ofChars?_text, ih]
    rfl

/-- **Operands are read back**, if there are any. -/
theorem listOfChars?_join {operands : List Operand} (h : operands ≠ []) :
    listOfChars? (join operands) = some operands := by
  have hcomma : ∀ t ∈ operands.map (·.text.toList), ',' ∉ t := by
    intro t ht
    obtain ⟨o, -, rfl⟩ := List.mem_map.1 ht
    exact o.not_mem_text.2
  unfold listOfChars?
  rw [filter_join, List.splitOn_intercalate ',' hcomma (mt List.map_eq_nil_iff.1 h), mapM_ofChars?]

end Operand

/-! ## Instructions -/

/-- The operator of a mnemonic that two registers follow. -/
def Operator.ofMnemonic? : String → Option Operator
  | "LD" => some .copy
  | "OR" => some .or
  | "AND" => some .and
  | "XOR" => some .xor
  | "ADD" => some .add
  | "SUB" => some .sub
  | "SHR" => some .shiftRight
  | "SUBN" => some .subFrom
  | "SHL" => some .shiftLeft
  | _ => none

namespace Instruction

/-- The instruction of a mnemonic and its operands. -/
def ofAssembly? (mnemonic : String) : List Operand → Option Instruction
  | [] =>
    match mnemonic with
    | "CLS" => some .clearScreen
    | "RET" => some .returnFromCall
    | _ => none
  | [.address nnn] =>
    match mnemonic with
    | "SYS" => some (.machineRoutine nnn)
    | "JP" => some (.jump nnn)
    | "CALL" => some (.call nnn)
    | _ => none
  | [.register x] =>
    match mnemonic with
    | "SKP" => some (.skip (.keyDown x))
    | "SKNP" => some (.skip (.keyUp x))
    | _ => none
  | [.register x, .byte nn] =>
    match mnemonic with
    | "SE" => some (.skip (.equalsByte x nn))
    | "SNE" => some (.skip (.differsByte x nn))
    | "LD" => some (.setByte x nn)
    | "ADD" => some (.addByte x nn)
    | "RND" => some (.random x nn)
    | _ => none
  | [.register x, .register y] =>
    match mnemonic with
    | "SE" => some (.skip (.equals x y))
    | "SNE" => some (.skip (.differs x y))
    | _ => (Operator.ofMnemonic? mnemonic).map (.combine · x y)
  | [.register _, .address nnn] => if mnemonic = "JP" then some (.jumpOffset nnn) else none
  | [.register x, .register y, .nibble n] => if mnemonic = "DRW" then some (.draw x y n) else none
  | [.index, .register x] => if mnemonic = "ADD" then some (.addIndex x) else none
  | operands =>
    if mnemonic = "LD" then
      match operands with
      | [.index, .address nnn] => some (.setIndex nnn)
      | [.register x, .delay] => some (.readDelay x)
      | [.register x, .key] => some (.waitKey x)
      | [.delay, .register x] => some (.setDelay x)
      | [.sound, .register x] => some (.setSound x)
      | [.glyph, .register x] => some (.fontGlyph x)
      | [.decimal, .register x] => some (.storeDecimal x)
      | [.indexed, .register x] => some (.storeRegisters x)
      | [.register x, .indexed] => some (.loadRegisters x)
      | _ => none
    else none

/-- **Mnemonic and operands make an instruction.** -/
theorem ofAssembly?_assembly (i : Instruction) : ofAssembly? i.assembly.1 i.assembly.2 = some i := by
  cases i with
  | skip condition => cases condition <;> rfl
  | combine op x y => cases op <;> rfl
  | _ => rfl

/-- No mnemonic has a blank in it. -/
theorem not_mem_mnemonic (i : Instruction) : ' ' ∉ i.assembly.1.toList := by
  cases i with
  | skip condition => cases condition <;> simp [assembly, Condition.assembly]
  | combine op x y => cases op <;> simp [assembly, Operator.mnemonic]
  | _ => simp [assembly]

/-- Reads a line of assembly. -/
def ofChars? (s : List Char) : Option Instruction :=
  match splitFirst? ' ' s with
  | none => ofAssembly? (String.ofList s) []
  | some (mnemonic, operands) => (Operand.listOfChars? operands).bind (ofAssembly? (String.ofList mnemonic))

theorem toList_text (i : Instruction) :
    i.text.toList = if i.assembly.2 = [] then i.assembly.1.toList
      else i.assembly.1.toList ++ ' ' :: Operand.join i.assembly.2 := by
  unfold text Operand.join
  obtain ⟨mnemonic, operands⟩ := i.assembly
  cases operands with
  | nil => rfl
  | cons o operands =>
    rw [if_neg (List.cons_ne_nil o operands)]
    show (mnemonic ++ " " ++ ", ".intercalate _).toList = _
    rw [String.toList_append, String.toList_append, String.toList_intercalate, List.map_map, List.append_assoc]
    rfl

/-- **Every instruction is read back from its line.** -/
theorem ofChars?_text (i : Instruction) : ofChars? i.text.toList = some i := by
  have hmnemonic := i.not_mem_mnemonic
  unfold ofChars?
  rw [toList_text]
  by_cases hnone : i.assembly.2 = []
  · rw [if_pos hnone, splitFirst?_of_not_mem hmnemonic]
    simp only [String.ofList_toList]
    rw [← hnone]
    exact ofAssembly?_assembly i
  · rw [if_neg hnone, splitFirst?_of_isCut ⟨rfl, hmnemonic⟩]
    simp only [String.ofList_toList]
    rw [Operand.listOfChars?_join hnone]
    exact ofAssembly?_assembly i

/-- **No two instructions have the same text.** -/
theorem text_injective : Function.Injective text := by
  intro i i' h
  have hread := ofChars?_text i
  rw [h, ofChars?_text] at hread
  exact (Option.some.inj hread).symm

end Instruction

/-! ## Words -/

/-- **No two words have the same instruction.** -/
theorem decode?_inj {word word' : UInt16} {i : Instruction} (h : Instruction.decode? word = some i)
    (h' : Instruction.decode? word' = some i) : word = word' := by
  have hdigits : digits word = digits word' := (digits_of_decode? h).trans (digits_of_decode? h').symm
  apply UInt16.toNat_inj.1
  exact (word_of_digits hdigits).trans (word_of_digits rfl).symm

theorem toList_message (pc word : UInt16) (i : Instruction) :
    (Event.executing pc word i).message.toList =
      "0x".toList ++ (hexDigits 4 pc.toNat ++ (": 0x".toList ++ (hexDigits 4 word.toNat ++ ' ' :: i.text.toList))) := by
  show ("0x" ++ hex 4 pc.toNat ++ ": 0x" ++ hex 4 word.toNat ++ " " ++ i.text).toList = _
  simp only [String.toList_append, toList_hex, List.append_assoc]
  rfl

/-- What is told of an instruction that is executed says where, from which word, and what it is. -/
theorem message_inj {pc pc' word word' : UInt16} {i i' : Instruction}
    (h : (Event.executing pc word i).message = (Event.executing pc' word' i').message) :
    pc = pc' ∧ word = word' ∧ i = i' := by
  have hlength (w : UInt16) : (hexDigits 4 w.toNat).length = 4 := length_hexDigits (by decide) w.toNat_lt
  have hlist := congrArg String.toList h
  rw [toList_message, toList_message] at hlist
  obtain ⟨hpc, hlist⟩ := List.append_inj (List.append_cancel_left hlist) ((hlength pc).trans (hlength pc').symm)
  obtain ⟨hword, hlist⟩ :=
    List.append_inj (List.append_cancel_left hlist) ((hlength word).trans (hlength word').symm)
  have htext := String.toList_inj.1 (List.cons.inj hlist).2
  exact ⟨UInt16.toNat_inj.1 (hexDigits_inj.1 hpc), UInt16.toNat_inj.1 (hexDigits_inj.1 hword),
    Instruction.text_injective htext⟩

/-- **A text is the text of one word.**  Of two words with an instruction, texts and instructions are the same exactly if
the words are.  So a text determines mnemonic and operands, and with them all digits of the word; and what is told of a
word when it is executed is told of no other one, and of no other address. -/
theorem word_of_text {word word' : UInt16} {i i' : Instruction} (h : Instruction.decode? word = some i)
    (h' : Instruction.decode? word' = some i') :
    (i.text = i'.text ↔ word = word') ∧ (i = i' ↔ word = word') ∧
    (i.text = i'.text → i.assembly = i'.assembly ∧ i.digits = i'.digits ∧ digits word = digits word') ∧
    ∀ pc pc', (Event.executing pc word i).message = (Event.executing pc' word' i').message ↔
      pc = pc' ∧ word = word' := by
  have hsame : i = i' ↔ word = word' := by
    constructor
    · rintro rfl
      exact decode?_inj h h'
    · rintro rfl
      exact Option.some.inj (h.symm.trans h')
  have htext : i.text = i'.text ↔ word = word' := Instruction.text_injective.eq_iff.trans hsame
  refine ⟨htext, hsame, fun ht => ?_, fun pc pc' => ⟨fun hm => ?_, ?_⟩⟩
  · rw [Instruction.text_injective ht, htext.1 ht]
    exact ⟨rfl, rfl, rfl⟩
  · exact ⟨(message_inj hm).1, (message_inj hm).2.1⟩
  · rintro ⟨rfl, hw⟩
    rw [hsame.2 hw, hw]

/-- `LD V1, V2` and `LD V1, 0x20` are different words. -/
theorem word_of_text_load :
    Instruction.decode? 0x8120 = some (.combine .copy 1 2) ∧ Instruction.decode? 0x6120 = some (.setByte 1 0x20) ∧
    (Instruction.combine .copy 1 2).text ≠ (Instruction.setByte 1 0x20).text ∧
    ∀ pc pc', (Event.executing pc 0x8120 (.combine .copy 1 2)).message ≠
      (Event.executing pc' 0x6120 (.setByte 1 0x20)).message := by
  have hcopy : Instruction.decode? 0x8120 = some (.combine .copy 1 2) := by decide
  have hbyte : Instruction.decode? 0x6120 = some (.setByte 1 0x20) := by decide
  have hwords : (0x8120 : UInt16) ≠ 0x6120 := by decide
  obtain ⟨htext, -, -, hmessage⟩ := word_of_text hcopy hbyte
  exact ⟨hcopy, hbyte, mt htext.1 hwords, fun pc pc' => mt (hmessage pc pc').1 fun hm => hwords hm.2⟩

end Chip8
