import Chip8.Proofs.Instruction.Agreement
import Chip8.Proofs.Text.Numerals

/-!
Mnemonics read back. The text of an assembly line can be taken apart at its blanks and commas, and
each piece tells its operand. So the line is known from its text, the instruction from the line, and
the word from the instruction: no two words share a mnemonic.
-/

namespace Chip8

namespace Operand

/-- The operands that are no numbers. -/
def named : List Operand :=
  [.index, .cells, .delayTimer, .soundTimer, .keyPress, .glyphOf, .decimalOf] ++
    (List.finRange 16).map .register

/-- The operand that a hexadecimal numeral of `width` digits stands for. -/
def numeral? (width n : Nat) : Option Operand :=
  if width = 2 then some (.byte (UInt8.ofNat n))
  else if width = 3 then some (.target (Word.target (UInt16.ofNat n)))
  else if width = 4 then some (.word (UInt16.ofNat n))
  else none

/-- The operand that a text shows in the line of an operation. Only one operation has the height of
a sprite, which could not be told from a byte otherwise. -/
def read? (operation : String) (text : List Char) : Option Operand :=
  if operation = "DRW" then
    ((List.finRange 16).map Operand.rows ++ named).find? fun o => o.text.toList = text
  else
    ((Hex.value? text).bind (numeral? text.length)).or
      (named.find? fun o => o.text.toList = text)

/-- Whether an operand may stand in the line of an operation. -/
def FitsIn (operation : String) : Operand → Prop
  | .rows _ => operation = "DRW"
  | .byte _ | .target _ | .word _ => operation ≠ "DRW"
  | _ => True

theorem read?_named {o : Operand} (h : o ∈ named) (operation : String) :
    read? operation o.text.toList = some o := by
  have hHeight : ∀ o ∈ named,
      ((List.finRange 16).map Operand.rows ++ named).find?
        (fun other => other.text.toList = o.text.toList) = some o := by
    decide
  have hOther : ∀ o ∈ named,
      ((Hex.value? o.text.toList).bind (numeral? o.text.toList.length)).or
        (named.find? fun other => other.text.toList = o.text.toList) = some o := by
    decide
  unfold read?
  split
  · exact hHeight o h
  · exact hOther o h

theorem read?_numeral {operation : String} (hOperation : operation ≠ "DRW") {text : List Char}
    {n : Nat} (hValue : Hex.value? text = some n) {o : Operand}
    (hOperand : numeral? text.length n = some o) : read? operation text = some o := by
  rw [read?, if_neg hOperation, hValue, Option.bind_some, hOperand, Option.some_or]

theorem read?_rows (n : Fin 16) : read? "DRW" (Operand.rows n).text.toList = some (.rows n) := by
  revert n
  decide

theorem read?_text {operation : String} {o : Operand} (h : o.FitsIn operation) :
    read? operation o.text.toList = some o := by
  cases o with
  | register x =>
      have hNamed : ∀ x : Register, Operand.register x ∈ named := by decide
      exact read?_named (hNamed x) operation
  | byte k =>
      refine read?_numeral h (Hex.isNumeral_byte k).value ?_
      rw [Hex.length_byte, numeral?, if_pos rfl, UInt8.ofNat_toNat]
  | target t =>
      have hValue : (UInt16.ofNat t.val).toNat = t.val :=
        UInt16.toNat_ofNat_of_lt' (show t.val < 65536 by omega)
      have hTarget : Word.target (UInt16.ofNat t.val) = t := by
        rw [Word.target, hValue, Fin.ofNat_val_eq_self]
      have hLength : (Hex.word 3 (UInt16.ofNat t.val)).toList.length = 3 :=
        (Hex.length_word 3 _).trans (Nat.max_eq_left (Hex.size_le_of_lt (by omega)))
      refine read?_numeral h (Hex.isNumeral_word (by decide) _).value ?_
      rw [hLength, hValue, numeral?, if_neg (by decide), if_pos rfl, hTarget]
  | word w =>
      have hLength : (Hex.word 4 w).toList.length = 4 :=
        (Hex.length_word 4 w).trans (Nat.max_eq_left (Hex.size_le w))
      refine read?_numeral h (Hex.isNumeral_word (by decide) w).value ?_
      rw [hLength, numeral?, if_neg (by decide), if_neg (by decide), if_pos rfl,
        UInt16.ofNat_toNat]
  | rows n =>
      obtain rfl : operation = "DRW" := h
      exact read?_rows n
  | _ => exact read?_named (by decide) operation

theorem comma_not_mem_text (o : Operand) : ',' ∉ o.text.toList := by
  have hDigits : ',' ∉ Hex.digitChars := by decide
  cases o with
  | register x => revert x; decide
  | byte k => exact fun h => hDigits ((Hex.isNumeral_byte k).mem_digitChars h)
  | target t => exact fun h => hDigits ((Hex.isNumeral_word (by decide) _).mem_digitChars h)
  | word w => exact fun h => hDigits ((Hex.isNumeral_word (by decide) w).mem_digitChars h)
  | rows n => revert n; decide
  | _ => decide

end Operand

/-- Between commas and blanks stand the texts of a list, a blank in front of each but the first. -/
theorem splitOn_intercalate_comma {text : List Char} {rest : List (List Char)}
    (h : ∀ other ∈ text :: rest, ',' ∉ other) :
    ([',', ' '].intercalate (text :: rest)).splitOn ',' = text :: rest.map (' ' :: ·) := by
  induction rest generalizing text with
  | nil =>
      rw [List.intercalate_singleton, List.map_nil]
      exact List.splitOn_eq_singleton (h text List.mem_cons_self)
  | cons next rest ih =>
      obtain ⟨hText, hRest⟩ := List.forall_mem_cons.mp h
      obtain ⟨hNext, hLater⟩ := List.forall_mem_cons.mp hRest
      have hBlank : ∀ other ∈ (' ' :: next) :: rest, ',' ∉ other :=
        List.forall_mem_cons.mpr ⟨by simpa using hNext, hLater⟩
      rw [List.intercalate_cons_cons, List.append_assoc, List.cons_append, List.cons_append,
        List.nil_append, ← List.intercalate_cons_cons_left,
        List.splitOn_append_cons_self_of_not_mem hText, ih hBlank, List.map_cons]

/-- Lists of texts without commas are known from what they make when put together. -/
theorem intercalate_comma_injective {texts others : List (List Char)}
    (hTexts : ∀ text ∈ texts, ',' ∉ text) (hOthers : ∀ text ∈ others, ',' ∉ text)
    (hSome : texts ≠ [] ∧ others ≠ [])
    (h : [',', ' '].intercalate texts = [',', ' '].intercalate others) : texts = others := by
  obtain ⟨text, rest, rfl⟩ := List.exists_cons_of_ne_nil hSome.1
  obtain ⟨other, later, rfl⟩ := List.exists_cons_of_ne_nil hSome.2
  have hSplit := congrArg (List.splitOn ',') h
  rw [splitOn_intercalate_comma hTexts, splitOn_intercalate_comma hOthers] at hSplit
  obtain ⟨rfl, hRest⟩ := List.cons.inj hSplit
  rw [(List.map_inj_right fun _ _ hBlank => (List.cons.inj hBlank).2).mp hRest]

namespace Assembly

def texts (line : Assembly) : List (List Char) :=
  line.operands.map fun o => o.text.toList

/-- The operands stand behind a blank, parted by commas. -/
theorem toList_text (line : Assembly) :
    line.text.toList =
      line.operation.toList ++
        if line.texts = [] then [] else ' ' :: [',', ' '].intercalate line.texts := by
  obtain ⟨operation, operands⟩ := line
  cases operands with
  | nil => exact (List.append_nil _).symm
  | cons first rest =>
      simp only [text, texts, String.toList_append, String.toList_intercalate, List.map_map,
        List.append_assoc]
      rfl

/-- Up to the first blank stands the operation. -/
theorem head?_splitOn_text {line : Assembly} (h : ' ' ∉ line.operation.toList) :
    (line.text.toList.splitOn ' ').head? = some line.operation.toList := by
  rw [toList_text]
  split
  · rw [List.append_nil, List.splitOn_eq_singleton h]
    rfl
  · rw [List.splitOn_append_cons_self_of_not_mem h]
    rfl

/-- A line without a blank in its operation is known from its text, as far as it is made of
texts. -/
theorem eq_of_text_eq {first second : Assembly} (hFirst : ' ' ∉ first.operation.toList)
    (hSecond : ' ' ∉ second.operation.toList) (h : first.text = second.text) :
    first.operation = second.operation ∧ first.texts = second.texts := by
  have hComma (line : Assembly) : ∀ text ∈ line.texts, ',' ∉ text := by
    intro text hText
    obtain ⟨o, -, rfl⟩ := List.mem_map.mp hText
    exact o.comma_not_mem_text
  have hHead := head?_splitOn_text hFirst
  rw [h, head?_splitOn_text hSecond] at hHead
  have hOperation : first.operation = second.operation :=
    String.toList_inj.mp (Option.some.inj hHead).symm
  have hText := congrArg String.toList h
  rw [toList_text, toList_text, hOperation] at hText
  have hOperands := List.append_cancel_left hText
  refine ⟨hOperation, ?_⟩
  by_cases hNone : first.texts = [] <;> by_cases hNoneToo : second.texts = []
  · rw [hNone, hNoneToo]
  · rw [if_pos hNone, if_neg hNoneToo] at hOperands
    cases hOperands
  · rw [if_neg hNone, if_pos hNoneToo] at hOperands
    cases hOperands
  · rw [if_neg hNone, if_neg hNoneToo] at hOperands
    exact intercalate_comma_injective (hComma first) (hComma second) ⟨hNone, hNoneToo⟩
      (List.cons.inj hOperands).2

/-- Whether the operation of a line tells how to read its operands. -/
structure IsReadable (line : Assembly) : Prop where
  blank_not_mem : ' ' ∉ line.operation.toList
  fitsIn : ∀ o ∈ line.operands, o.FitsIn line.operation

/-- A readable line is known from its text. -/
theorem IsReadable.text_injective {first second : Assembly} (hFirst : first.IsReadable)
    (hSecond : second.IsReadable) (h : first.text = second.text) : first = second := by
  obtain ⟨hOperation, hTexts⟩ := eq_of_text_eq hFirst.blank_not_mem hSecond.blank_not_mem h
  have hRead {line : Assembly} (hLine : line.IsReadable) :
      line.texts.map (Operand.read? line.operation) = line.operands.map some := by
    rw [texts, List.map_map]
    exact List.map_congr_left fun o ho => Operand.read?_text (hLine.fitsIn o ho)
  have hOperands := hRead hFirst
  rw [hOperation, hTexts, hRead hSecond] at hOperands
  have hSame := (List.map_inj_right fun _ _ => Option.some.inj).mp hOperands
  obtain ⟨operation, operands⟩ := first
  obtain rfl : operation = second.operation := hOperation
  rw [← show second.operands = operands from hSame]

/-- The instruction that a line stands for. -/
def instruction? : Assembly → Option Instruction
  | ⟨"CLS", []⟩ => some .clear
  | ⟨"RET", []⟩ => some .ret
  | ⟨"SYS", [.target t]⟩ => some (.hostRoutine t)
  | ⟨"JP", [.target t]⟩ => some (.jump t)
  | ⟨"JP", [.register _, .target t]⟩ => some (.jumpOffset t)
  | ⟨"CALL", [.target t]⟩ => some (.call t)
  | ⟨"SE", [.register x, .byte k]⟩ => some (.skipIf (.byteEqual x k))
  | ⟨"SE", [.register x, .register y]⟩ => some (.skipIf (.equal x y))
  | ⟨"SNE", [.register x, .byte k]⟩ => some (.skipIf (.byteDiffers x k))
  | ⟨"SNE", [.register x, .register y]⟩ => some (.skipIf (.differs x y))
  | ⟨"SKP", [.register x]⟩ => some (.skipIf (.keyDown x))
  | ⟨"SKNP", [.register x]⟩ => some (.skipIf (.keyUp x))
  | ⟨"LD", [.register x, .byte k]⟩ => some (.setByte x k)
  | ⟨"LD", [.register x, .register y]⟩ => some (.arithmetic .copy x y)
  | ⟨"LD", [.index, .target t]⟩ => some (.setIndex t)
  | ⟨"LD", [.register x, .delayTimer]⟩ => some (.readDelay x)
  | ⟨"LD", [.register x, .keyPress]⟩ => some (.awaitKey x)
  | ⟨"LD", [.delayTimer, .register x]⟩ => some (.setDelay x)
  | ⟨"LD", [.soundTimer, .register x]⟩ => some (.setSound x)
  | ⟨"LD", [.glyphOf, .register x]⟩ => some (.glyph x)
  | ⟨"LD", [.decimalOf, .register x]⟩ => some (.decimal x)
  | ⟨"LD", [.cells, .register x]⟩ => some (.store x)
  | ⟨"LD", [.register x, .cells]⟩ => some (.load x)
  | ⟨"ADD", [.register x, .byte k]⟩ => some (.addByte x k)
  | ⟨"ADD", [.register x, .register y]⟩ => some (.arithmetic .add x y)
  | ⟨"ADD", [.index, .register x]⟩ => some (.addIndex x)
  | ⟨"OR", [.register x, .register y]⟩ => some (.arithmetic .or x y)
  | ⟨"AND", [.register x, .register y]⟩ => some (.arithmetic .and x y)
  | ⟨"XOR", [.register x, .register y]⟩ => some (.arithmetic .xor x y)
  | ⟨"SUB", [.register x, .register y]⟩ => some (.arithmetic .subtract x y)
  | ⟨"SHR", [.register x, .register y]⟩ => some (.arithmetic .shiftRight x y)
  | ⟨"SUBN", [.register x, .register y]⟩ => some (.arithmetic .subtractFrom x y)
  | ⟨"SHL", [.register x, .register y]⟩ => some (.arithmetic .shiftLeft x y)
  | ⟨"RND", [.register x, .byte mask]⟩ => some (.random x mask)
  | ⟨"DRW", [.register x, .register y, .rows n]⟩ => some (.draw x y n)
  | _ => none

end Assembly

theorem Instruction.instruction?_assembly (instruction : Instruction) :
    instruction.assembly.instruction? = some instruction := by
  cases instruction with
  | skipIf condition => cases condition <;> rfl
  | arithmetic operation x y => cases operation <;> rfl
  | _ => rfl

theorem Condition.isReadable_assembly (condition : Condition) : condition.assembly.IsReadable := by
  cases condition <;> constructor <;> simp [assembly, Operand.FitsIn]

theorem Instruction.isReadable_assembly (instruction : Instruction) :
    instruction.assembly.IsReadable := by
  cases instruction with
  | skipIf condition => exact condition.isReadable_assembly
  | arithmetic operation x y =>
      cases operation <;> constructor <;> simp [assembly, Arithmetic.name, Operand.FitsIn]
  | _ => constructor <;> simp [assembly, Operand.FitsIn]

namespace Word

theorem isReadable_assembly (w : Word) : w.assembly.IsReadable := by
  cases hDecode : w.decode with
  | some instruction =>
      rw [assembly_of_encodes (encodes_of_decode hDecode)]
      exact instruction.isReadable_assembly
  | none =>
      rw [assembly_of_decode_eq_none hDecode]
      constructor <;> simp [Operand.FitsIn]

/-- A line tells the instruction of its word, or that there is none. -/
theorem instruction?_assembly (w : Word) : w.assembly.instruction? = w.decode := by
  cases hDecode : w.decode with
  | some instruction =>
      rw [assembly_of_encodes (encodes_of_decode hDecode), instruction.instruction?_assembly]
  | none =>
      rw [assembly_of_decode_eq_none hDecode]
      rfl

theorem assembly_injective {v w : Word} (h : v.assembly = w.assembly) : v = w := by
  have hDecode : v.decode = w.decode := by
    rw [← v.instruction?_assembly, h, w.instruction?_assembly]
  cases hW : w.decode with
  | some instruction =>
      exact eq_of_encodes (encodes_of_decode (hDecode.trans hW)) (encodes_of_decode hW)
  | none =>
      rw [assembly_of_decode_eq_none (hDecode.trans hW), assembly_of_decode_eq_none hW] at h
      simpa using h

/-- No two words share a mnemonic. -/
theorem mnemonic_injective {v w : Word} (h : v.mnemonic = w.mnemonic) : v = w :=
  assembly_injective (v.isReadable_assembly.text_injective w.isReadable_assembly h)

end Word

end Chip8
