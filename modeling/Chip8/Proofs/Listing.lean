import Chip8.Listing
import Chip8.Proofs.Instruction.Mnemonic
import Chip8.Proofs.Machine.Warnings

/-!
Listings read back. A listing shows the whole of a program twice: its bytes as numerals, and its
words as mnemonics. What it shows as data are the words that a machine passes over.
-/

namespace Chip8

/-- The line of an address and the bytes found there, which are those of a word or a single one. -/
inductive Shows (address : Nat) : List UInt8 → String → Prop
  | word {high low : UInt8} {numeral first second : List Char}
    (hAddress : Hex.IsNumeral 3 address numeral) (hHigh : Hex.IsNumeral 2 high.toNat first)
    (hLow : Hex.IsNumeral 2 low.toNat second) :
    Shows address [high, low] (String.ofList (numeral ++ ' ' :: (first ++ ' ' :: (second ++
      ' ' :: (Word.ofBytes high low).mnemonic.toList))))
  | byte {byte : UInt8} {numeral first : List Char} (hAddress : Hex.IsNumeral 3 address numeral)
    (hByte : Hex.IsNumeral 2 byte.toNat first) :
    Shows address [byte] (String.ofList (numeral ++ ' ' :: first))

/-- The columns of a line are parted by blanks. -/
def columns (line : String) : List (List Char) :=
  line.toList.splitOn ' '

/-- What is read in the two columns for bytes, behind the address. -/
def byteColumns (line : String) : List (Option Nat) :=
  (((columns line).drop 1).take 2).map Hex.value?

/-- What stands behind the columns for bytes. There may be blanks in a mnemonic itself. -/
def mnemonicColumn (line : String) : String :=
  String.ofList ([' '].intercalate ((columns line).drop 3))

/-- Whether a mnemonic is that of data. -/
def IsData (mnemonic : String) : Prop :=
  (columns mnemonic).head? = some "DW".toList

theorem Hex.IsNumeral.blank_not_mem {least n : Nat} {text : List Char}
    (h : IsNumeral least n text) : ' ' ∉ text := by
  have hDigits : ' ' ∉ digitChars := by decide
  exact fun hMem => hDigits (h.mem_digitChars hMem)

/-- Up to the first blank stands the first column. -/
theorem columns_ofList {front : List Char} (h : ' ' ∉ front) (rest : List Char) :
    columns (String.ofList (front ++ ' ' :: rest)) = front :: columns (String.ofList rest) := by
  rw [columns, columns, String.toList_ofList, String.toList_ofList,
    List.splitOn_append_cons_self_of_not_mem h]

namespace Shows

variable {address : Nat} {bytes : List UInt8} {line : String}

theorem byteColumns_eq (h : Shows address bytes line) :
    byteColumns line = bytes.map fun byte => some byte.toNat := by
  cases h with
  | word hAddress hHigh hLow =>
      rw [byteColumns, columns_ofList hAddress.blank_not_mem, columns_ofList hHigh.blank_not_mem,
        columns_ofList hLow.blank_not_mem]
      simp [hHigh.value, hLow.value]
  | byte hAddress hByte =>
      rw [byteColumns, columns_ofList hAddress.blank_not_mem, columns, String.toList_ofList,
        List.splitOn_eq_singleton hByte.blank_not_mem]
      simp [hByte.value]

theorem mnemonicColumn_eq {high low : UInt8} (h : Shows address [high, low] line) :
    mnemonicColumn line = (Word.ofBytes high low).mnemonic := by
  cases h with
  | word hAddress hHigh hLow =>
      rw [mnemonicColumn, columns_ofList hAddress.blank_not_mem,
        columns_ofList hHigh.blank_not_mem, columns_ofList hLow.blank_not_mem,
        String.ofList_toList, List.drop_succ_cons, List.drop_succ_cons, List.drop_succ_cons,
        List.drop_zero, columns, List.intercalate_splitOn, String.ofList_toList]

end Shows

theorem shows_listingLine (address : UInt16) (high low : UInt8) :
    Shows address.toNat [high, low] (listingLine address high low) := by
  have hLine : listingLine address high low = String.ofList ((Hex.word 3 address).toList ++
      ' ' :: ((Hex.byte high).toList ++ ' ' :: ((Hex.byte low).toList ++
        ' ' :: (Word.ofBytes high low).mnemonic.toList))) := by
    apply String.toList_inj.mp
    simp [listingLine]
  rw [hLine]
  exact .word (Hex.isNumeral_word (by decide) address) (Hex.isNumeral_byte high)
    (Hex.isNumeral_byte low)

theorem shows_listing_single (address : UInt16) (byte : UInt8) :
    Shows address.toNat [byte] (Hex.word 3 address ++ " " ++ Hex.byte byte) := by
  have hLine : Hex.word 3 address ++ " " ++ Hex.byte byte =
      String.ofList ((Hex.word 3 address).toList ++ ' ' :: (Hex.byte byte).toList) := by
    apply String.toList_inj.mp
    simp
  rw [hLine]
  exact .byte (Hex.isNumeral_word (by decide) address) (Hex.isNumeral_byte byte)

theorem length_listing (address : UInt16) (program : List UInt8) :
    (listing address program).length = (program.length + 1) / 2 := by
  fun_induction listing address program with
  | case1 => rfl
  | case2 => simp
  | case3 address high low rest ih =>
      rw [List.length_cons, ih, List.length_cons, List.length_cons]
      omega

/-- Each line shows the next two bytes, or the last one. -/
theorem shows_listing (start : UInt16) (program : List UInt8) {k : Nat} {line : String}
    (h : (listing start program)[k]? = some line) :
    Shows ((start.toNat + 2 * k) % 65536) ((program.drop (2 * k)).take 2) line := by
  fun_induction listing start program generalizing k with
  | case1 => cases h
  | case2 start byte =>
      cases k with
      | zero =>
          obtain rfl := Option.some.inj h
          rw [Nat.mul_zero, Nat.add_zero, Nat.mod_eq_of_lt start.toNat_lt]
          exact shows_listing_single start byte
      | succ k => cases h
  | case3 start high low rest ih =>
      cases k with
      | zero =>
          obtain rfl := Option.some.inj h
          rw [Nat.mul_zero, Nat.add_zero, Nat.mod_eq_of_lt start.toNat_lt]
          exact shows_listingLine start high low
      | succ k =>
          have hAddress : ((start + 2).toNat + 2 * k) % 65536 =
              (start.toNat + 2 * (k + 1)) % 65536 := by
            rw [UInt16.toNat_add]
            change ((start.toNat + 2) % 65536 + 2 * k) % 65536 = _
            omega
          have hRest := ih h
          rw [hAddress] at hRest
          exact hRest

/-- The columns for bytes hold the bytes of the program, in order. -/
theorem flatMap_byteColumns_listing (start : UInt16) (program : List UInt8) :
    (listing start program).flatMap byteColumns = program.map fun byte => some byte.toNat := by
  fun_induction listing start program with
  | case1 => rfl
  | case2 start byte =>
      rw [List.flatMap_singleton, (shows_listing_single start byte).byteColumns_eq]
  | case3 start high low rest ih =>
      rw [List.flatMap_cons, (shows_listingLine start high low).byteColumns_eq, ih]
      rfl

theorem Word.toNat_ofBytes (high low : UInt8) :
    (ofBytes high low).toNat = high.toNat * 256 + low.toNat := by
  have hHigh := high.toNat_lt
  have hLow := low.toNat_lt
  exact UInt16.toNat_ofNat_of_lt' (show high.toNat * 256 + low.toNat < 65536 by omega)

theorem Word.ofBytes_injective {high low other next : UInt8}
    (h : ofBytes high low = ofBytes other next) : high = other ∧ low = next := by
  have hLow := low.toNat_lt
  have hNext := next.toNat_lt
  have hValue := congrArg UInt16.toNat h
  rw [toNat_ofBytes, toNat_ofBytes] at hValue
  exact ⟨UInt8.toNat_inj.mp (by omega), UInt8.toNat_inj.mp (by omega)⟩

/-- Programs of whole words are known from the mnemonics in their listings, if they are equally
long. -/
theorem eq_of_mnemonicColumns {start elsewhere : UInt16} {program other : List UInt8}
    (hLength : other.length = program.length) (hEven : program.length % 2 = 0)
    (h : (listing elsewhere other).map mnemonicColumn =
      (listing start program).map mnemonicColumn) : other = program := by
  fun_induction listing start program generalizing elsewhere other with
  | case1 => exact List.length_eq_zero_iff.mp hLength
  | case2 => cases hEven
  | case3 start high low rest ih =>
      obtain ⟨first, tail, rfl⟩ := List.exists_cons_of_length_eq_add_one hLength
      obtain ⟨next, later, rfl⟩ := List.exists_cons_of_length_eq_add_one (Nat.succ.inj hLength)
      obtain ⟨hWord, hRest⟩ := List.cons.inj h
      rw [(shows_listingLine elsewhere first next).mnemonicColumn_eq,
        (shows_listingLine start high low).mnemonicColumn_eq] at hWord
      obtain ⟨rfl, rfl⟩ := Word.ofBytes_injective (Word.mnemonic_injective hWord)
      have hEvenRest : rest.length % 2 = 0 := by
        rw [List.length_cons, List.length_cons] at hEven
        omega
      rw [ih (by simpa using hLength) hEvenRest hRest]

theorem Instruction.operation_assembly_ne (instruction : Instruction) :
    instruction.assembly.operation ≠ "DW" := by
  cases instruction with
  | skipIf condition => cases condition <;> simp [assembly, Condition.assembly]
  | arithmetic operation x y => cases operation <;> simp [assembly, Arithmetic.name]
  | _ => simp [assembly]

/-- The words shown as data are those that encode no instruction. -/
theorem Word.isData_mnemonic_iff (w : Word) : IsData w.mnemonic ↔ w.decode = none := by
  have hHead : (columns w.mnemonic).head? = some w.assembly.operation.toList :=
    Assembly.head?_splitOn_text w.isReadable_assembly.blank_not_mem
  rw [IsData, hHead, Option.some_inj, String.toList_inj]
  cases hDecode : w.decode with
  | some instruction =>
      rw [assembly_of_encodes (encodes_of_decode hDecode)]
      simp [instruction.operation_assembly_ne]
  | none => simp [assembly_of_decode_eq_none hDecode]

/-- A listing shows the words of a program in order, each with its address, and behind the last word
a byte that is left over. The program can be read from the columns for bytes, and one of whole words
also from the mnemonics, wherever it starts. A word is shown by the line of the instruction that it
decodes to. Words are shown as data exactly if they encode no instruction, and these are the words
that a machine passes over with the remark that it does not know them. -/
theorem listing_reads_back (start : UInt16) (program : List UInt8) :
    let lines := listing start program
    lines.length = (program.length + 1) / 2 ∧
    (∀ k line, lines[k]? = some line →
      Shows ((start.toNat + 2 * k) % 65536) ((program.drop (2 * k)).take 2) line) ∧
    lines.flatMap byteColumns = (program.map fun byte => some byte.toNat) ∧
    (∀ (elsewhere : UInt16) (other : List UInt8), other.length = program.length →
      program.length % 2 = 0 →
      (listing elsewhere other).map mnemonicColumn = lines.map mnemonicColumn →
        other = program) ∧
    ∀ word : Word, (IsData word.mnemonic ↔ word.decode = none) ∧
      word.assembly = (word.decode.map Instruction.assembly).getD ⟨"DW", [.word word]⟩ ∧
      ∀ (machine : Machine) (κ : Type) [KeyInput κ] (keys : κ), machine.upcoming? = some word →
        (IsData word.mnemonic ↔ .unknownWord machine.registers.pc word ∈
          (machine.step keys).outcome.notices) ∧
        (IsData word.mnemonic → machine.step keys =
          ⟨⟨machine.fetched word,
            machine.fetch.notices ++ [.unknownWord machine.registers.pc word], none⟩, keys⟩) := by
  refine ⟨length_listing start program, fun k line => shows_listing start program,
    flatMap_byteColumns_listing start program,
    fun elsewhere other => eq_of_mnemonicColumns, fun word => ?_⟩
  refine ⟨word.isData_mnemonic_iff, word.assembly_eq, fun machine κ _ keys hUpcoming => ?_⟩
  rw [word.isData_mnemonic_iff, Machine.unknownWord_mem_step_iff hUpcoming]
  exact ⟨by simp, fun hDecode => Machine.step_of_decode_eq_none hUpcoming hDecode keys⟩

example : listing 0xFFFE [0xD1, 0x25, 0x50, 0x01, 0x07] =
    ["FFFE D1 25 DRW V1, V2, 5", "000 50 01 DW 5001", "002 07"] := by
  decide

end Chip8
