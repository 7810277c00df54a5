import Chip8.Instruction.Word

/-!
The words that encode an instruction. Each instruction belongs to a family of words; the digits that
do not carry its operands select it there. A word decodes to an instruction exactly if it encodes
it.
-/

namespace Chip8

/-- The digit that selects an operation within family 8. -/
def Arithmetic.digit : Arithmetic → Fin 16
  | .copy => 0x0
  | .or => 0x1
  | .and => 0x2
  | .xor => 0x3
  | .add => 0x4
  | .subtract => 0x5
  | .shiftRight => 0x6
  | .subtractFrom => 0x7
  | .shiftLeft => 0xE

namespace Word

/-- Whether a word encodes a skip on a condition. -/
def EncodesSkip (word : Word) : Condition → Prop
  | .byteEqual x k => word.family = 0x3 ∧ x = word.x ∧ k = word.low
  | .byteDiffers x k => word.family = 0x4 ∧ x = word.x ∧ k = word.low
  | .equal x y => word.family = 0x5 ∧ word.last = 0 ∧ x = word.x ∧ y = word.y
  | .differs x y => word.family = 0x9 ∧ word.last = 0 ∧ x = word.x ∧ y = word.y
  | .keyDown x => word.family = 0xE ∧ word.low = 0x9E ∧ x = word.x
  | .keyUp x => word.family = 0xE ∧ word.low = 0xA1 ∧ x = word.x

/-- Whether a word encodes an instruction. -/
def Encodes (word : Word) : Instruction → Prop
  | .clear => word = 0x00E0
  | .ret => word = 0x00EE
  | .hostRoutine target =>
    word.family = 0x0 ∧ word ≠ 0x00E0 ∧ word ≠ 0x00EE ∧ target = word.target
  | .jump target => word.family = 0x1 ∧ target = word.target
  | .call target => word.family = 0x2 ∧ target = word.target
  | .skipIf condition => word.EncodesSkip condition
  | .setByte x k => word.family = 0x6 ∧ x = word.x ∧ k = word.low
  | .addByte x k => word.family = 0x7 ∧ x = word.x ∧ k = word.low
  | .arithmetic operation x y =>
    word.family = 0x8 ∧ word.last = operation.digit ∧ x = word.x ∧ y = word.y
  | .setIndex target => word.family = 0xA ∧ target = word.target
  | .jumpOffset target => word.family = 0xB ∧ target = word.target
  | .random x mask => word.family = 0xC ∧ x = word.x ∧ mask = word.low
  | .draw x y rows => word.family = 0xD ∧ x = word.x ∧ y = word.y ∧ rows = word.last
  | .readDelay x => word.family = 0xF ∧ word.low = 0x07 ∧ x = word.x
  | .awaitKey x => word.family = 0xF ∧ word.low = 0x0A ∧ x = word.x
  | .setDelay x => word.family = 0xF ∧ word.low = 0x15 ∧ x = word.x
  | .setSound x => word.family = 0xF ∧ word.low = 0x18 ∧ x = word.x
  | .addIndex x => word.family = 0xF ∧ word.low = 0x1E ∧ x = word.x
  | .glyph x => word.family = 0xF ∧ word.low = 0x29 ∧ x = word.x
  | .decimal x => word.family = 0xF ∧ word.low = 0x33 ∧ x = word.x
  | .store x => word.family = 0xF ∧ word.low = 0x55 ∧ x = word.x
  | .load x => word.family = 0xF ∧ word.low = 0x65 ∧ x = word.x

variable {word : Word} {instruction : Instruction}

theorem family_lt (word : Word) : word.family < 16 := by
  have hWord := word.toNat_lt
  unfold family
  omega

theorem digit_of_arithmetic? {operation : Arithmetic} (h : word.arithmetic? = some operation) :
    word.last = operation.digit := by
  apply Fin.ext
  unfold arithmetic? at h
  split at h
  case h_10 => cases h
  all_goals
    next hLast =>
      obtain rfl := Option.some.inj h
      exact hLast

theorem arithmetic?_of_digit {operation : Arithmetic} (h : word.last = operation.digit) :
    word.arithmetic? = some operation := by
  unfold arithmetic?
  rw [h]
  cases operation <;> rfl

theorem encodes_of_system? (hFamily : word.family = 0xF) (h : word.system? = some instruction) :
    word.Encodes instruction := by
  unfold system? at h
  split at h
  case h_10 => cases h
  all_goals
    next hLow =>
      obtain rfl := Option.some.inj h
      exact ⟨hFamily, UInt8.toNat_inj.mp hLow, rfl⟩

theorem encodes_of_decode (h : word.decode = some instruction) : word.Encodes instruction := by
  unfold decode at h
  split at h
  case h_1 hFamily =>
    obtain rfl := Option.some.inj h
    by_cases hClear : word = 0x00E0
    · rw [if_pos hClear]
      exact hClear
    · by_cases hRet : word = 0x00EE
      · rw [if_neg hClear, if_pos hRet]
        exact hRet
      · rw [if_neg hClear, if_neg hRet]
        exact ⟨hFamily, hClear, hRet, rfl⟩
  case h_6 hFamily =>
    obtain ⟨hLast, hInstruction⟩ := Option.ite_none_right_eq_some.mp h
    obtain rfl := Option.some.inj hInstruction
    exact ⟨hFamily, hLast, rfl, rfl⟩
  case h_9 hFamily =>
    obtain ⟨operation, hOperation, rfl⟩ := Option.map_eq_some_iff.mp h
    exact ⟨hFamily, digit_of_arithmetic? hOperation, rfl, rfl⟩
  case h_10 hFamily =>
    obtain ⟨hLast, hInstruction⟩ := Option.ite_none_right_eq_some.mp h
    obtain rfl := Option.some.inj hInstruction
    exact ⟨hFamily, hLast, rfl, rfl⟩
  case h_15 hFamily =>
    split at h
    · next hLow =>
        obtain rfl := Option.some.inj h
        exact ⟨hFamily, hLow, rfl⟩
    · obtain ⟨hLow, hInstruction⟩ := Option.ite_none_right_eq_some.mp h
      obtain rfl := Option.some.inj hInstruction
      exact ⟨hFamily, hLow, rfl⟩
  case h_16 =>
    have hLess := word.family_lt
    have hFamily : word.family = 0xF := by grind
    exact encodes_of_system? hFamily h
  all_goals
    next hFamily =>
      obtain rfl := Option.some.inj h
      simp [Encodes, EncodesSkip, hFamily]

theorem decode_of_encodes (h : word.Encodes instruction) : word.decode = some instruction := by
  cases instruction with
  | clear =>
      obtain rfl : word = 0x00E0 := h
      rfl
  | ret =>
      obtain rfl : word = 0x00EE := h
      rfl
  | hostRoutine target =>
      obtain ⟨hFamily, hClear, hRet, rfl⟩ := h
      simp only [decode, hFamily, if_neg hClear, if_neg hRet]
  | skipIf condition =>
      cases condition <;> simp_all [Encodes, EncodesSkip, decode]
  | arithmetic operation x y =>
      obtain ⟨hFamily, hLast, rfl, rfl⟩ := h
      simp only [decode, hFamily, arithmetic?_of_digit hLast, Option.map_some]
  | _ => simp_all [Encodes, decode, system?]

/-- A word decodes to an instruction exactly if it encodes it. -/
theorem decode_eq_some_iff : word.decode = some instruction ↔ word.Encodes instruction :=
  ⟨encodes_of_decode, decode_of_encodes⟩

/-! The operands of a word and the digits that select its instruction make up the whole of it. -/

variable {other : Word}

theorem eq_of_target (hFamily : word.family = other.family) (hTarget : word.target = other.target) :
    word = other := by
  have hRest : word.toNat % 4096 = other.toNat % 4096 := congrArg Fin.val hTarget
  unfold family at hFamily
  exact UInt16.toNat_inj.mp (by omega)

theorem eq_of_low (hFamily : word.family = other.family) (hX : word.x = other.x)
    (hLow : word.low = other.low) : word = other := by
  have hSecond : word.toNat / 256 % 16 = other.toNat / 256 % 16 := congrArg Fin.val hX
  have hRest : word.toNat % 256 = other.toNat % 256 := by
    simpa only [low, UInt8.toNat_ofNat'] using congrArg UInt8.toNat hLow
  unfold family at hFamily
  exact UInt16.toNat_inj.mp (by omega)

theorem eq_of_last (hFamily : word.family = other.family) (hX : word.x = other.x)
    (hY : word.y = other.y) (hLast : word.last = other.last) : word = other := by
  have hSecond : word.toNat / 256 % 16 = other.toNat / 256 % 16 := congrArg Fin.val hX
  have hThird : word.toNat / 16 % 16 = other.toNat / 16 % 16 := congrArg Fin.val hY
  have hRest : word.toNat % 16 = other.toNat % 16 := congrArg Fin.val hLast
  unfold family at hFamily
  exact UInt16.toNat_inj.mp (by omega)

theorem eq_of_encodesSkip {condition : Condition} (hWord : word.EncodesSkip condition)
    (hOther : other.EncodesSkip condition) : word = other := by
  cases condition <;> simp only [EncodesSkip] at hWord hOther <;> grind [eq_of_low, eq_of_last]

/-- An instruction is encoded by one word only. -/
theorem eq_of_encodes (hWord : word.Encodes instruction) (hOther : other.Encodes instruction) :
    word = other := by
  cases instruction with
  | skipIf condition => exact eq_of_encodesSkip hWord hOther
  | _ =>
      simp only [Encodes] at hWord hOther
      grind [eq_of_target, eq_of_low, eq_of_last]

end Word

end Chip8
