import Chip8.Instruction.Assembly
import Chip8.Proofs.Instruction.Encoding

/-!
The two tables of words. One finds the instruction of a word, the other the line that shows it, and
neither consults the other. They agree: a word that decodes to an instruction is shown by the line
of that instruction, and every other word as data.
-/

namespace Chip8

/-- Skips are named for the comparison or the key state that they test. -/
def Condition.assembly : Condition → Assembly
  | .byteEqual x k => ⟨"SE", [.register x, .byte k]⟩
  | .byteDiffers x k => ⟨"SNE", [.register x, .byte k]⟩
  | .equal x y => ⟨"SE", [.register x, .register y]⟩
  | .differs x y => ⟨"SNE", [.register x, .register y]⟩
  | .keyDown x => ⟨"SKP", [.register x]⟩
  | .keyUp x => ⟨"SKNP", [.register x]⟩

def Arithmetic.name : Arithmetic → String
  | .copy => "LD"
  | .or => "OR"
  | .and => "AND"
  | .xor => "XOR"
  | .add => "ADD"
  | .subtract => "SUB"
  | .shiftRight => "SHR"
  | .subtractFrom => "SUBN"
  | .shiftLeft => "SHL"

/-- The line that stands for an instruction. -/
def Instruction.assembly : Instruction → Assembly
  | .clear => ⟨"CLS", []⟩
  | .ret => ⟨"RET", []⟩
  | .hostRoutine t => ⟨"SYS", [.target t]⟩
  | .jump t => ⟨"JP", [.target t]⟩
  | .call t => ⟨"CALL", [.target t]⟩
  | .skipIf condition => condition.assembly
  | .setByte x k => ⟨"LD", [.register x, .byte k]⟩
  | .addByte x k => ⟨"ADD", [.register x, .byte k]⟩
  | .arithmetic operation x y => ⟨operation.name, [.register x, .register y]⟩
  | .setIndex t => ⟨"LD", [.index, .target t]⟩
  | .jumpOffset t => ⟨"JP", [.register 0, .target t]⟩
  | .random x mask => ⟨"RND", [.register x, .byte mask]⟩
  | .draw x y n => ⟨"DRW", [.register x, .register y, .rows n]⟩
  | .readDelay x => ⟨"LD", [.register x, .delayTimer]⟩
  | .awaitKey x => ⟨"LD", [.register x, .keyPress]⟩
  | .setDelay x => ⟨"LD", [.delayTimer, .register x]⟩
  | .setSound x => ⟨"LD", [.soundTimer, .register x]⟩
  | .addIndex x => ⟨"ADD", [.index, .register x]⟩
  | .glyph x => ⟨"LD", [.glyphOf, .register x]⟩
  | .decimal x => ⟨"LD", [.decimalOf, .register x]⟩
  | .store x => ⟨"LD", [.cells, .register x]⟩
  | .load x => ⟨"LD", [.register x, .cells]⟩

namespace Word

theorem toNat_low (w : Word) : w.low.toNat = 16 * w.y.val + w.last.val := by
  change w.toNat % 256 = 16 * (w.toNat / 16 % 16) + w.toNat % 16
  omega

theorem digits_of_low {w : Word} {k : UInt8} (h : w.low = k) :
    w.y.val = k.toNat / 16 ∧ w.last.val = k.toNat % 16 := by
  have := w.toNat_low
  rw [h] at this
  omega

theorem low_eq (w : Word) : w.low = UInt8.ofNat (16 * w.y.val + w.last.val) := by
  rw [← toNat_low, UInt8.ofNat_toNat]

theorem eq_of_nibbles {v w : Word} (h : v.nibbles = w.nibbles) : v = w := by
  simp only [nibbles, Prod.mk.injEq] at h
  exact eq_of_last h.1 (Fin.ext h.2.1) (Fin.ext h.2.2.1) (Fin.ext h.2.2.2)

variable {w : Word} {instruction : Instruction}

/-! The words of an instruction are found in the row that shows it. -/

theorem assembly_of_encodesSkip {condition : Condition} (h : w.EncodesSkip condition) :
    w.assembly = condition.assembly := by
  cases condition with
  | byteEqual x k | byteDiffers x k =>
      obtain ⟨hFamily, rfl, rfl⟩ := h
      simp only [assembly, nibbles, hFamily, Condition.assembly]
  | equal x y | differs x y =>
      obtain ⟨hFamily, hLast, rfl, rfl⟩ := h
      simp only [assembly, nibbles, hFamily, hLast, Condition.assembly]
      rfl
  | keyDown x | keyUp x =>
      obtain ⟨hFamily, hLow, rfl⟩ := h
      obtain ⟨hY, hLast⟩ := digits_of_low hLow
      simp only [assembly, nibbles, hFamily, hY, hLast, Condition.assembly]
      rfl

theorem assembly_of_encodes (h : w.Encodes instruction) : w.assembly = instruction.assembly := by
  cases instruction with
  | clear =>
      obtain rfl : w = 0x00E0 := h
      rfl
  | ret =>
      obtain rfl : w = 0x00EE := h
      rfl
  | hostRoutine target =>
      obtain ⟨hFamily, hClear, hRet, rfl⟩ := h
      have hNotClear : w.x.val = 0x0 → w.y.val = 0xE → w.last.val = 0x0 → False :=
        fun hX hY hLast => hClear (eq_of_nibbles (by rw [nibbles, hFamily, hX, hY, hLast]; rfl))
      have hNotRet : w.x.val = 0x0 → w.y.val = 0xE → w.last.val = 0xE → False :=
        fun hX hY hLast => hRet (eq_of_nibbles (by rw [nibbles, hFamily, hX, hY, hLast]; rfl))
      simp only [assembly, nibbles, hFamily, Instruction.assembly]
  | skipIf condition => exact assembly_of_encodesSkip h
  | arithmetic operation x y =>
      obtain ⟨hFamily, hLast, rfl, rfl⟩ := h
      cases operation <;> simp only [assembly, nibbles, hFamily, hLast] <;> rfl
  | jump | call | setIndex | jumpOffset =>
      obtain ⟨hFamily, rfl⟩ := h
      simp only [assembly, nibbles, hFamily, Instruction.assembly]
  | setByte | addByte | random =>
      obtain ⟨hFamily, rfl, rfl⟩ := h
      simp only [assembly, nibbles, hFamily, Instruction.assembly]
  | draw =>
      obtain ⟨hFamily, rfl, rfl, rfl⟩ := h
      simp only [assembly, nibbles, hFamily, Instruction.assembly]
  | _ =>
      obtain ⟨hFamily, hLow, rfl⟩ := h
      obtain ⟨hY, hLast⟩ := digits_of_low hLow
      simp only [assembly, nibbles, hFamily, hY, hLast]
      rfl

theorem assembly_of_decode_eq_none (h : w.decode = none) : w.assembly = ⟨"DW", [.word w]⟩ := by
  have hDiffers : (0xA1 : UInt8) ≠ 0x9E := by decide
  unfold assembly
  split
  case h_36 => rfl
  all_goals
    next hN =>
      simp only [nibbles, Prod.mk.injEq] at hN
      obtain ⟨hFamily, hX, hY, hLast⟩ := hN
      -- The nibbles that a row asks for lead the decoder to an instruction.
      simp only [decode, hFamily, hY, hLast, arithmetic?, system?, low_eq, Fin.ext_iff,
        Fin.val_zero, Option.map_some, if_true, if_neg hDiffers, Nat.reduceMul, Nat.reduceAdd,
        UInt8.reduceOfNat, UInt8.reduceToNat, reduceCtorEq] at h

/-- The line of a word is that of its instruction; without one it shows the word as data. -/
theorem assembly_eq (w : Word) :
    w.assembly = (w.decode.map Instruction.assembly).getD ⟨"DW", [.word w]⟩ := by
  cases hDecode : w.decode with
  | some instruction => exact assembly_of_encodes (encodes_of_decode hDecode)
  | none => exact assembly_of_decode_eq_none hDecode

end Word

end Chip8
