import Chip8.Instruction

/-!
Words and what they encode. An instruction is two bytes, the first one high. The topmost nibble
selects a family; the remaining nibbles carry operands, or select within the family.
-/

namespace Chip8

/-- Two bytes of a program, joined. -/
abbrev Word := UInt16

namespace Word

/-- Joins two consecutive bytes, the first one high. -/
def ofBytes (high low : UInt8) : Word :=
  UInt16.ofNat (high.toNat * 256 + low.toNat)

/-- The topmost nibble, `[f___]`. -/
def family (w : Word) : Nat := w.toNat / 4096

/-- The register in the second nibble, `[_x__]`. -/
def x (w : Word) : Register := Fin.ofNat 16 (w.toNat / 256)

/-- The register in the third nibble, `[__y_]`. -/
def y (w : Word) : Register := Fin.ofNat 16 (w.toNat / 16)

/-- The last nibble, `[___n]`. -/
def last (w : Word) : Fin 16 := Fin.ofNat 16 w.toNat

/-- The low byte, `[__kk]`. -/
def low (w : Word) : UInt8 := UInt8.ofNat w.toNat

/-- All but the topmost nibble, `[_nnn]`. -/
def target (w : Word) : Target := Fin.ofNat 4096 w.toNat

/-- The four nibbles, the topmost first. -/
def nibbles (w : Word) : Nat × Nat × Nat × Nat :=
  (w.family, w.x.val, w.y.val, w.last.val)

/-- The operation that the last nibble selects in family 8. -/
def arithmetic? (w : Word) : Option Arithmetic :=
  match w.last.val with
  | 0x0 => some .copy
  | 0x1 => some .or
  | 0x2 => some .and
  | 0x3 => some .xor
  | 0x4 => some .add
  | 0x5 => some .subtract
  | 0x6 => some .shiftRight
  | 0x7 => some .subtractFrom
  | 0xE => some .shiftLeft
  | _ => none

/-- The instruction that the low byte selects in family F. -/
def system? (w : Word) : Option Instruction :=
  match w.low.toNat with
  | 0x07 => some (.readDelay w.x)
  | 0x0A => some (.awaitKey w.x)
  | 0x15 => some (.setDelay w.x)
  | 0x18 => some (.setSound w.x)
  | 0x1E => some (.addIndex w.x)
  | 0x29 => some (.glyph w.x)
  | 0x33 => some (.decimal w.x)
  | 0x55 => some (.store w.x)
  | 0x65 => some (.load w.x)
  | _ => none

/-- The instruction that a word encodes, if it encodes one. -/
def decode (w : Word) : Option Instruction :=
  match w.family with
  | 0x0 => some (if w = 0x00E0 then .clear else if w = 0x00EE then .ret else .hostRoutine w.target)
  | 0x1 => some (.jump w.target)
  | 0x2 => some (.call w.target)
  | 0x3 => some (.skipIf (.byteEqual w.x w.low))
  | 0x4 => some (.skipIf (.byteDiffers w.x w.low))
  | 0x5 => if w.last = 0 then some (.skipIf (.equal w.x w.y)) else none
  | 0x6 => some (.setByte w.x w.low)
  | 0x7 => some (.addByte w.x w.low)
  | 0x8 => w.arithmetic?.map fun operation => .arithmetic operation w.x w.y
  | 0x9 => if w.last = 0 then some (.skipIf (.differs w.x w.y)) else none
  | 0xA => some (.setIndex w.target)
  | 0xB => some (.jumpOffset w.target)
  | 0xC => some (.random w.x w.low)
  | 0xD => some (.draw w.x w.y w.last)
  | 0xE =>
    if w.low = 0x9E then some (.skipIf (.keyDown w.x))
    else if w.low = 0xA1 then some (.skipIf (.keyUp w.x))
    else none
  | _ => w.system?

end Word

end Chip8
