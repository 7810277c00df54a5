/-!
Upper-case hexadecimal numerals. Addresses, words, registers and bytes are all written in this
form: a fixed number of digits for bytes, and a least number of digits for words.
-/

namespace Chip8

/-- Numerals and remainders may stand for values below sixteen, as there are some. Besides digits
these are registers, keys and the words of a random block. -/
instance sixteen_neZero : @NeZero Nat Zero.ofOfNat0 16 := ⟨by decide⟩

namespace Hex

/-- The digit of a value below sixteen: `0` to `9`, then `A` to `F`. -/
def digit (d : Fin 16) : Char :=
  if d.val < 10 then Char.ofNat (48 + d.val) else Char.ofNat (55 + d.val)

/-- The lowest `width` digits of a number, most significant first. -/
def digits : Nat → Nat → List Char
  | 0, _ => []
  | width + 1, n => digits width (n / 16) ++ [digit (Fin.ofNat 16 n)]

/-- How many digits a word needs; zero is written with one. -/
def size (w : UInt16) : Nat :=
  if w < 0x10 then 1 else if w < 0x100 then 2 else if w < 0x1000 then 3 else 4

/-- A word in at least `least` digits, padded with zeros on the left. -/
def word (least : Nat) (w : UInt16) : String :=
  String.ofList (digits (max least (size w)) w.toNat)

def byte (b : UInt8) : String :=
  String.ofList (digits 2 b.toNat)

/-- A single digit, as it stands in the name of a register. -/
def nibble (d : Fin 16) : String :=
  String.ofList [digit d]

theorem length_digits (width n : Nat) : (digits width n).length = width := by
  induction width generalizing n with
  | zero => rfl
  | succ width ih => simp [digits, ih]

theorem digit_injective {c d : Fin 16} (h : digit c = digit d) : c = d := by
  revert c d
  decide

end Hex

end Chip8
