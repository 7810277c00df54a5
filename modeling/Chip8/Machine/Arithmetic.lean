import Chip8.Instruction

/-!
The arithmetic of register operations. Each gives a byte and, for some of them, a flag: the carry
of an addition, the absence of a borrow, or the bit that a shift moved out.
-/

namespace Chip8

/-- A truth value as a register holds it. -/
def flagByte (b : Bool) : UInt8 :=
  if b then 1 else 0

/-- The result and the flag of an operation on `a`, the old Vx, and `b`, the old Vy. A shift works
on `a` if it is done in place, and on `b` otherwise. -/
def Arithmetic.apply (inPlace : Bool) (a b : UInt8) : Arithmetic → UInt8 × Option UInt8
  | .copy => (b, none)
  | .or => (a ||| b, none)
  | .and => (a &&& b, none)
  | .xor => (a ^^^ b, none)
  | .add => (a + b, some (flagByte (255 < a.toNat + b.toNat)))
  | .subtract => (a - b, some (flagByte (b ≤ a)))
  | .shiftRight =>
    let s := if inPlace then a else b
    (s / 2, some (s % 2))
  | .subtractFrom => (b - a, some (flagByte (a ≤ b)))
  | .shiftLeft =>
    let s := if inPlace then a else b
    (s * 2, some (s / 128))

/-- The decimal digits of a byte: hundreds, tens and ones. -/
def decimalDigits (value : UInt8) : List UInt8 :=
  [value / 100, value / 10 % 10, value % 10]

end Chip8
