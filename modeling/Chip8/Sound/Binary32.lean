/-!
Numbers of the binary32 format, as far as a tone generator needs them. Every finite one is a whole
number of units of 2^-149. A sum is therefore taken exactly, in units, and rounded once.
-/

namespace Chip8

/-- A number, by the bits that encode it: a sign, eight bits of exponent, 23 bits of fraction. -/
structure Binary32 where
  bits : UInt32
  deriving DecidableEq

namespace Binary32

/-- The bits of positive infinity; the magnitudes above them are no numbers. -/
def infinityBits : Nat := 0x7F800000

/-- The weight of the sign bit. -/
def signBit : Nat := 0x80000000

/-- The weight of the lowest bit of the exponent, which is behind all bits of the fraction. -/
def exponentBit : Nat := 0x800000

/-- The number one, in units. -/
def one : Nat := 1 <<< 149

def isNegative (a : Binary32) : Bool :=
  signBit ≤ a.bits.toNat

def magnitudeBits (a : Binary32) : Nat :=
  a.bits.toNat % signBit

def isNaN (a : Binary32) : Bool :=
  infinityBits < a.magnitudeBits

def isInfinite (a : Binary32) : Bool :=
  a.magnitudeBits = infinityBits

/-- The distance of a finite number from zero, in units. -/
def magnitude (a : Binary32) : Nat :=
  let exponent := a.magnitudeBits / exponentBit
  let fraction := a.magnitudeBits % exponentBit
  if exponent = 0 then fraction else (exponentBit + fraction) <<< (exponent - 1)

/-- The value of a finite number, in units. -/
def units (a : Binary32) : Int :=
  if a.isNegative then -(a.magnitude : Int) else a.magnitude

/-- The number with a sign and a magnitude in bits. -/
def ofParts (negative : Bool) (magnitudeBits : Nat) : Binary32 :=
  ⟨UInt32.ofNat (magnitudeBits + if negative then signBit else 0)⟩

/-- Half to even: `n / 2^e`, rounded to the nearest whole number, of two to the even one. -/
def roundShift (n e : Nat) : Nat :=
  let unit := 1 <<< e
  let quotient := n / unit
  let rest := n % unit
  if unit < 2 * rest ∨ (unit = 2 * rest ∧ quotient % 2 = 1) then quotient + 1 else quotient

/-- The magnitude bits of the number nearest to a magnitude in units. A carry out of the fraction
raises the exponent, and beyond the greatest number there is infinity. -/
def nearestBits (magnitude : Nat) : Nat :=
  if magnitude < 2 * exponentBit then magnitude
  else
    let e := magnitude.log2 - 23
    min (e * exponentBit + roundShift magnitude e) infinityBits

/-- The answer to a sum or a remainder that has none. -/
def undefinedResult : Binary32 := ⟨0xFFC00000⟩

/-- What is no number stays so in every result, with its quiet bit set. -/
def quiet (a : Binary32) : Binary32 :=
  ⟨a.bits ||| 0x00400000⟩

def negate (a : Binary32) : Binary32 :=
  ofParts (!a.isNegative) a.magnitudeBits

/-- The sum, rounded to nearest. A zero sum is negative only if both numbers are. -/
def add (a b : Binary32) : Binary32 :=
  if a.isNaN then a.quiet
  else if b.isNaN then b.quiet
  else if a.isInfinite then
    if b.isInfinite ∧ a.isNegative ≠ b.isNegative then undefinedResult else a
  else if b.isInfinite then b
  else
    let sum := a.units + b.units
    if sum = 0 then ofParts (a.isNegative && b.isNegative) 0
    else ofParts (sum < 0) (nearestBits sum.natAbs)

/-- The part behind the point, with the sign of the whole. It needs no rounding. -/
def fraction (a : Binary32) : Binary32 :=
  if a.isNaN then a.quiet
  else if a.isInfinite then undefinedResult
  else ofParts a.isNegative (nearestBits (a.magnitude % one))

/-- Whether a number is at most one half. -/
def atMostHalf (a : Binary32) : Bool :=
  if a.isNaN then false
  else if a.isInfinite then a.isNegative
  else 2 * a.units ≤ one

end Binary32

end Chip8
