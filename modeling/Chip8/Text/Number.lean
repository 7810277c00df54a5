/-!
Whole numbers as people type them: decimal digits, perhaps behind a sign. Zeros in front do not
matter, and nothing but ASCII digits counts as a digit.
-/

namespace Chip8

/-- The number that decimal digits stand for. -/
def digitsValue? : List Char → Option Nat
  | [] => none
  | digits =>
    if digits.all Char.isDigit then
      some (digits.foldl (fun n c => 10 * n + (c.toNat - '0'.toNat)) 0)
    else none

/-- A whole number: decimal digits, perhaps behind a sign. -/
def wholeNumber? (text : String) : Option Int :=
  match text.toList with
  | '+' :: digits => (digitsValue? digits).map Int.ofNat
  | '-' :: digits => (digitsValue? digits).map fun n => -Int.ofNat n
  | digits => (digitsValue? digits).map Int.ofNat

end Chip8
