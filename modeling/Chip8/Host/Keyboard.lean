import Chip8.Keys.Keypad

/-!
The keypad on a keyboard. Its sixteen keys lie on the four left columns of letters and digits, so
that they keep their places. Keys are named by scan codes, hence by where they are and not by what
is printed on them.
-/

namespace Chip8

/-- The scan code of a letter or digit on a keyboard in the common layout. -/
def scanCode (c : Char) : Nat :=
  if c = '0' then 39
  else if c.isDigit then c.toNat - '1'.toNat + 30
  else c.toNat - 'A'.toNat + 4

/-- Which key of the keypad lies where, row by row. -/
def keyboardLayout : List (Char × Key) := [
  ('1', 0x1), ('2', 0x2), ('3', 0x3), ('4', 0xC),
  ('Q', 0x4), ('W', 0x5), ('E', 0x6), ('R', 0xD),
  ('A', 0x7), ('S', 0x8), ('D', 0x9), ('F', 0xE),
  ('Z', 0xA), ('X', 0x0), ('C', 0xB), ('V', 0xF)]

/-- The key of the keypad that a scan code stands for, if it stands for one. -/
def Key.ofScanCode? (code : Nat) : Option Key :=
  (keyboardLayout.find? fun place => scanCode place.1 == code).map (·.2)

end Chip8
