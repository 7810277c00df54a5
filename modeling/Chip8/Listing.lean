import Chip8.Instruction.Assembly

/-!
Listings of programs. Each line shows an address, the bytes found there and what they mean as an
instruction. Data that a program carries is listed as if it were code.
-/

namespace Chip8

/-- The line of a word: its address, its two bytes and its mnemonic. -/
def listingLine (address : UInt16) (high low : UInt8) : String :=
  Hex.word 3 address ++ " " ++ Hex.byte high ++ " " ++ Hex.byte low ++ " " ++
    (Word.ofBytes high low).mnemonic

/-- The listing of a program that starts at `address`. A last byte without a partner stands
alone. Addresses wrap around after the sixteenth bit. -/
def listing (address : UInt16) : List UInt8 → List String
  | [] => []
  | [byte] => [Hex.word 3 address ++ " " ++ Hex.byte byte]
  | high :: low :: rest => listingLine address high low :: listing (address + 2) rest

end Chip8
