import Chip8.Text.Hex

/-!
The ChaCha block function with twelve rounds, as a source of random words. A block mixes four
constants, a key of eight words and a counter of two words.
-/

namespace Chip8.ChaCha

/-- The sixteen words that a block is computed on. -/
abbrev State := Vector UInt32 16

/-- Rotates a word to the left. -/
def rotateLeft (w : UInt32) (bits : UInt32) : UInt32 :=
  (w <<< bits) ||| (w >>> (32 - bits))

/-- Rotates a word to the right. -/
def rotateRight (w : UInt32) (bits : UInt32) : UInt32 :=
  (w >>> bits) ||| (w <<< (32 - bits))

/-- Mixes four words of a state. -/
def quarterRound (s : State) (a b c d : Fin 16) : State :=
  let s := s.set a (s[a] + s[b])
  let s := s.set d (rotateLeft (s[d] ^^^ s[a]) 16)
  let s := s.set c (s[c] + s[d])
  let s := s.set b (rotateLeft (s[b] ^^^ s[c]) 12)
  let s := s.set a (s[a] + s[b])
  let s := s.set d (rotateLeft (s[d] ^^^ s[a]) 8)
  let s := s.set c (s[c] + s[d])
  s.set b (rotateLeft (s[b] ^^^ s[c]) 7)

/-- A round on the columns of the state, then one on its diagonals. -/
def doubleRound (s : State) : State :=
  let s := quarterRound s 0 4 8 12
  let s := quarterRound s 1 5 9 13
  let s := quarterRound s 2 6 10 14
  let s := quarterRound s 3 7 11 15
  let s := quarterRound s 0 5 10 15
  let s := quarterRound s 1 6 11 12
  let s := quarterRound s 2 7 8 13
  quarterRound s 3 4 9 14

def doubleRounds : Nat → State → State
  | 0, s => s
  | n + 1, s => doubleRounds n (doubleRound s)

/-- The state that block `counter` starts from. -/
def input (key : Vector UInt32 8) (counter : Nat) : State :=
  #v[0x61707865, 0x3320646e, 0x79622d32, 0x6b206574,
    key[0], key[1], key[2], key[3], key[4], key[5], key[6], key[7],
    UInt32.ofNat counter, UInt32.ofNat (counter / UInt32.size), 0, 0]

/-- Block `counter`: twelve rounds, then the words that they started from are added. -/
def block (key : Vector UInt32 8) (counter : Nat) : State :=
  Vector.zipWith (· + ·) (doubleRounds 6 (input key counter)) (input key counter)

end Chip8.ChaCha
