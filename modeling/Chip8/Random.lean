import Chip8.Random.ChaCha

/-!
Random numbers. A source is an endless sequence of words and a position in it; nothing but taking a
number moves the position. The sequence that a program runs with is one that a seed determines.
-/

namespace Chip8

/-- A sequence of numbers, and how many of them have been taken. -/
structure RandomSource where
  numbers : Nat → UInt32
  position : Nat

namespace RandomSource

/-- Takes the next number and keeps its low byte. -/
def nextByte (source : RandomSource) : UInt8 × RandomSource :=
  ((source.numbers source.position).toUInt8, { source with position := source.position + 1 })

/-- The state of the generator that stretches a seed into a key, one step on. -/
def stretch (state : UInt64) : UInt64 :=
  state * 6364136223846793005 + 11634580027462260723

/-- The word that a state of that generator stands for. -/
def stretchedWord (state : UInt64) : UInt32 :=
  ChaCha.rotateRight (((state >>> 18) ^^^ state) >>> 27).toUInt32 (state >>> 59).toUInt32

/-- The next `n` words that a seed is stretched into. -/
def keyWords : (n : Nat) → UInt64 → List UInt32
  | 0, _ => []
  | n + 1, state => stretchedWord (stretch state) :: keyWords n (stretch state)

theorem length_keyWords (n : Nat) (state : UInt64) : (keyWords n state).length = n := by
  induction n generalizing state with
  | zero => rfl
  | succ n ih => simp [keyWords, ih]

/-- Number `n` of the sequence of a key, counting from zero. -/
def number (key : Vector UInt32 8) (n : Nat) : UInt32 :=
  (ChaCha.block key (n / 16))[n % 16]

/-- The source of a seed, with no number taken. -/
def ofSeed (seed : UInt64) : RandomSource where
  numbers := number ⟨(keyWords 8 seed).toArray, by simp [length_keyWords]⟩
  position := 0

end RandomSource

end Chip8
