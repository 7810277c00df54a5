/-!
Clocks. A clock is read in nanoseconds from some starting point of its own, and can be slept on.
-/

namespace Chip8

/-- Something that tells the time. Reading it may change it, as time goes on meanwhile. -/
class Clock (γ : Type) where
  /-- The time, and the clock after it was read. -/
  now : γ → Nat × γ
  /-- The clock after a sleep that ends no earlier than a deadline. -/
  sleepUntil : γ → Nat → γ

/-- A clock that only moves when it is told to. A sleep on it takes no longer than it must. -/
structure VirtualClock where
  reading : Nat
  deriving DecidableEq

namespace VirtualClock

def initial : VirtualClock := ⟨0⟩

def advance (clock : VirtualClock) (nanoseconds : Nat) : VirtualClock :=
  ⟨clock.reading + nanoseconds⟩

/-- Moves the clock to a deadline; a deadline in the past leaves it where it is. -/
def sleepUntil (clock : VirtualClock) (deadline : Nat) : VirtualClock :=
  ⟨max clock.reading deadline⟩

instance : Clock VirtualClock where
  now clock := (clock.reading, clock)
  sleepUntil := sleepUntil

end VirtualClock

end Chip8
