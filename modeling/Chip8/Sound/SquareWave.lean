import Chip8.Sound.Binary32

/-!
The tone: a square wave. Its phase goes around from zero to one; in the first half of a turn the
samples are the volume, in the second half its negative.
-/

namespace Chip8

/-- A wave, where it is in its turn, and how far each sample moves it. -/
structure SquareWave where
  phaseStep : Binary32
  phase : Binary32
  volume : Binary32
  deriving DecidableEq

namespace SquareWave

def sample (wave : SquareWave) : Binary32 :=
  if wave.phase.atMostHalf then wave.volume else wave.volume.negate

def next (wave : SquareWave) : SquareWave :=
  { wave with phase := (wave.phase.add wave.phaseStep).fraction }

/-- The next `n` samples, and the wave after them. -/
def samples : Nat → SquareWave → List Binary32 × SquareWave
  | 0, wave => ([], wave)
  | n + 1, wave =>
    let rest := samples n wave.next
    (wave.sample :: rest.1, rest.2)

end SquareWave

end Chip8
