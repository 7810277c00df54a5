import Chip8.Fault

/-!
The settings of a machine. Interpreters of the past disagree on each of them.
-/

namespace Chip8

/-- How fast a machine runs, and which of the disputed behaviours it shows. -/
structure Config where
  frequency : UInt32 := 500
  /-- Block transfers leave I alone instead of moving it behind the block. -/
  keepIndex : Bool := false
  /-- Shifts take their operand from Vx instead of Vy. -/
  shiftInPlace : Bool := true
  /-- Sprites wrap around the edges of the screen instead of being clipped. -/
  wrap : Bool := true
  /-- Accesses out of range and stack faults stop the machine instead of being passed over. -/
  strict : Bool := false
  deriving DecidableEq

def Config.validate (config : Config) : Except Fault Unit :=
  if config.frequency = 0 then .error .zeroFrequency else .ok ()

theorem Config.frequency_pos_of_validate (config : Config) {u : Unit}
    (h : config.validate = .ok u) : 0 < config.frequency.toNat := by
  unfold validate at h
  split at h
  · contradiction
  · next hFrequency =>
    have : config.frequency.toNat ≠ 0 := fun hZero => hFrequency (UInt32.toNat_inj.mp hZero)
    omega

end Chip8
