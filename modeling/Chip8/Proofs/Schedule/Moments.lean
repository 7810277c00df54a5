import Chip8.Schedule.Timeline

/-!
The moments of ticks in exact arithmetic, and the number of ticks up to a time. A second holds as
many ticks of a rate as the rate says, wherever it begins.
-/

namespace Chip8

/-- When tick `n` of a rate is due after the origin: `n / rate` seconds, rounded down. -/
def tickOffset (rate n : Nat) : Nat :=
  n * second / rate

/-- How many ticks of a rate are due up to a time after the origin. -/
def ticksBy (rate time : Nat) : Nat :=
  ((time + 1) * rate - 1) / second

theorem tickMoment_eq_min (rate n : Nat) : tickMoment rate n = min (tickOffset rate n) horizon :=
  rfl

@[simp] theorem tickOffset_zero (rate : Nat) : tickOffset rate 0 = 0 := by
  simp [tickOffset]

theorem tickOffset_mono (rate : Nat) {m n : Nat} (h : m ≤ n) :
    tickOffset rate m ≤ tickOffset rate n :=
  Nat.div_le_div_right (Nat.mul_le_mul_right second h)

theorem tickMoment_mono (rate : Nat) {m n : Nat} (h : m ≤ n) :
    tickMoment rate m ≤ tickMoment rate n := by
  have hOffset := tickOffset_mono rate h
  simp only [tickMoment_eq_min]
  omega

theorem tickOffset_lt_iff {rate n time : Nat} (hRate : 0 < rate) :
    tickOffset rate n < time ↔ n * second < time * rate :=
  Nat.div_lt_iff_lt_mul hRate

theorem le_tickOffset_iff {rate n time : Nat} (hRate : 0 < rate) :
    time ≤ tickOffset rate n ↔ time * rate ≤ n * second :=
  Nat.le_div_iff_mul_le hRate

theorem tickOffset_le_iff {rate n time : Nat} (hRate : 0 < rate) :
    tickOffset rate n ≤ time ↔ n ≤ ticksBy rate time := by
  have hPos : 0 < (time + 1) * rate := Nat.mul_pos (by omega) hRate
  rw [← Nat.lt_add_one_iff, tickOffset_lt_iff hRate, ticksBy, Nat.le_div_iff_mul_le (by decide)]
  omega

theorem ticksBy_add_second (rate time : Nat) (hRate : 0 < rate) :
    ticksBy rate (time + second) = ticksBy rate time + rate := by
  have hPos : 0 < (time + 1) * rate := Nat.mul_pos (by omega) hRate
  have hSplit : (time + second + 1) * rate - 1 = ((time + 1) * rate - 1) + second * rate := by
    rw [show time + second + 1 = (time + 1) + second by omega, Nat.add_mul]
    omega
  rw [ticksBy, ticksBy, hSplit, Nat.add_mul_div_left _ _ (by decide)]

end Chip8
