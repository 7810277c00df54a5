/-!
Timelines. Instructions are due at one rate and timer ticks at sixty a second. All moments are
whole nanoseconds and counted from an origin, so that nothing is lost to rounding or to a late
call: tick `n` of a rate is due `n / rate` seconds after the origin, rounded down.
-/

namespace Chip8

/-- What can be due. -/
inductive Tick
  | instruction
  | timer
  deriving DecidableEq

def second : Nat := 1000000000

def timerRate : Nat := 60

/-- The longest time after the origin that a moment can be told apart at. -/
def horizon : Nat := UInt64.size - 1

/-- When tick `n` of a rate is due, counted from the origin. -/
def tickMoment (rate n : Nat) : Nat :=
  min (n * second / rate) horizon

/-- The ticks that have been passed since an origin. -/
structure Timeline where
  rate : Nat
  rate_pos : 0 < rate
  origin : Nat
  instructions : Nat
  timerTicks : Nat
  deriving DecidableEq

namespace Timeline

def nextInstruction (timeline : Timeline) : Nat :=
  timeline.origin + tickMoment timeline.rate (timeline.instructions + 1)

def nextTimer (timeline : Timeline) : Nat :=
  timeline.origin + tickMoment timerRate (timeline.timerTicks + 1)

/-- The earliest moment at which something is due. -/
def nextDeadline (timeline : Timeline) : Nat :=
  min timeline.nextInstruction timeline.nextTimer

/-- Whether a moment has come. At the horizon none ever comes. -/
def Reached (timeline : Timeline) (now moment : Nat) : Prop :=
  moment ≤ now ∧ moment < timeline.origin + horizon

instance (timeline : Timeline) (now moment : Nat) : Decidable (timeline.Reached now moment) :=
  inferInstanceAs (Decidable (_ ∧ _))

/-- The tick to process next, if one is due. Of two ticks due at the same moment the timer goes
first. -/
def nextTick? (timeline : Timeline) (now : Nat) : Option Tick :=
  if timeline.nextTimer ≤ timeline.nextInstruction ∧ timeline.Reached now timeline.nextTimer then
    some .timer
  else if timeline.Reached now timeline.nextInstruction then
    some .instruction
  else
    none

def pass (timeline : Timeline) : Tick → Timeline
  | .instruction => { timeline with instructions := timeline.instructions + 1 }
  | .timer => { timeline with timerTicks := timeline.timerTicks + 1 }

def restart (timeline : Timeline) (now : Nat) : Timeline :=
  { timeline with origin := now, instructions := 0, timerTicks := 0 }

/-- A bound on the ticks that can still become due. -/
def remaining (timeline : Timeline) : Nat :=
  (horizon * timeline.rate - timeline.instructions) + (horizon * timerRate - timeline.timerTicks)

theorem lt_of_tickMoment_lt {rate n : Nat} (hRate : 0 < rate) (h : tickMoment rate n < horizon) :
    n < horizon * rate := by
  have hDiv : n * second / rate < horizon := by
    unfold tickMoment at h
    omega
  have hMul : n * second < horizon * rate := (Nat.div_lt_iff_lt_mul hRate).mp hDiv
  have : n ≤ n * second := Nat.le_mul_of_pos_right n (by decide)
  omega

/-- Processing a due tick uses up one of the ticks that remain. -/
theorem remaining_pass_lt {timeline : Timeline} {now : Nat} {tick : Tick}
    (h : timeline.nextTick? now = some tick) :
    (timeline.pass tick).remaining < timeline.remaining := by
  unfold nextTick? at h
  split at h
  · next hDue =>
    obtain rfl := Option.some.inj h
    have hLt : tickMoment timerRate (timeline.timerTicks + 1) < horizon := by
      have := hDue.2.2
      unfold nextTimer at this
      omega
    have := lt_of_tickMoment_lt (by decide) hLt
    simp only [pass, remaining]
    omega
  · split at h
    · next hDue =>
      obtain rfl := Option.some.inj h
      have hLt : tickMoment timeline.rate (timeline.instructions + 1) < horizon := by
        have := hDue.2
        unfold nextInstruction at this
        omega
      have := lt_of_tickMoment_lt timeline.rate_pos hLt
      simp only [pass, remaining]
      omega
    · contradiction

end Timeline

end Chip8
