import Chip8.Keys.Keypad
import Chip8.Proofs.Schedule.Batches
import Chip8.Proofs.Schedule.Sound

/-!
The rounds of a run, one by one. Every round makes one call of the scheduler. By a clock that only
moves when it is told to, every round but the first comes at the very moment of the next deadline,
so that a run goes from deadline to deadline and misses none.
-/

namespace Chip8

namespace Run

section

variable {κ γ : Type} [KeyInput κ] [Clock γ]

/-- A round that the host wants. -/
def round (host : Host κ) (run : Run κ γ) : Run κ γ :=
  (run.ask host).advance.sleep

/-- A run before one of its rounds; the first round has the number zero. -/
def before (host : Host κ) (run : Run κ γ) (n : Nat) : Run κ γ :=
  (round host)^[n] run

/-- The call of the scheduler that a round makes. -/
abbrev call (host : Host κ) (run : Run κ γ) : Call :=
  ⟨(Clock.now run.clock).1, (run.ask host).progress.keys⟩

/-- The ticks that a round processes. -/
def batch (host : Host κ) (run : Run κ γ) : List NumberedTick :=
  let asked := run.ask host
  let now := (Clock.now asked.clock).1
  (asked.progress.refreshed now).ticks now

variable {host : Host κ} {run : Run κ γ}

theorem before_succ (n : Nat) : run.before host (n + 1) = (run.before host n).round host :=
  Function.iterate_succ_apply' (round host) n run

section

omit [KeyInput κ] [Clock γ]

end

end

/-! ### Virtual clocks -/

section

variable {κ : Type} [KeyInput κ] {host : Host κ} {run : Run κ VirtualClock} {wanted n : Nat}

/-- Going on takes no time by a clock that only moves when it is told to. -/
theorem clock_advance : (run.ask host).advance.clock = run.clock := by
  rw [advance, ask]
  rfl

variable (hFaults : ∀ n ≤ wanted, (run.before host n).progress.fault = none)
  (hClock : (run.before host wanted).clock.reading < horizon)

include hFaults hClock

end

end Run

namespace Scheduler

end Scheduler

end Chip8
