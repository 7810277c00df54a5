import Chip8.Machine.Step
import Chip8.Schedule
import Chip8.Schedule.Exhaust

/-!
Progress of a scheduler. All ticks due at a moment are processed in order, each one once; a fault
ends the work right behind the tick that caused it. Signals and notices pile up in the order in
which they are given.
-/

namespace Chip8

/-- A scheduler, the keys, and all that has come of it so far. -/
structure Progress (κ : Type) where
  scheduler : Scheduler
  keys : κ
  /-- The instruction ticks processed without a fault. -/
  executed : Nat
  signals : Array Signal
  notices : Array Notice
  /-- The fault that ended the work. -/
  fault : Option Fault

namespace Progress

def start {κ : Type} (scheduler : Scheduler) (keys : κ) : Progress κ :=
  ⟨scheduler, keys, 0, #[], #[], none⟩

variable {κ : Type} [KeyInput κ]

/-- Counts a tick as processed, then processes it. -/
def perform (progress : Progress κ) (tick : Tick) : Progress κ :=
  let scheduler :=
    { progress.scheduler with timeline := progress.scheduler.timeline.pass tick }
  match tick with
  | .timer =>
    let ticked := scheduler.tickTimers
    { progress with
      scheduler := ticked.value.1
      signals := progress.signals.appendList ticked.value.2
      notices := progress.notices.appendList ticked.notices }
  | .instruction =>
    let stepped := scheduler.machine.step progress.keys
    { progress with
      scheduler := { scheduler with machine := stepped.outcome.machine }
      keys := stepped.keys
      executed := if stepped.outcome.fault.isNone then progress.executed + 1 else progress.executed
      notices := progress.notices.appendList stepped.outcome.notices
      fault := stepped.outcome.fault }

theorem timeline_perform (progress : Progress κ) (tick : Tick) :
    (progress.perform tick).scheduler.timeline = progress.scheduler.timeline.pass tick := by
  cases tick <;> simp [perform]

/-- The tick to process next at a moment. After a fault there is none. -/
def due? (now : Nat) (progress : Progress κ) : Option Tick :=
  if progress.fault.isSome then none else progress.scheduler.timeline.nextTick? now

/-- How many more ticks can become due. -/
def remaining (progress : Progress κ) : Nat :=
  progress.scheduler.timeline.remaining

theorem remaining_perform_lt (now : Nat) (progress : Progress κ) (tick : Tick)
    (h : progress.due? now = some tick) :
    (progress.perform tick).remaining < progress.remaining := by
  unfold due? at h
  split at h
  · contradiction
  · rw [remaining, timeline_perform]
    exact Timeline.remaining_pass_lt h

/-- Processes the ticks due at a moment until none is left or a fault occurs. -/
def catchUp (now : Nat) (progress : Progress κ) : Progress κ :=
  exhaust (due? now) perform remaining (remaining_perform_lt now) progress

/-- Goes on to a moment: all that is due then is processed, or skipped after a long stall. -/
def advance (progress : Progress κ) (now : Nat) : Progress κ :=
  let current := progress.scheduler.skipMissed now
  catchUp now { progress with
    scheduler := current.value
    notices := progress.notices.appendList current.notices }

end Progress

/-- Processes all that is due at a moment. -/
def Scheduler.advance {κ : Type} [KeyInput κ] (scheduler : Scheduler) (now : Nat) (keys : κ) :
    Progress κ :=
  (Progress.start scheduler keys).advance now

end Chip8
