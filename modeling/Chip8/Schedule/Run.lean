import Chip8.Schedule.Clock
import Chip8.Schedule.Progress

/-!
Runs. A run goes through rounds: the host is asked whether to go on and may touch the keys
meanwhile, then all that is due is processed, then the clock is slept on until more is due. A run
that the host ends falls silent; a run that a fault ends stops where it is.
-/

namespace Chip8

/-- What a host does to the keys when it is asked. The questions of a run are counted from one, so
that a host may act differently each time. -/
abbrev Host (κ : Type) := Nat → κ → Logged κ

/-- A run: the progress made, the clock, and how often the host has been asked. -/
structure Run (κ γ : Type) where
  progress : Progress κ
  clock : γ
  asked : Nat

namespace Run

variable {κ γ : Type}

/-- Asks the host once more; it may touch the keys. -/
def ask (run : Run κ γ) (host : Host κ) : Run κ γ :=
  let touched := host (run.asked + 1) run.progress.keys
  { run with
    progress := { run.progress with
      keys := touched.value
      notices := run.progress.notices.appendList touched.notices }
    asked := run.asked + 1 }

def note (run : Run κ γ) (notice : Notice) : Run κ γ :=
  { run with progress := { run.progress with notices := run.progress.notices.push notice } }

/-- Ends a run that the host does not want to go on. -/
def stop (run : Run κ γ) : Run κ γ :=
  let silenced := run.progress.scheduler.silence
  { run with progress := { run.progress with
      scheduler := silenced.1
      signals := run.progress.signals.appendList silenced.2 } }.note .stopped

variable [KeyInput κ] [Clock γ]

def advance (run : Run κ γ) : Run κ γ :=
  let time := Clock.now run.clock
  { run with progress := run.progress.advance time.1, clock := time.2 }

def sleep (run : Run κ γ) : Run κ γ :=
  { run with clock := Clock.sleepUntil run.clock run.progress.scheduler.timeline.nextDeadline }

/-- Goes through as many rounds as the host still wants; then it declines another one. A fault ends
the run before that, and the host is not asked again. -/
def rounds (host : Host κ) : Nat → Run κ γ → Run κ γ
  | 0, run => (run.ask host).stop
  | wanted + 1, run =>
    let advanced := (run.ask host).advance
    if advanced.progress.fault.isSome then advanced else rounds host wanted advanced.sleep

end Run

/-- Runs a scheduler by a clock for as many rounds as the host wants. -/
def Scheduler.run {κ γ : Type} [KeyInput κ] [Clock γ] (scheduler : Scheduler) (clock : γ) (keys : κ)
    (host : Host κ) (wanted : Nat) : Run κ γ :=
  let start : Run κ γ := ⟨.start scheduler keys, clock, 0⟩
  Run.rounds host wanted (start.note (.running scheduler.machine.config))

end Chip8
