import Chip8.Machine
import Chip8.Schedule.Timeline

/-!
A scheduler drives a machine along a timeline: the machine steps at every instruction tick, and at
every timer tick its timers count down, its screen is shown and its sound is switched. After a
stall of more than a second the missed ticks are skipped instead of replayed.
-/

namespace Chip8

/-- What a scheduler asks of the outside world. -/
inductive Signal
  | render (screen : Screen)
  | soundStart
  | soundStop
  deriving DecidableEq

/-- A machine, its timeline, and whether the sound has been switched on. -/
structure Scheduler where
  machine : Machine
  timeline : Timeline
  soundOn : Bool

/-- How far a timeline may fall behind before the missed ticks are skipped. -/
def maxLag : Nat := second

namespace Scheduler

/-- A scheduler at the start of time. The settings of the machine must be valid. -/
def ofMachine (machine : Machine) : Except Fault Scheduler :=
  match h : machine.config.validate with
  | .error fault => .error fault
  | .ok () => .ok {
      machine := machine
      timeline := {
        rate := machine.config.frequency.toNat
        rate_pos := machine.config.frequency_pos_of_validate h
        origin := 0
        instructions := 0
        timerTicks := 0 }
      soundOn := false }

/-- Starts the timeline anew if it has fallen too far behind. -/
def skipMissed (scheduler : Scheduler) (now : Nat) : Logged Scheduler :=
  let deadline := scheduler.timeline.nextDeadline
  if deadline + maxLag < now then
    ⟨{ scheduler with timeline := scheduler.timeline.restart now },
      [.ticksSkipped (now - deadline)]⟩
  else
    pure scheduler

/-- Switches the sound on or off, if the sound timer asks for it. -/
def followSound (scheduler : Scheduler) : Logged (Scheduler × List Signal) :=
  match scheduler.machine.registers.isAudible, scheduler.soundOn with
  | true, false => ⟨({ scheduler with soundOn := true }, [.soundStart]), [.soundOn]⟩
  | false, true => ⟨({ scheduler with soundOn := false }, [.soundStop]), [.soundOff]⟩
  | _, _ => pure (scheduler, [])

def countTimers (scheduler : Scheduler) : Scheduler :=
  { scheduler with machine := scheduler.machine.tickTimers }

/-- A timer tick: the timers count down, the screen is shown, and the sound follows the sound
timer. -/
def tickTimers (scheduler : Scheduler) : Logged (Scheduler × List Signal) :=
  let switched := scheduler.countTimers.followSound
  ⟨(switched.value.1, .render scheduler.machine.screen :: switched.value.2), switched.notices⟩

def silence (scheduler : Scheduler) : Scheduler × List Signal :=
  if scheduler.soundOn then ({ scheduler with soundOn := false }, [.soundStop])
  else (scheduler, [])

@[simp] theorem timeline_followSound (scheduler : Scheduler) :
    scheduler.followSound.value.1.timeline = scheduler.timeline := by
  unfold followSound
  split <;> rfl

@[simp] theorem timeline_tickTimers (scheduler : Scheduler) :
    scheduler.tickTimers.value.1.timeline = scheduler.timeline :=
  scheduler.countTimers.timeline_followSound

end Scheduler

end Chip8
