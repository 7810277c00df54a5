import Chip8.Proofs.Schedule.Splitting

/-!
Postponing. What a scheduler does depends on the time since the origin of its timeline, and on
nothing else of the time. So a scheduler whose origin is postponed, called as much later, does the
same as before.
-/

namespace Chip8

namespace Timeline

variable (timeline : Timeline) (delay now : Nat)

/-- A timeline that begins later. -/
def postpone (timeline : Timeline) (delay : Nat) : Timeline :=
  { timeline with origin := delay + timeline.origin }

theorem nextInstruction_postpone :
    (timeline.postpone delay).nextInstruction = delay + timeline.nextInstruction :=
  Nat.add_assoc _ _ _

theorem nextTimer_postpone : (timeline.postpone delay).nextTimer = delay + timeline.nextTimer :=
  Nat.add_assoc _ _ _

theorem nextDeadline_postpone :
    (timeline.postpone delay).nextDeadline = delay + timeline.nextDeadline := by
  rw [nextDeadline, nextDeadline, nextInstruction_postpone, nextTimer_postpone,
    Nat.add_min_add_left]

theorem reached_postpone (moment : Nat) :
    (timeline.postpone delay).Reached (delay + now) (delay + moment) ↔
      timeline.Reached now moment := by
  simp only [Reached, postpone]
  omega

theorem nextTick?_postpone :
    (timeline.postpone delay).nextTick? (delay + now) = timeline.nextTick? now := by
  simp only [nextTick?, nextInstruction_postpone, nextTimer_postpone, reached_postpone,
    Nat.add_le_add_iff_left]

end Timeline

/-- A scheduler whose timeline begins later. -/
def Scheduler.postpone (scheduler : Scheduler) (delay : Nat) : Scheduler :=
  { scheduler with timeline := scheduler.timeline.postpone delay }

theorem Scheduler.tickTimers_postpone (scheduler : Scheduler) (delay : Nat) :
    (scheduler.postpone delay).tickTimers =
      ⟨(scheduler.tickTimers.value.1.postpone delay, scheduler.tickTimers.value.2),
        scheduler.tickTimers.notices⟩ := by
  obtain ⟨machine, timeline, soundOn⟩ := scheduler
  simp only [tickTimers, followSound, countTimers, postpone]
  cases machine.tickTimers.registers.isAudible <;> cases soundOn <;> rfl

namespace Progress

variable {κ : Type}

/-- Progress of a scheduler whose timeline begins later. -/
def postpone (progress : Progress κ) (delay : Nat) : Progress κ :=
  { progress with scheduler := progress.scheduler.postpone delay }

theorem answer_postpone (progress : Progress κ) (delay : Nat) :
    (progress.postpone delay).answer = progress.answer :=
  rfl

theorem due?_postpone (progress : Progress κ) (delay now : Nat) :
    (progress.postpone delay).due? (delay + now) = progress.due? now := by
  rw [due?, due?, ← progress.scheduler.timeline.nextTick?_postpone delay now]
  rfl

/-- After a stall as many ticks are skipped, and the lag is the same. -/
theorem refreshed_postpone (progress : Progress κ) (delay now : Nat) :
    (progress.postpone delay).refreshed (delay + now) =
      (progress.refreshed now).postpone delay := by
  have hDeadline : (progress.postpone delay).scheduler.timeline.nextDeadline =
      delay + progress.scheduler.timeline.nextDeadline :=
    progress.scheduler.timeline.nextDeadline_postpone delay
  by_cases hLate : progress.scheduler.timeline.nextDeadline + maxLag < now
  · have hAfter : (progress.postpone delay).scheduler.timeline.nextDeadline + maxLag <
        delay + now := by
      omega
    rw [refreshed_of_lt hAfter, refreshed_of_lt hLate, hDeadline, Nat.add_sub_add_left]
    rfl
  · have hAfter : delay + now ≤
        (progress.postpone delay).scheduler.timeline.nextDeadline + maxLag := by
      omega
    rw [refreshed_of_le hAfter, refreshed_of_le (Nat.not_lt.mp hLate)]

variable [KeyInput κ]

/-- A tick does not depend on when the timeline has begun. -/
theorem perform_postpone (progress : Progress κ) (delay : Nat) (tick : Tick) :
    (progress.postpone delay).perform tick = (progress.perform tick).postpone delay := by
  cases tick with
  | instruction => rfl
  | timer =>
      let passed : Scheduler :=
        { progress.scheduler with timeline := progress.scheduler.timeline.pass .timer }
      have hPassed : { progress.scheduler.postpone delay with
          timeline := (progress.scheduler.postpone delay).timeline.pass .timer } =
            passed.postpone delay := rfl
      simp only [perform, postpone]
      rw [hPassed, passed.tickTimers_postpone delay]

theorem catchUp_postpone (progress : Progress κ) (delay now : Nat) :
    (progress.postpone delay).catchUp (delay + now) = (progress.catchUp now).postpone delay := by
  have hDue (current : Progress κ) :
      (current.postpone delay).due? (delay + now) = current.due? now :=
    current.due?_postpone delay now
  exact exhaust_comm (·.postpone delay) hDue (·.perform_postpone delay ·) progress

theorem advance_postpone (progress : Progress κ) (delay now : Nat) :
    (progress.postpone delay).advance (delay + now) = (progress.advance now).postpone delay := by
  rw [advance_eq_catchUp, refreshed_postpone, catchUp_postpone, ← advance_eq_catchUp]

end Progress

/-- A call that comes later. -/
def Call.postpone (call : Call) (delay : Nat) : Call :=
  { call with now := delay + call.now }

namespace Scheduler

theorem advance_postpone {κ : Type} [KeyInput κ] (scheduler : Scheduler) (delay now : Nat)
    (keys : κ) :
    (scheduler.postpone delay).advance (delay + now) keys =
      (scheduler.advance now keys).postpone delay :=
  (Progress.start scheduler keys).advance_postpone delay now

/-- Calls that come later get the answers of the earlier ones. -/
theorem calls_postpone (scheduler : Scheduler) (delay : Nat) (calls : List Call) :
    (scheduler.postpone delay).answers (calls.map (·.postpone delay)) = scheduler.answers calls ∧
      (scheduler.postpone delay).afterCalls (calls.map (·.postpone delay)) =
        (scheduler.afterCalls calls).postpone delay := by
  induction calls generalizing scheduler with
  | nil => exact ⟨rfl, rfl⟩
  | cons call rest ih =>
      have hCall := scheduler.advance_postpone delay call.now call.keys
      have hAnswer : ((scheduler.postpone delay).call (call.postpone delay)).answer =
          (scheduler.call call).answer :=
        (congrArg Progress.answer hCall).trans (Progress.answer_postpone _ delay)
      have hScheduler : ((scheduler.postpone delay).call (call.postpone delay)).scheduler =
          (scheduler.call call).scheduler.postpone delay := congrArg Progress.scheduler hCall
      obtain ⟨hAnswers, hAfter⟩ := ih (scheduler.call call).scheduler
      rw [List.map_cons, answers, answers, afterCalls, afterCalls, hAnswer, hScheduler, hAnswers,
        hAfter]
      exact ⟨rfl, rfl⟩

end Scheduler

end Chip8
