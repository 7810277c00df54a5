import Chip8.Proofs.Lockstep.Run
import Chip8.Proofs.Schedule.Processing

/-!
Calls of a scheduler, one after another. Every call brings its own moment and its own keys, may be
late or early, and may end in a fault. What restarting a timeline and passing the tick named next
keep, every sequence of calls keeps.
-/

namespace Chip8

/-- A call of a scheduler: the moment to go on to, and the keys handed over. -/
structure Call where
  now : Nat
  {Keys : Type}
  [input : KeyInput Keys]
  keys : Keys

attribute [instance] Call.input

/-- What a caller gets back, besides the scheduler and the keys. -/
structure Answer where
  executed : Nat
  signals : List Signal
  notices : List Notice
  fault : Option Fault

theorem Scheduler.skipMissed_of_le {scheduler : Scheduler} {now : Nat}
    (h : now ≤ scheduler.timeline.nextDeadline + maxLag) :
    scheduler.skipMissed now = pure scheduler := by
  have hNot : ¬ scheduler.timeline.nextDeadline + maxLag < now := Nat.not_lt.mpr h
  simp only [skipMissed, hNot, if_false]

/-- A scheduler whose timeline starts anew. -/
def Scheduler.restart (scheduler : Scheduler) (now : Nat) : Scheduler :=
  { scheduler with timeline := scheduler.timeline.restart now }

theorem Scheduler.skipMissed_of_lt {scheduler : Scheduler} {now : Nat}
    (h : scheduler.timeline.nextDeadline + maxLag < now) :
    scheduler.skipMissed now =
      ⟨scheduler.restart now, [.ticksSkipped (now - scheduler.timeline.nextDeadline)]⟩ := by
  simp only [skipMissed, h, if_true]
  rfl

/-- How often the screen has been shown. -/
def Answer.renders (answer : Answer) : Nat :=
  answer.signals.countP Signal.isRender

namespace Progress

variable {κ : Type}

/-- What has come of the work so far, as a caller sees it. -/
def answer (progress : Progress κ) : Answer :=
  ⟨progress.executed, progress.signals.toList, progress.notices.toList, progress.fault⟩

@[simp] theorem executed_answer (progress : Progress κ) :
    progress.answer.executed = progress.executed := rfl

@[simp] theorem fault_answer (progress : Progress κ) : progress.answer.fault = progress.fault := rfl

@[simp] theorem signals_answer (progress : Progress κ) :
    progress.answer.signals = progress.signals.toList := rfl

@[simp] theorem renders_answer (progress : Progress κ) :
    progress.answer.renders = progress.signals.toList.countP Signal.isRender := rfl

/-- Progress right before the first tick of a call: after a long stall the missed ticks are skipped
already. -/
def refreshed (progress : Progress κ) (now : Nat) : Progress κ :=
  let current := progress.scheduler.skipMissed now
  { progress with
    scheduler := current.value
    notices := progress.notices.appendList current.notices }

theorem refreshed_of_le {progress : Progress κ} {now : Nat}
    (h : now ≤ progress.scheduler.timeline.nextDeadline + maxLag) :
    progress.refreshed now = progress := by
  simp [refreshed, Scheduler.skipMissed_of_le h]

theorem refreshed_of_lt {progress : Progress κ} {now : Nat}
    (h : progress.scheduler.timeline.nextDeadline + maxLag < now) :
    progress.refreshed now =
      { progress with
        scheduler := progress.scheduler.restart now
        notices := progress.notices.push
          (.ticksSkipped (now - progress.scheduler.timeline.nextDeadline)) } := by
  simp [refreshed, Scheduler.skipMissed_of_lt h]

theorem timeline_refreshed (progress : Progress κ) (now : Nat) :
    (progress.refreshed now).scheduler.timeline = progress.scheduler.timeline ∨
      (progress.refreshed now).scheduler.timeline = progress.scheduler.timeline.restart now := by
  by_cases hLate : progress.scheduler.timeline.nextDeadline + maxLag < now
  · right
    rw [refreshed_of_lt hLate, Scheduler.restart]
  · left
    rw [refreshed_of_le (Nat.not_lt.mp hLate)]

theorem executed_refreshed (progress : Progress κ) (now : Nat) :
    (progress.refreshed now).executed = progress.executed := by
  rw [refreshed]

theorem signals_refreshed (progress : Progress κ) (now : Nat) :
    (progress.refreshed now).signals = progress.signals := by
  rw [refreshed]

theorem fault_refreshed (progress : Progress κ) (now : Nat) :
    (progress.refreshed now).fault = progress.fault := by
  rw [refreshed]

theorem machine_refreshed (progress : Progress κ) (now : Nat) :
    (progress.refreshed now).scheduler.machine = progress.scheduler.machine := by
  by_cases hLate : progress.scheduler.timeline.nextDeadline + maxLag < now
  · rw [refreshed_of_lt hLate, Scheduler.restart]
  · rw [refreshed_of_le (Nat.not_lt.mp hLate)]

variable [KeyInput κ]

theorem advance_eq_catchUp (progress : Progress κ) (now : Nat) :
    progress.advance now = (progress.refreshed now).catchUp now := rfl

/-- Where a single tick is due, going on is processing it. -/
theorem advance_eq_perform {progress : Progress κ} {now : Nat} {kind : Tick}
    (hLag : now ≤ progress.scheduler.timeline.nextDeadline + maxLag)
    (hDue : progress.due? now = some kind) (hNone : (progress.perform kind).due? now = none) :
    progress.advance now = progress.perform kind := by
  rw [advance_eq_catchUp, refreshed_of_le hLag, catchUp_of_due?_eq_some hDue,
    catchUp_of_due?_eq_none hNone]

/-- What passing the tick named next keeps holds after all ticks that are processed. -/
theorem Processes.keeps {now : Nat} {start final : Progress κ} {ticks : List NumberedTick}
    {motive : Timeline → Prop} (h : Processes now start ticks final)
    (hPass : ∀ timeline kind, motive timeline → timeline.nextTick? now = some kind →
      motive (timeline.pass kind))
    (hStart : motive start.scheduler.timeline) : motive final.scheduler.timeline :=
  h.passes.keeps hPass hStart

end Progress

namespace Scheduler

def call (scheduler : Scheduler) (call : Call) : Progress call.Keys :=
  scheduler.advance call.now call.keys

/-- The scheduler after calls, one after another. A fault ends its own call only. -/
def afterCalls (scheduler : Scheduler) : List Call → Scheduler
  | [] => scheduler
  | call :: rest => (scheduler.call call).scheduler.afterCalls rest

/-- The answers to calls, one after another. -/
def answers (scheduler : Scheduler) : List Call → List Answer
  | [] => []
  | call :: rest => (scheduler.call call).answer :: (scheduler.call call).scheduler.answers rest

theorem afterCalls_singleton (scheduler : Scheduler) (call : Call) :
    scheduler.afterCalls [call] = (scheduler.call call).scheduler := by
  rw [afterCalls, afterCalls]

theorem afterCalls_append (scheduler : Scheduler) (first second : List Call) :
    scheduler.afterCalls (first ++ second) = (scheduler.afterCalls first).afterCalls second := by
  induction first generalizing scheduler with
  | nil => rfl
  | cons call rest ih => exact ih _

/-- What restarting a timeline and passing the tick named next keep holds after a call. -/
theorem advance_keeps {κ : Type} [KeyInput κ] {motive : Timeline → Prop} {now : Nat}
    (hRestart : ∀ timeline, motive timeline → motive (timeline.restart now))
    (hPass : ∀ timeline kind, motive timeline → timeline.nextTick? now = some kind →
      motive (timeline.pass kind))
    (scheduler : Scheduler) (keys : κ) (h : motive scheduler.timeline) :
    motive (scheduler.advance now keys).scheduler.timeline := by
  obtain ⟨ticks, hTicks⟩ :=
    Progress.exists_processes_catchUp now ((Progress.start scheduler keys).refreshed now)
  apply hTicks.keeps hPass
  rcases (Progress.start scheduler keys).timeline_refreshed now with hSame | hRestarted
  · rw [hSame]
    exact h
  · rw [hRestarted]
    exact hRestart _ h

/-- A scheduler is made for the frequency of its machine, with no tick passed. -/
theorem timeline_of_ofMachine {machine : Machine} {scheduler : Scheduler}
    (h : ofMachine machine = .ok scheduler) :
    scheduler.timeline.rate = machine.config.frequency.toNat ∧ scheduler.timeline.origin = 0 ∧
      ∀ kind, scheduler.timeline.passed kind = 0 := by
  unfold ofMachine at h
  split at h
  · contradiction
  · obtain rfl := Except.ok.inj h
    refine ⟨rfl, rfl, fun kind => ?_⟩
    cases kind <;> rfl

theorem rate_advance {κ : Type} [KeyInput κ] (scheduler : Scheduler) (now : Nat) (keys : κ) :
    (scheduler.advance now keys).scheduler.timeline.rate = scheduler.timeline.rate :=
  advance_keeps (motive := fun timeline => timeline.rate = scheduler.timeline.rate)
    (fun _ h => h) (fun timeline kind h _ => by rw [Timeline.rate_pass, h]) scheduler keys rfl

theorem rate_afterCalls (scheduler : Scheduler) (calls : List Call) :
    (scheduler.afterCalls calls).timeline.rate = scheduler.timeline.rate := by
  induction calls generalizing scheduler with
  | nil => rfl
  | cons call rest ih =>
      rw [afterCalls, ih]
      exact rate_advance scheduler call.now call.keys

end Scheduler

/-! ### Permissive machines

A scheduler that drives a permissive machine never meets a fault. -/

namespace Progress

variable {κ : Type} [KeyInput κ] {now : Nat} {start final : Progress κ}
  {ticks : List NumberedTick}

theorem machine_perform_timer (progress : Progress κ) :
    (progress.perform .timer).scheduler.machine = progress.scheduler.machine.tickTimers := by
  simp only [perform, Scheduler.tickTimers, Scheduler.followSound]
  split <;> rfl

theorem Processes.permissive (h : Processes now start ticks final)
    (hStrict : start.scheduler.machine.config.strict = false) (hFault : start.fault = none) :
    final.scheduler.machine.config.strict = false ∧ final.fault = none := by
  induction h with
  | done => exact ⟨hStrict, hFault⟩
  | @next progress final kind ticks first rest ih =>
      cases kind with
      | timer =>
          apply ih
          · rw [machine_perform_timer]
            exact hStrict
          · exact hFault
      | instruction =>
          have hStep := (Machine.step_lockstep hStrict progress.keys).outcome
          exact ih hStep.stays_permissive hStep.no_fault

end Progress

namespace Scheduler

theorem exists_ofMachine (machine : Machine) (hValid : machine.config.validate = .ok ())
    (hStrict : machine.config.strict = false) :
    ∃ scheduler, ofMachine machine = .ok scheduler ∧
      scheduler.machine.config.strict = false := by
  unfold ofMachine
  split
  · next hInvalid =>
      rw [hValid] at hInvalid
      contradiction
  · exact ⟨_, rfl, hStrict⟩

theorem permissive_advance {κ : Type} [KeyInput κ] {scheduler : Scheduler}
    (h : scheduler.machine.config.strict = false) (now : Nat) (keys : κ) :
    (scheduler.advance now keys).scheduler.machine.config.strict = false ∧
      (scheduler.advance now keys).fault = none := by
  obtain ⟨ticks, hTicks⟩ :=
    Progress.exists_processes_catchUp now ((Progress.start scheduler keys).refreshed now)
  apply hTicks.permissive
  · rw [Progress.machine_refreshed]
    exact h
  · rfl

theorem permissive_afterCalls {scheduler : Scheduler}
    (h : scheduler.machine.config.strict = false) (calls : List Call) :
    (scheduler.afterCalls calls).machine.config.strict = false := by
  induction calls generalizing scheduler with
  | nil => exact h
  | cons call rest ih => exact ih (permissive_advance h call.now call.keys).1

theorem permissive_answers {scheduler : Scheduler}
    (h : scheduler.machine.config.strict = false) (calls : List Call) :
    ∀ answer ∈ scheduler.answers calls, answer.fault = none := by
  induction calls generalizing scheduler with
  | nil => simp [answers]
  | cons call rest ih =>
      obtain ⟨hPermissive, hFault⟩ := permissive_advance h call.now call.keys
      rw [answers, List.forall_mem_cons, Progress.fault_answer]
      exact ⟨hFault, ih hPermissive⟩

end Scheduler

end Chip8
