import Chip8.Proofs.Schedule.Passing
import Chip8.Schedule.Progress

/-!
The ticks that a scheduler processes at a moment. They are exactly those that are due, in their
order, unless a fault ends the work before. Every one counts up its counter, every instruction tick
is a step of the machine and every timer tick shows the screen once.
-/

namespace Chip8

/-- Whether a signal shows the screen. -/
def Signal.isRender : Signal → Bool
  | .render _ => true
  | _ => false

namespace Progress

variable {κ : Type} {now : Nat} {start final : Progress κ} {ticks : List NumberedTick}

theorem fault_eq_none_of_due? {kind : Tick} (h : start.due? now = some kind) :
    start.fault = none := by
  cases hFault : start.fault with
  | none => rfl
  | some fault => simp [due?, hFault] at h

theorem nextTick?_of_due? {kind : Tick} (h : start.due? now = some kind) :
    start.scheduler.timeline.nextTick? now = some kind := by
  simpa [due?, fault_eq_none_of_due? h] using h

variable [KeyInput κ]

/-- Ticks processed at a moment, one after another. Each of them is due when its turn comes. -/
inductive Processes (now : Nat) : Progress κ → List NumberedTick → Progress κ → Prop where
  | done (progress : Progress κ) : Processes now progress [] progress
  | next {progress final : Progress κ} {kind : Tick} {ticks : List NumberedTick}
      (first : progress.due? now = some kind)
      (rest : Processes now (progress.perform kind) ticks final) :
      Processes now progress (progress.scheduler.timeline.next kind :: ticks) final

theorem catchUp_of_due?_eq_none (h : start.due? now = none) : start.catchUp now = start :=
  exhaust_of_none h

theorem catchUp_of_due?_eq_some {kind : Tick} (h : start.due? now = some kind) :
    start.catchUp now = (start.perform kind).catchUp now :=
  exhaust_of_some h

/-- Catching up processes ticks until none is due. -/
theorem exists_processes_catchUp (now : Nat) (start : Progress κ) :
    ∃ ticks, Processes now start ticks (start.catchUp now) := by
  induction hRemaining : start.remaining using Nat.strongRecOn generalizing start with
  | ind remaining ih =>
      cases hDue : start.due? now with
      | none =>
          rw [catchUp_of_due?_eq_none hDue]
          exact ⟨[], .done start⟩
      | some kind =>
          rw [catchUp_of_due?_eq_some hDue]
          have hLess := remaining_perform_lt now start kind hDue
          obtain ⟨ticks, hTicks⟩ := ih _ (by omega) (start.perform kind) rfl
          exact ⟨_, .next hDue hTicks⟩

theorem due?_catchUp (now : Nat) (start : Progress κ) : (start.catchUp now).due? now = none :=
  next?_exhaust start

theorem nextTick?_catchUp (hFault : (start.catchUp now).fault = none) :
    (start.catchUp now).scheduler.timeline.nextTick? now = none := by
  simpa [due?, hFault] using due?_catchUp now start

theorem Processes.fault_start (h : Processes now start ticks final) (hFault : final.fault = none) :
    start.fault = none := by
  cases h with
  | done => exact hFault
  | next first rest => exact fault_eq_none_of_due? first

/-- Processing ticks passes them. -/
theorem Processes.passes (h : Processes now start ticks final) :
    Timeline.Passes now start.scheduler.timeline ticks final.scheduler.timeline := by
  induction h with
  | done progress => exact .done _
  | next first rest ih =>
      rw [timeline_perform] at ih
      exact .next (nextTick?_of_due? first) ih

theorem Processes.origin_eq (h : Processes now start ticks final) :
    final.scheduler.timeline.origin = start.scheduler.timeline.origin :=
  h.passes.origin_eq

theorem Processes.passed_eq (h : Processes now start ticks final) (kind : Tick) :
    final.scheduler.timeline.passed kind =
      start.scheduler.timeline.passed kind + ticks.countP (·.kind = kind) :=
  h.passes.passed_eq kind

/-- A due tick is either processed or still due. -/
theorem Processes.isDue_iff (h : Processes now start ticks final) (hNow : now < horizon)
    (tick : NumberedTick) :
    start.scheduler.timeline.IsDue now tick ↔
      tick ∈ ticks ∨ final.scheduler.timeline.IsDue now tick :=
  h.passes.isDue_iff hNow tick

theorem Processes.pairwise_precedes (h : Processes now start ticks final) (hNow : now < horizon) :
    ticks.Pairwise start.scheduler.timeline.Precedes :=
  h.passes.pairwise_precedes hNow

/-- Without a fault the instruction ticks are what is reported as executed. -/
theorem Processes.executed_eq (h : Processes now start ticks final) (hFault : final.fault = none) :
    final.executed = start.executed + ticks.countP (·.kind = .instruction) := by
  induction h with
  | done => simp
  | @next progress final kind ticks first rest ih =>
      have hPerform := rest.fault_start hFault
      rw [ih hFault, List.countP_cons]
      cases kind with
      | timer => simp [perform, Timeline.next]
      | instruction =>
          have hExecuted : (progress.perform .instruction).executed = progress.executed + 1 := by
            simp only [perform] at hPerform ⊢
            simp [hPerform]
          rw [hExecuted]
          simp only [Timeline.next, if_true, decide_true]
          omega

/-- A fault is that of the last tick processed: it is an instruction tick, and its step fails. -/
theorem Processes.exists_last_of_fault (h : Processes now start ticks final) {fault : Fault}
    (hStart : start.fault = none) (hFault : final.fault = some fault) :
    ∃ earlier reached, ticks = earlier ++ [reached.scheduler.timeline.next .instruction] ∧
      Processes now start earlier reached ∧ reached.fault = none ∧
      (reached.scheduler.machine.step reached.keys).outcome.fault = some fault ∧
      final = reached.perform .instruction := by
  induction h with
  | done progress =>
      rw [hStart] at hFault
      cases hFault
  | @next progress final kind ticks due rest ih =>
      cases hNext : (progress.perform kind).fault with
      | none =>
          obtain ⟨earlier, reached, rfl, hEarlier, hRest⟩ := ih hNext hFault
          exact ⟨_ :: earlier, reached, rfl, .next due hEarlier, hRest⟩
      | some other =>
          -- No tick follows one that fails, and a timer tick does not fail.
          cases kind with
          | timer =>
              have hSame : (progress.perform .timer).fault = progress.fault := rfl
              rw [hSame, hStart] at hNext
              cases hNext
          | instruction =>
              cases rest with
              | done => exact ⟨[], progress, rfl, .done progress, hStart, hFault, rfl⟩
              | next due _ =>
                  rw [fault_eq_none_of_due? due] at hNext
                  cases hNext

/-- Every instruction tick is executed, or its step fails and it is the last one. -/
theorem Processes.executed_add_eq (h : Processes now start ticks final)
    (hStart : start.fault = none) :
    final.executed + (if final.fault.isSome then 1 else 0) =
      start.executed + ticks.countP (·.kind = .instruction) := by
  cases hFault : final.fault with
  | none => exact h.executed_eq hFault
  | some fault =>
      obtain ⟨earlier, reached, rfl, hEarlier, hReached, hStep, rfl⟩ :=
        h.exists_last_of_fault hStart hFault
      have hExecuted : (reached.perform .instruction).executed = reached.executed := by
        simp only [perform]
        rw [hStep]
        rfl
      rw [hExecuted, hEarlier.executed_eq hReached, List.countP_append, Nat.add_assoc]
      rfl

theorem countP_isRender_tickTimers (scheduler : Scheduler) :
    scheduler.tickTimers.value.2.countP Signal.isRender = 1 := by
  unfold Scheduler.tickTimers Scheduler.followSound
  dsimp only
  split <;> rfl

/-- Every timer tick shows the screen once, and nothing else does. -/
theorem Processes.renders_eq (h : Processes now start ticks final) :
    final.signals.toList.countP Signal.isRender =
      start.signals.toList.countP Signal.isRender + ticks.countP (·.kind = .timer) := by
  induction h with
  | done => simp
  | @next progress final kind ticks first rest ih =>
      rw [ih, List.countP_cons]
      cases kind with
      | instruction => simp [perform, Timeline.next]
      | timer =>
          let passed : Scheduler :=
            { progress.scheduler with timeline := progress.scheduler.timeline.pass .timer }
          have hSignals : (progress.perform .timer).signals =
              progress.signals ++ passed.tickTimers.value.2 := rfl
          rw [hSignals, Array.toList_appendList, List.countP_append, countP_isRender_tickTimers]
          simp only [Timeline.next, decide_true, if_true]
          omega

end Progress

end Chip8
