import Chip8.Proofs.Schedule.Conduct

/-!
The work of a scheduler. An instruction tick is one step of the machine, and a timer tick shows the
screen and counts the timers down; between ticks nothing happens to the machine or the keys. A call
does the work of the ticks that it processes and no other, and counts it.
-/

namespace Chip8

/-- Whether a machine is another one a timer tick later: both timers are one lower, unless they were
at zero, and nothing else has changed. -/
structure Machine.CountedDown (before after : Machine) : Prop where
  delay : after.registers.delay.toNat = before.registers.delay.toNat - 1
  sound : after.registers.sound.toNat = before.registers.sound.toNat - 1
  others : after =
    { before with
      registers.delay := after.registers.delay
      registers.sound := after.registers.sound }

theorem Machine.countedDown_iff {before after : Machine} :
    before.CountedDown after ↔ after = before.tickTimers := by
  constructor
  · intro h
    have hDelay : after.registers.delay = countDown before.registers.delay := by
      rw [← UInt8.toNat_inj, toNat_countDown, h.delay]
    have hSound : after.registers.sound = countDown before.registers.sound := by
      rw [← UInt8.toNat_inj, toNat_countDown, h.sound]
    rw [h.others, hDelay, hSound]
    rfl
  · rintro rfl
    exact ⟨toNat_countDown _, toNat_countDown _, rfl⟩

/-- Work on a machine with keys, tick by tick: an instruction tick is a step without a fault, a
timer tick shows the screen and counts the timers down. The screens are those shown meanwhile. -/
inductive Session.Works {κ : Type} [KeyInput κ] :
    Session κ → List NumberedTick → List Screen → Session κ → Prop where
  | done (session : Session κ) : Works session [] [] session
  | step {session final : Session κ} {n : Nat} {ticks : List NumberedTick} {screens : List Screen}
      (noFault : (session.machine.step session.keys).outcome.fault = none)
      (rest : Works ⟨(session.machine.step session.keys).outcome.machine,
        (session.machine.step session.keys).keys⟩ ticks screens final) :
      Works session (⟨.instruction, n⟩ :: ticks) screens final
  | count {session final : Session κ} {counted : Machine} {n : Nat} {ticks : List NumberedTick}
      {screens : List Screen} (counts : session.machine.CountedDown counted)
      (rest : Works ⟨counted, session.keys⟩ ticks screens final) :
      Works session (⟨.timer, n⟩ :: ticks) (session.machine.screen :: screens) final

/-- The screen that a signal shows. -/
def Signal.screen? : Signal → Option Screen
  | .render screen => some screen
  | .soundStart | .soundStop => none

/-- The screens that signals show, in order. -/
def shown (signals : List Signal) : List Screen :=
  signals.filterMap Signal.screen?

theorem Scheduler.shown_tickTimers (scheduler : Scheduler) :
    shown scheduler.tickTimers.value.2 = [scheduler.machine.screen] := by
  unfold tickTimers followSound
  dsimp only
  split <;> rfl

namespace Progress

variable {κ : Type} [KeyInput κ] {now : Nat} {start final : Progress κ} {ticks : List NumberedTick}

theorem shown_perform_timer (progress : Progress κ) :
    shown (progress.perform .timer).signals.toList =
      shown progress.signals.toList ++ [progress.scheduler.machine.screen] := by
  let passed : Scheduler :=
    { progress.scheduler with timeline := progress.scheduler.timeline.pass .timer }
  have hSignals : (progress.perform .timer).signals =
      progress.signals ++ passed.tickTimers.value.2 := rfl
  have hPassed : shown passed.tickTimers.value.2 = [progress.scheduler.machine.screen] :=
    passed.shown_tickTimers
  rw [hSignals, Array.toList_appendList, shown, List.filterMap_append, ← shown, ← shown, hPassed]

theorem countedDown_perform_timer (progress : Progress κ) :
    progress.scheduler.machine.CountedDown (progress.perform .timer).scheduler.machine :=
  Machine.countedDown_iff.mpr progress.machine_perform_timer

/-- Processing ticks without a fault is their work. -/
theorem Processes.works (h : Processes now start ticks final) (hFault : final.fault = none) :
    ∃ screens, start.session.Works ticks screens final.session ∧
      shown final.signals.toList = shown start.signals.toList ++ screens := by
  induction h with
  | done progress => exact ⟨[], .done _, (List.append_nil _).symm⟩
  | @next progress final kind ticks first rest ih =>
      obtain ⟨screens, hWorks, hShown⟩ := ih hFault
      cases kind with
      | instruction => exact ⟨screens, .step (rest.fault_start hFault) hWorks, hShown⟩
      | timer =>
          refine ⟨progress.scheduler.machine.screen :: screens,
            .count progress.countedDown_perform_timer hWorks, ?_⟩
          rw [hShown, shown_perform_timer, List.append_assoc, List.singleton_append]

theorem Processes.works_of_signals_eq (h : Processes now start ticks final)
    (hFault : final.fault = none) (hSignals : start.signals = #[]) :
    start.session.Works ticks (shown final.signals.toList) final.session := by
  obtain ⟨screens, hWorks, hShown⟩ := h.works hFault
  rw [hSignals] at hShown
  rwa [hShown]

/-- All that a call shows is shown in the course of its work. -/
theorem Processes.works_of_refreshed {scheduler : Scheduler} {keys : κ}
    (h : Processes now ((Progress.start scheduler keys).refreshed now) ticks final)
    (hFault : final.fault = none) :
    Session.Works ⟨scheduler.machine, keys⟩ ticks (shown final.signals.toList) final.session := by
  have hSignals : ((Progress.start scheduler keys).refreshed now).signals = #[] := by
    rw [signals_refreshed, Progress.start]
  have hWorks := h.works_of_signals_eq hFault hSignals
  rwa [session_refreshed, session_start] at hWorks

end Progress

namespace Scheduler

/-- The ticks that a call processes. -/
def batch (scheduler : Scheduler) (call : Call) : List NumberedTick :=
  ((Progress.start scheduler call.keys).refreshed call.now).ticks call.now

/-- The ticks that calls process, one call after another. -/
def batches (scheduler : Scheduler) : List Call → List NumberedTick
  | [] => []
  | call :: rest => scheduler.batch call ++ (scheduler.call call).scheduler.batches rest

/-- Whether calls, one after another, do the work of the ticks that they process, and show the
screens that they signal. -/
def DoesWork (scheduler : Scheduler) : List Call → Prop
  | [] => True
  | call :: rest =>
    Session.Works ⟨scheduler.machine, call.keys⟩ (scheduler.batch call)
        (shown (scheduler.call call).answer.signals) (scheduler.call call).session ∧
      (scheduler.call call).scheduler.DoesWork rest

variable {scheduler : Scheduler}

theorem processes_call (scheduler : Scheduler) (call : Call) :
    Progress.Processes call.now ((Progress.start scheduler call.keys).refreshed call.now)
      (scheduler.batch call) (scheduler.call call) := by
  rw [Scheduler.call, advance, Progress.advance_eq_catchUp]
  exact Progress.processes_ticks _ _

theorem processes_call_of_le {call : Call}
    (hLag : call.now ≤ scheduler.timeline.nextDeadline + maxLag) :
    Progress.Processes call.now (.start scheduler call.keys) (scheduler.batch call)
      (scheduler.call call) := by
  have hProcesses := scheduler.processes_call call
  rwa [Progress.refreshed_of_le hLag] at hProcesses

theorem works_call {call : Call} (hFault : (scheduler.call call).fault = none) :
    Session.Works ⟨scheduler.machine, call.keys⟩ (scheduler.batch call)
      (shown (scheduler.call call).answer.signals) (scheduler.call call).session := by
  rw [Progress.signals_answer]
  exact (scheduler.processes_call call).works_of_refreshed hFault

/-- Calls without a fault do the work of the ticks that they process. -/
theorem doesWork_of_faults {calls : List Call}
    (hFaults : ∀ answer ∈ scheduler.answers calls, answer.fault = none) :
    scheduler.DoesWork calls := by
  induction calls generalizing scheduler with
  | nil => trivial
  | cons call rest ih =>
      rw [answers, List.forall_mem_cons, Progress.fault_answer] at hFaults
      exact ⟨works_call hFaults.1, ih hFaults.2⟩

theorem executed_call_add_eq (scheduler : Scheduler) (call : Call) :
    (scheduler.call call).executed + (if (scheduler.call call).fault.isSome then 1 else 0) =
      (scheduler.batch call).countP (·.kind = .instruction) := by
  have hFault : ((Progress.start scheduler call.keys).refreshed call.now).fault = none := by
    rw [Progress.fault_refreshed, Progress.start]
  rw [(scheduler.processes_call call).executed_add_eq hFault, Progress.executed_refreshed,
    Progress.start, Nat.zero_add]

theorem renders_call_eq (scheduler : Scheduler) (call : Call) :
    (scheduler.call call).answer.renders = (scheduler.batch call).countP (·.kind = .timer) := by
  rw [Progress.renders_answer, (scheduler.processes_call call).renders_eq,
    Progress.signals_refreshed, Progress.start, List.countP_nil, Nat.zero_add]

end Scheduler

end Chip8
