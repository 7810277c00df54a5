import Chip8.Keys.Keypad
import Chip8.Proofs.Schedule.Chronology
import Mathlib.Data.List.Pairwise

/-!
The rates of a scheduler, over any second. After a call without a fault the passed ticks are
exactly those whose moments have come, wherever the call lies between them. So the number of ticks
passed between two such calls is told by the time between them, and nothing drifts.
-/

namespace Chip8

namespace Timeline

variable {timeline : Timeline} {time later : Nat}

/-- No tick has been passed before its moment. -/
def NotAhead (timeline : Timeline) (time : Nat) : Prop :=
  ∀ kind, timeline.moment ⟨kind, timeline.passed kind⟩ ≤ time

/-- The passed ticks are exactly those whose moments have come. -/
def CaughtUp (timeline : Timeline) (time : Nat) : Prop :=
  ∀ kind, timeline.moment ⟨kind, timeline.passed kind⟩ ≤ time ∧
    time < timeline.moment (timeline.next kind)

theorem NotAhead.mono (h : timeline.NotAhead time) (hLater : time ≤ later) :
    timeline.NotAhead later :=
  fun kind => Nat.le_trans (h kind) hLater

theorem notAhead_of_passed_eq_zero (hOrigin : timeline.origin ≤ time)
    (hPassed : ∀ kind, timeline.passed kind = 0) : timeline.NotAhead time := by
  intro kind
  rw [moment, hPassed kind, tickOffset_zero]
  exact hOrigin

theorem notAhead_restart (timeline : Timeline) (time : Nat) :
    (timeline.restart time).NotAhead time := by
  apply notAhead_of_passed_eq_zero (Nat.le_refl time)
  intro kind
  cases kind <;> rfl

theorem NotAhead.pass (hTime : time < horizon) (h : timeline.NotAhead time) {kind : Tick}
    (hNext : timeline.nextTick? time = some kind) : (timeline.pass kind).NotAhead time := by
  intro other
  rw [moment_pass, passed_pass]
  by_cases hKind : other = kind
  · rw [if_pos hKind, hKind]
    exact moment_next_le hTime hNext
  · rw [if_neg hKind]
    exact h other

/-- The number of passed ticks is a matter of the time since the origin alone. -/
theorem CaughtUp.passed_eq (h : timeline.CaughtUp time) (kind : Tick) :
    timeline.passed kind = ticksBy (timeline.rateOf kind) (time - timeline.origin) := by
  obtain ⟨hPassed, hNext⟩ := h kind
  have hRate := timeline.rateOf_pos kind
  simp only [moment, next] at hPassed hNext
  have hLower : timeline.passed kind ≤
      ticksBy (timeline.rateOf kind) (time - timeline.origin) := by
    rw [← tickOffset_le_iff hRate]
    omega
  have hUpper : ¬ timeline.passed kind + 1 ≤
      ticksBy (timeline.rateOf kind) (time - timeline.origin) := by
    rw [← tickOffset_le_iff hRate]
    omega
  omega

/-- A second after it was caught up with, a timeline that has not been restarted is caught up with
by as many ticks as the rates say. -/
theorem CaughtUp.passed_add_second {before after : Timeline}
    (hOrigin : after.origin = before.origin) (hRate : after.rate = before.rate)
    (hBefore : before.CaughtUp time) (hAfter : after.CaughtUp (time + second)) (kind : Tick) :
    after.passed kind = before.passed kind + before.rateOf kind := by
  have hRates : after.rateOf kind = before.rateOf kind := by
    cases kind with
    | instruction => exact hRate
    | timer => rfl
  have hSince : time + second - before.origin = time - before.origin + second := by
    have hMoment := (hBefore kind).1
    rw [moment] at hMoment
    omega
  rw [hAfter.passed_eq, hBefore.passed_eq, hRates, hOrigin, hSince,
    ticksBy_add_second _ _ (before.rateOf_pos kind)]

theorem CaughtUp.le_nextDeadline_add_maxLag {now : Nat} (hTime : time < horizon)
    (h : timeline.CaughtUp time) (hNow : now ≤ time + second) :
    now ≤ timeline.nextDeadline + maxLag := by
  have hDeadline := lt_nextDeadline hTime fun kind => (h kind).2
  rw [maxLag]
  omega

end Timeline

/-- How a timeline goes on without being restarted, as the answers given meanwhile tell it. -/
structure Timeline.GoesOn (before after : Timeline) (answers : List Answer) : Prop where
  origin_eq : after.origin = before.origin
  instructions_eq : after.instructions = before.instructions + (answers.map Answer.executed).sum
  timerTicks_eq : after.timerTicks = before.timerTicks + (answers.map Answer.renders).sum

theorem Timeline.GoesOn.refl (timeline : Timeline) : timeline.GoesOn timeline [] where
  origin_eq := rfl
  instructions_eq := rfl
  timerTicks_eq := rfl

theorem Timeline.GoesOn.trans {before between after : Timeline} {first second : List Answer}
    (hFirst : before.GoesOn between first) (hSecond : between.GoesOn after second) :
    before.GoesOn after (first ++ second) where
  origin_eq := by rw [hSecond.origin_eq, hFirst.origin_eq]
  instructions_eq := by
    rw [hSecond.instructions_eq, hFirst.instructions_eq, List.map_append, List.sum_append,
      Nat.add_assoc]
  timerTicks_eq := by
    rw [hSecond.timerTicks_eq, hFirst.timerTicks_eq, List.map_append, List.sum_append,
      Nat.add_assoc]

theorem Progress.Processes.goesOn {κ : Type} [KeyInput κ] {now : Nat} {start final : Progress κ}
    {ticks : List NumberedTick} (h : Processes now start ticks final) (hFault : final.fault = none)
    (hExecuted : start.executed = 0) (hSignals : start.signals = #[]) :
    start.scheduler.timeline.GoesOn final.scheduler.timeline [final.answer] where
  origin_eq := h.origin_eq
  instructions_eq := by
    have hCount := h.executed_eq hFault
    rw [hExecuted, Nat.zero_add] at hCount
    rw [List.map_singleton, List.sum_singleton, executed_answer, hCount]
    exact h.passed_eq .instruction
  timerTicks_eq := by
    have hCount := h.renders_eq
    rw [hSignals, List.countP_nil, Nat.zero_add] at hCount
    rw [List.map_singleton, List.sum_singleton, renders_answer, hCount]
    exact h.passed_eq .timer

namespace Scheduler

/-- Calls make as many steps as there are instruction ticks in their batches, the failing ones among
them, and show the screen as often as there are timer ticks. -/
theorem answers_count (scheduler : Scheduler) (calls : List Call) :
    ((scheduler.answers calls).map Answer.executed).sum +
        (scheduler.answers calls).countP (·.fault.isSome) =
      (scheduler.batches calls).countP (·.kind = .instruction) ∧
    ((scheduler.answers calls).map Answer.renders).sum =
      (scheduler.batches calls).countP (·.kind = .timer) := by
  induction calls generalizing scheduler with
  | nil => exact ⟨rfl, rfl⟩
  | cons call rest ih =>
      have hExecuted := scheduler.executed_call_add_eq call
      have hRenders := scheduler.renders_call_eq call
      obtain ⟨hRestExecuted, hRestRenders⟩ := ih (scheduler.call call).scheduler
      rw [answers, batches, List.map_cons, List.map_cons, List.sum_cons, List.sum_cons,
        List.countP_cons, List.countP_append, List.countP_append, Progress.executed_answer,
        Progress.fault_answer, ← hRestExecuted, ← hRestRenders, ← hExecuted, hRenders]
      exact ⟨by omega, rfl⟩

/-- Whether none of several calls comes so late that ticks are skipped. -/
def KeepsPace (scheduler : Scheduler) : List Call → Prop
  | [] => True
  | call :: rest =>
    call.now ≤ scheduler.timeline.nextDeadline + maxLag ∧
      (scheduler.call call).scheduler.KeepsPace rest

section

variable {κ : Type} [KeyInput κ] {scheduler : Scheduler} {now : Nat} {keys : κ}

theorem notAhead_advance (hNow : now < horizon) (h : scheduler.timeline.NotAhead now) :
    (scheduler.advance now keys).scheduler.timeline.NotAhead now :=
  advance_keeps (motive := (·.NotAhead now)) (fun timeline _ => timeline.notAhead_restart now)
    (fun _ _ hNotAhead hNext => hNotAhead.pass hNow hNext) scheduler keys h

/-- After a call without a fault the timeline is caught up with, even if it was restarted. -/
theorem caughtUp_advance (hNow : now < horizon) (h : scheduler.timeline.NotAhead now)
    (hFault : (scheduler.advance now keys).fault = none) :
    (scheduler.advance now keys).scheduler.timeline.CaughtUp now := by
  have hNone := Progress.nextTick?_catchUp hFault
  intro kind
  exact ⟨notAhead_advance hNow h kind, Timeline.nextTick?_eq_none hNow hNone kind⟩

theorem goesOn_advance (hLag : now ≤ scheduler.timeline.nextDeadline + maxLag)
    (hFault : (scheduler.advance now keys).fault = none) :
    scheduler.timeline.GoesOn (scheduler.advance now keys).scheduler.timeline
      [(scheduler.advance now keys).answer] := by
  rw [advance_eq_catchUp_of_le hLag] at hFault ⊢
  obtain ⟨ticks, hTicks⟩ := Progress.exists_processes_catchUp now (.start scheduler keys)
  exact hTicks.goesOn hFault rfl rfl

end

theorem notAhead_afterCalls {scheduler : Scheduler} {calls : List Call} {time later : Nat}
    (hLater : later < horizon) (hOrder : (time :: calls.map Call.now).Pairwise (· ≤ ·))
    (hTime : time ≤ later) (hCalls : ∀ call ∈ calls, call.now ≤ later)
    (h : scheduler.timeline.NotAhead time) :
    (scheduler.afterCalls calls).timeline.NotAhead later := by
  induction calls generalizing scheduler time with
  | nil => exact h.mono hTime
  | cons call rest ih =>
      rw [List.map_cons, List.pairwise_cons] at hOrder
      have hNow : call.now ≤ later := hCalls call List.mem_cons_self
      refine ih hOrder.2 hNow (fun other hOther => hCalls other (List.mem_cons_of_mem _ hOther)) ?_
      exact notAhead_advance (Nat.lt_of_le_of_lt hNow hLater)
        (h.mono (hOrder.1 call.now List.mem_cons_self))

/-- After calls at moments that never go back, the latest one without a fault, nothing is missing
and nothing was early. -/
theorem caughtUp_afterCalls {machine : Machine} {start : Scheduler}
    (hStart : ofMachine machine = .ok start) {past : List Call} {latest : Call}
    (hLatest : latest.now < horizon)
    (hOrder : ((past ++ [latest]).map Call.now).Pairwise (· ≤ ·))
    (hFault : ((start.afterCalls past).call latest).fault = none) :
    (start.afterCalls (past ++ [latest])).timeline.CaughtUp latest.now := by
  obtain ⟨-, hOrigin, hPassed⟩ := timeline_of_ofMachine hStart
  rw [List.map_append, List.pairwise_append] at hOrder
  obtain ⟨hPastOrder, -, hPastLatest⟩ := hOrder
  have hZero : (0 :: past.map Call.now).Pairwise (· ≤ ·) :=
    .cons (fun now _ => Nat.zero_le now) hPastOrder
  have hNotAhead : (start.afterCalls past).timeline.NotAhead latest.now := by
    refine notAhead_afterCalls hLatest hZero (Nat.zero_le latest.now) ?_ ?_
    · intro call hCall
      exact hPastLatest call.now (List.mem_map_of_mem hCall) latest.now List.mem_cons_self
    · exact Timeline.notAhead_of_passed_eq_zero (Nat.le_of_eq hOrigin) hPassed
  rw [afterCalls_append, afterCalls_singleton]
  exact caughtUp_advance hLatest hNotAhead hFault

/-- Calls within a second after a timeline was caught up with skip nothing and count all they do. -/
theorem goesOn_afterCalls {scheduler : Scheduler} {calls : List Call} {time later : Nat}
    (hLater : later < horizon) (hSecond : later ≤ time + second)
    (hOrder : (time :: calls.map Call.now).Pairwise (· ≤ ·))
    (hCalls : ∀ call ∈ calls, call.now ≤ later)
    (hFaults : ∀ answer ∈ scheduler.answers calls, answer.fault = none)
    (h : scheduler.timeline.CaughtUp time) :
    scheduler.KeepsPace calls ∧
      scheduler.timeline.GoesOn (scheduler.afterCalls calls).timeline (scheduler.answers calls) ∧
      (scheduler.afterCalls calls).timeline.CaughtUp ((calls.map Call.now).getLastD time) := by
  induction calls generalizing scheduler time with
  | nil => exact ⟨trivial, .refl _, h⟩
  | cons call rest ih =>
      rw [List.map_cons, List.pairwise_cons] at hOrder
      have hEarly : time ≤ call.now := hOrder.1 call.now List.mem_cons_self
      have hNow : call.now ≤ later := hCalls call List.mem_cons_self
      have hHorizon : call.now < horizon := Nat.lt_of_le_of_lt hNow hLater
      rw [answers, List.forall_mem_cons, Progress.fault_answer] at hFaults
      have hLag : call.now ≤ scheduler.timeline.nextDeadline + maxLag :=
        h.le_nextDeadline_add_maxLag (Nat.lt_of_le_of_lt hEarly hHorizon)
          (Nat.le_trans hNow hSecond)
      have hNotAhead : scheduler.timeline.NotAhead call.now :=
        fun kind => Nat.le_trans (h kind).1 hEarly
      obtain ⟨hPace, hGoesOn, hCaughtUp⟩ := ih (by omega) hOrder.2
        (fun other hOther => hCalls other (List.mem_cons_of_mem _ hOther))
        hFaults.2 (caughtUp_advance hHorizon hNotAhead hFaults.1)
      refine ⟨⟨hLag, hPace⟩, (goesOn_advance hLag hFaults.1).trans hGoesOn, ?_⟩
      rw [List.map_cons, List.getLastD_cons]
      exact hCaughtUp

/-- After calls at moments that never go back, late ones and faulty ones among them, let the latest
one be without a fault. Then calls without a fault that go on to exactly a second later skip nothing
and keep the origin; they do the work of as many instruction ticks as the frequency says and of sixty
timer ticks, and show the screen at each of these, wherever the second lies. -/
theorem rates_exact_over_second {machine : Machine} {start : Scheduler}
    (hStart : ofMachine machine = .ok start) {past window : List Call} {latest : Call}
    (hPast : ((past ++ [latest]).map Call.now).Pairwise (· ≤ ·))
    (hLatest : ((start.afterCalls past).call latest).fault = none)
    (hHorizon : latest.now + second < 2 ^ 61)
    (hWindow : (latest.now :: window.map Call.now).Pairwise (· ≤ ·))
    (hEnd : (window.map Call.now).getLast? = some (latest.now + second))
    (hFaults : ∀ answer ∈ (start.afterCalls (past ++ [latest])).answers window,
      answer.fault = none) :
    let scheduler := start.afterCalls (past ++ [latest])
    let final := scheduler.afterCalls window
    let answers := scheduler.answers window
    scheduler.KeepsPace window ∧
    final.timeline.origin = scheduler.timeline.origin ∧
    final.timeline.instructions =
      scheduler.timeline.instructions + machine.config.frequency.toNat ∧
    (answers.map Answer.executed).sum = machine.config.frequency.toNat ∧
    (answers.map Answer.renders).sum = 60 ∧
    scheduler.DoesWork window ∧
    (scheduler.batches window).countP (·.kind = .instruction) = machine.config.frequency.toNat ∧
    (scheduler.batches window).countP (·.kind = .timer) = 60 := by
  have hBefore := caughtUp_afterCalls hStart (lt_horizon (by omega)) hPast hLatest
  have hWindowEnd : ∀ call ∈ window, call.now ≤ latest.now + second := by
    intro call hCall
    have hMem : call.now ∈ window.map Call.now := List.mem_map_of_mem hCall
    have hRel := hWindow.of_cons.rel_getLast hMem
    rwa [List.getLast_of_getLast?_eq_some hEnd] at hRel
  obtain ⟨hPace, hGoesOn, hAfter⟩ := goesOn_afterCalls (lt_horizon hHorizon) (Nat.le_refl _)
    hWindow hWindowEnd hFaults hBefore
  rw [List.getLastD_eq_getLast?, hEnd, Option.getD_some] at hAfter
  have hGrowth := hBefore.passed_add_second hGoesOn.origin_eq (rate_afterCalls _ window) hAfter
  have hInstructions := hGrowth .instruction
  have hTimerTicks := hGrowth .timer
  have hRate : (start.afterCalls (past ++ [latest])).timeline.rate =
      machine.config.frequency.toNat :=
    (rate_afterCalls start _).trans (timeline_of_ofMachine hStart).1
  simp only [Timeline.passed, Timeline.rateOf, hRate, timerRate] at hInstructions hTimerTicks
  have hExecuted := hGoesOn.instructions_eq
  have hRenders := hGoesOn.timerTicks_eq
  obtain ⟨hSteps, hShown⟩ := (start.afterCalls (past ++ [latest])).answers_count window
  rw [List.countP_eq_zero.mpr fun answer hAnswer => by simp [hFaults answer hAnswer]] at hSteps
  exact ⟨hPace, hGoesOn.origin_eq, hInstructions, by omega, by omega, doesWork_of_faults hFaults,
    by omega, by omega⟩

/-- At seven hundred instructions a second, a second in two calls after a stall of three. -/
theorem rates_exact_over_second_after_stall :
    ∃ start, ofMachine (.initial { frequency := 700 } (.ofSeed 0)) = .ok start ∧
      let past : List Call := [⟨20000000, Keypad.initial⟩]
      let latest : Call := ⟨3000000007, Keypad.initial⟩
      let window : List Call := [⟨3500000000, Keypad.initial⟩, ⟨4000000007, Keypad.initial⟩]
      let answers := (start.afterCalls (past ++ [latest])).answers window
      ((past ++ [latest]).map Call.now).Pairwise (· ≤ ·) ∧
      ((start.afterCalls past).call latest).fault = none ∧
      latest.now + second < 2 ^ 61 ∧
      (latest.now :: window.map Call.now).Pairwise (· ≤ ·) ∧
      (window.map Call.now).getLast? = some (latest.now + second) ∧
      (∀ answer ∈ answers, answer.fault = none) ∧
      (start.afterCalls (past ++ [latest])).KeepsPace window ∧
      (answers.map Answer.executed).sum = 700 ∧ (answers.map Answer.renders).sum = 60 ∧
      (start.afterCalls (past ++ [latest])).DoesWork window ∧
      ((start.afterCalls (past ++ [latest])).batches window).countP (·.kind = .instruction) = 700 ∧
      ((start.afterCalls (past ++ [latest])).batches window).countP (·.kind = .timer) = 60 := by
  obtain ⟨start, hStart, hStrict⟩ :=
    exists_ofMachine (.initial { frequency := 700 } (.ofSeed 0)) rfl rfl
  refine ⟨start, hStart, ?_⟩
  dsimp only
  have hPast : (([⟨20000000, Keypad.initial⟩] ++ [⟨3000000007, Keypad.initial⟩] : List Call).map
      Call.now).Pairwise (· ≤ ·) := by
    simp
  have hWindow : (3000000007 :: ([⟨3500000000, Keypad.initial⟩, ⟨4000000007, Keypad.initial⟩] :
      List Call).map Call.now).Pairwise (· ≤ ·) := by
    simp
  have hEnd : (([⟨3500000000, Keypad.initial⟩, ⟨4000000007, Keypad.initial⟩] : List Call).map
      Call.now).getLast? = some (3000000007 + second) := by
    simp [second]
  have hHorizon : 3000000007 + second < 2 ^ 61 := by decide
  have hLatest := (permissive_advance (permissive_afterCalls hStrict
    [⟨20000000, Keypad.initial⟩]) 3000000007 Keypad.initial).2
  have hFaults := permissive_answers (permissive_afterCalls hStrict
    ([⟨20000000, Keypad.initial⟩] ++ [⟨3000000007, Keypad.initial⟩]))
    [⟨3500000000, Keypad.initial⟩, ⟨4000000007, Keypad.initial⟩]
  obtain ⟨hPace, -, -, hExecuted, hRenders, hWork, hSteps, hShown⟩ :=
    rates_exact_over_second hStart hPast hLatest hHorizon hWindow hEnd hFaults
  exact ⟨hPast, hLatest, hHorizon, hWindow, hEnd, hFaults, hPace, hExecuted, hRenders, hWork,
    hSteps, hShown⟩

end Scheduler

end Chip8
