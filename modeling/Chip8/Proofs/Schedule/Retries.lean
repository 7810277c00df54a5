import Chip8.Proofs.Schedule.Batches

/-!
Going on after a fault. A fault costs exactly the tick whose step failed: this tick counts as
processed, and the next call goes on behind it. So calling again at the same moment comes to an end,
and the calls together process what one call without a fault would have processed.
-/

namespace Chip8.Scheduler

variable {scheduler : Scheduler} {now : Nat}

/-- Calling again at the same moment is never too late if the first call is not. -/
theorem keepsPace_of_now_eq {calls : List Call} (hCalls : ∀ call ∈ calls, call.now = now)
    (hLag : now ≤ scheduler.timeline.nextDeadline + maxLag) : scheduler.KeepsPace calls := by
  induction calls generalizing scheduler with
  | nil => trivial
  | cons call rest ih =>
      obtain ⟨rfl, hRest⟩ := List.forall_mem_cons.mp hCalls
      have hDeadline := (passes_call hLag).nextDeadline_le
      exact ⟨hLag, ih hRest (Nat.le_trans hLag (Nat.add_le_add_right hDeadline maxLag))⟩

/-- A call that meets a fault uses up one of the ticks that remain. -/
theorem remaining_call_lt {call : Call} (hLag : call.now ≤ scheduler.timeline.nextDeadline + maxLag)
    (hFault : (scheduler.call call).fault ≠ none) :
    (scheduler.call call).scheduler.timeline.remaining < scheduler.timeline.remaining := by
  obtain ⟨fault, hFault⟩ := Option.ne_none_iff_exists'.mp hFault
  obtain ⟨earlier, reached, hBatch, -⟩ :=
    (processes_call_of_le hLag).exists_last_of_fault rfl hFault
  have hRemaining := (passes_call hLag).remaining_add_length_le
  rw [hBatch, List.length_append, List.length_singleton] at hRemaining
  omega

/-- Calling again at the same moment, one call comes without a fault. -/
theorem exists_attempt_without_fault (calls : Nat → Call) (hCalls : ∀ n, (calls n).now = now)
    (hLag : now ≤ scheduler.timeline.nextDeadline + maxLag) :
    ∃ n, (∀ m ≤ n,
        ((scheduler.afterCalls (firstCalls calls m)).call (calls m)).fault = none ↔ m = n) ∧
      (scheduler.answers (firstCalls calls (n + 1))).countP (·.fault.isSome) = n := by
  induction hRemaining : scheduler.timeline.remaining using Nat.strongRecOn
    generalizing scheduler calls with
  | ind remaining ih =>
      have hFirst : (calls 0).now ≤ scheduler.timeline.nextDeadline + maxLag := by rwa [hCalls]
      cases hFault : (scheduler.call (calls 0)).fault with
      | none =>
          refine ⟨0, fun m hm => ?_, ?_⟩
          · obtain rfl := Nat.le_zero.mp hm
            exact iff_of_true hFault rfl
          · rw [firstCalls_succ, answers, List.countP_cons, Progress.fault_answer, hFault]
            rfl
      | some fault =>
          have hLess := remaining_call_lt hFirst (by rw [hFault]; exact Option.some_ne_none fault)
          have hDeadline := (passes_call hFirst).nextDeadline_le
          obtain ⟨n, hAttempts, hFaults⟩ := ih _ (hRemaining ▸ hLess) (fun m => calls (m + 1))
            (fun m => hCalls (m + 1))
            (Nat.le_trans hLag (Nat.add_le_add_right hDeadline maxLag)) rfl
          refine ⟨n + 1, fun m hm => ?_, ?_⟩
          · cases m with
            | zero => simp [firstCalls, afterCalls, hFault]
            | succ m =>
                rw [firstCalls_succ, afterCalls, Nat.add_right_cancel_iff]
                exact hAttempts m (Nat.le_of_succ_le_succ hm)
          · rw [firstCalls_succ, answers, List.countP_cons, hFaults, Progress.fault_answer, hFault]
            rfl

/-- A call that is not too late and meets a fault processes the due ticks in order, up to and with
the instruction tick whose step fails; it does the work of the earlier ones, the failing tick counts
as passed, and the origin stays. Calling again at the same moment, whatever the keys, comes to a call
without a fault. None of these calls is too late, and together they process exactly the due ticks, in
order and each one once: every instruction tick is a step that a call executed or failed with, and
every timer tick shows the screen once. -/
theorem fault_consumes_own_tick (scheduler : Scheduler) {now : Nat} (hNow : now < 2 ^ 61)
    (hLag : now ≤ scheduler.timeline.nextDeadline + maxLag) :
    (∀ call : Call, call.now = now → ∀ fault, (scheduler.call call).fault = some fault →
      ∃ earlier reached,
        let failed := reached.scheduler.timeline.next .instruction
        Progress.Processes call.now (.start scheduler call.keys) earlier reached ∧
        Session.Works ⟨scheduler.machine, call.keys⟩ earlier (shown reached.signals.toList)
          reached.session ∧
        (reached.scheduler.machine.step reached.keys).outcome.fault = some fault ∧
        scheduler.call call = reached.perform .instruction ∧
        (scheduler.call call).scheduler.machine =
          (reached.scheduler.machine.step reached.keys).outcome.machine ∧
        scheduler.batch call = earlier ++ [failed] ∧
        (scheduler.batch call).Pairwise scheduler.timeline.Precedes ∧
        (∀ tick, tick ∈ scheduler.batch call ↔ scheduler.timeline.IsDue call.now tick ∧
          (tick = failed ∨ scheduler.timeline.Precedes tick failed)) ∧
        (scheduler.call call).scheduler.timeline.instructions = failed.number ∧
        (scheduler.call call).scheduler.timeline.origin = scheduler.timeline.origin) ∧
    ∀ calls : Nat → Call, (∀ n, (calls n).now = now) → ∃ n,
      let all := firstCalls calls (n + 1)
      (∀ m ≤ n,
        ((scheduler.afterCalls (firstCalls calls m)).call (calls m)).fault = none ↔ m = n) ∧
      scheduler.KeepsPace all ∧
      (scheduler.afterCalls all).timeline.origin = scheduler.timeline.origin ∧
      (scheduler.batches all).Pairwise scheduler.timeline.Precedes ∧
      (∀ tick, tick ∈ scheduler.batches all ↔ scheduler.timeline.IsDue now tick) ∧
      ((scheduler.answers all).map Answer.executed).sum + n =
        (scheduler.batches all).countP (·.kind = .instruction) ∧
      ((scheduler.answers all).map Answer.renders).sum =
        (scheduler.batches all).countP (·.kind = .timer) := by
  have hHorizon := lt_horizon hNow
  constructor
  · rintro call rfl fault hFault
    obtain ⟨earlier, reached, hBatch, hEarlier, hReached, hStep, hFinal⟩ :=
      (processes_call_of_le hLag).exists_last_of_fault rfl hFault
    have hPasses := passes_call hLag
    refine ⟨earlier, reached, hEarlier, hEarlier.works_of_signals_eq hReached rfl, hStep, hFinal,
      ?_, hBatch, hPasses.pairwise_precedes hHorizon, ?_, ?_, hPasses.origin_eq⟩
    · rw [hFinal]
      rfl
    · rw [hBatch] at hPasses ⊢
      exact hPasses.mem_iff_of_append_singleton hHorizon
    · rw [hFinal, Progress.timeline_perform]
      rfl
  · intro calls hCalls
    obtain ⟨n, hAttempts, hFaults⟩ := exists_attempt_without_fault calls hCalls hLag
    have hAll : ∀ call ∈ firstCalls calls (n + 1), call.now = now := by
      intro call hCall
      obtain ⟨m, -, rfl⟩ := List.mem_map.mp hCall
      exact hCalls m
    have hPace := keepsPace_of_now_eq hAll hLag
    have hPasses := passes_batches hPace fun call hCall => Nat.le_of_eq (hAll call hCall)
    -- The last of the calls meets no fault, so nothing is due after it.
    have hEnd :
        (scheduler.afterCalls (firstCalls calls (n + 1))).timeline.nextTick? now = none := by
      rw [firstCalls_succ_eq_append, afterCalls_append, afterCalls_singleton, ← hCalls n]
      exact Progress.nextTick?_catchUp ((hAttempts n (Nat.le_refl n)).mpr rfl)
    obtain ⟨hExecuted, hRenders⟩ := scheduler.answers_count (firstCalls calls (n + 1))
    rw [hFaults] at hExecuted
    exact ⟨n, hAttempts, hPace, hPasses.origin_eq, hPasses.pairwise_precedes hHorizon,
      hPasses.mem_iff_of_nextTick?_eq_none hHorizon hEnd, hExecuted, hRenders⟩

/-- A strict machine that cannot fetch fails at every instruction tick. -/
theorem fault_consumes_own_tick_beyond_memory :
    let machine : Machine :=
      { Machine.initial { frequency := 100, strict := true } (.ofSeed 0) with
          registers := { Registers.initial with pc := 0xFFF } }
    let start : Scheduler := ⟨machine, ⟨100, by decide, 0, 0, 0⟩, false⟩
    let calls : Nat → Call := fun _ => ⟨20000000, Keypad.initial⟩
    ofMachine machine = .ok start ∧
    20000000 < 2 ^ 61 ∧ 20000000 ≤ start.timeline.nextDeadline + maxLag ∧
    (start.call (calls 0)).fault = some (.outOfRange 0x1000) ∧
    (start.call (calls 0)).scheduler.timeline.instructions = 1 ∧
    ∃ n, 0 < n ∧
      (start.batches (firstCalls calls (n + 1))).Pairwise start.timeline.Precedes ∧
      (∀ tick, tick ∈ start.batches (firstCalls calls (n + 1)) ↔
        start.timeline.IsDue 20000000 tick) ∧
      ((start.answers (firstCalls calls (n + 1))).map Answer.executed).sum + n =
        (start.batches (firstCalls calls (n + 1))).countP (·.kind = .instruction) := by
  intro machine start calls
  let begun : Progress Keypad := .start start Keypad.initial
  have hDue : 20000000 ≤ begun.scheduler.timeline.nextDeadline + maxLag ∧
      begun.due? 20000000 = some .instruction ∧
      (begun.perform .instruction).due? 20000000 = none ∧
      (begun.perform .instruction).fault = some (.outOfRange 0x1000) ∧
      (begun.perform .instruction).scheduler.timeline.instructions = 1 := by
    decide +kernel +revert
  obtain ⟨hPrompt, hFirst, hNone, hFault, hPassed⟩ := hDue
  have hCall : begun.advance 20000000 = begun.perform .instruction :=
    Progress.advance_eq_perform hPrompt hFirst hNone
  have hFails : (start.call (calls 0)).fault = some (.outOfRange 0x1000) :=
    (congrArg Progress.fault hCall).trans hFault
  have hCounts : (start.call (calls 0)).scheduler.timeline.instructions = 1 :=
    (congrArg (fun progress => progress.scheduler.timeline.instructions) hCall).trans hPassed
  obtain ⟨-, hAgain⟩ := fault_consumes_own_tick start (by decide : 20000000 < 2 ^ 61) hPrompt
  obtain ⟨n, hAttempts, -, -, hOrder, hDue, hExecuted, -⟩ := hAgain calls fun _ => rfl
  refine ⟨rfl, by decide, hPrompt, hFails, hCounts, n, Nat.pos_of_ne_zero ?_, hOrder, hDue,
    hExecuted⟩
  rintro rfl
  have hOk := (hAttempts 0 (Nat.le_refl 0)).mpr rfl
  cases hOk.symm.trans hFails

end Chip8.Scheduler
