import Chip8.Keys.Keypad
import Chip8.Proofs.Schedule.Work
import Mathlib.Algebra.Order.Floor.Div

/-!
The order in which ticks are processed. At any time the passed ticks are the first ones of the
whole order, whatever calls have been made. So a call processes exactly the due ticks, in order and
each one once, and the number of a timer tick tells how many instruction ticks have gone before it.
-/

namespace Chip8

namespace Timeline

variable {timeline : Timeline}

/-- Whether a tick has been passed since the origin. -/
def HasPassed (timeline : Timeline) (tick : NumberedTick) : Prop :=
  0 < tick.number ∧ tick.number ≤ timeline.passed tick.kind

/-- The passed ticks are the first ones of the whole order: each of them precedes every tick that is
still to come. -/
def Chronological (timeline : Timeline) : Prop :=
  ∀ a b, timeline.HasPassed a → timeline.passed b.kind < b.number → timeline.Precedes a b

theorem chronological_of_passed_eq_zero (h : ∀ kind, timeline.passed kind = 0) :
    timeline.Chronological := by
  rintro a b ⟨hPos, hPassed⟩ -
  rw [h a.kind] at hPassed
  omega

theorem chronological_restart (timeline : Timeline) (now : Nat) :
    (timeline.restart now).Chronological := by
  apply chronological_of_passed_eq_zero
  intro kind
  cases kind <;> rfl

theorem Chronological.pass {now : Nat} (hNow : now < horizon) (h : timeline.Chronological)
    {kind : Tick} (hNext : timeline.nextTick? now = some kind) :
    (timeline.pass kind).Chronological := by
  rintro a b ⟨hPos, hPassed⟩ hLater
  rw [precedes_pass]
  -- The tick just passed precedes what is left; any other one has been passed before.
  by_cases hFirst : a = timeline.next kind
  · rw [hFirst]
    exact precedes_of_nextTick? hNow hNext hLater
  · apply h a b
    · refine ⟨hPos, ?_⟩
      rw [passed_pass] at hPassed
      by_cases hKind : a.kind = kind
      · have hNumber : a.number ≠ timeline.passed a.kind + 1 := by
          intro hEq
          apply hFirst
          rw [next, ← hKind, ← hEq]
        rw [if_pos hKind] at hPassed
        omega
      · rw [if_neg hKind] at hPassed
        exact hPassed
    · rw [passed_pass] at hLater
      omega

theorem tickOffset_timer_pos (n : Nat) : 0 < tickOffset timerRate (n + 1) :=
  Nat.lt_of_lt_of_le (by decide : 0 < tickOffset timerRate 1)
    (tickOffset_mono timerRate (Nat.le_add_left 1 n))

/-- When a timer tick is next, the instruction ticks that have gone before it are exactly those of
an earlier moment. -/
theorem Chronological.instructions_eq (h : timeline.Chronological)
    (hNext :
      timeline.moment (timeline.next .timer) ≤ timeline.moment (timeline.next .instruction)) :
    timeline.instructions =
      (tickOffset timerRate (timeline.timerTicks + 1) * timeline.rate) ⌈/⌉ second - 1 := by
  have hSecond : 0 < second := by decide
  have hBefore : tickOffset timeline.rate timeline.instructions <
      tickOffset timerRate (timeline.timerTicks + 1) := by
    cases hCount : timeline.instructions with
    | zero =>
        rw [tickOffset_zero]
        exact tickOffset_timer_pos _
    | succ n =>
        have hPrecedes := h ⟨.instruction, n + 1⟩ (timeline.next .timer)
          ⟨Nat.succ_pos n, Nat.le_of_eq hCount.symm⟩ (Nat.lt_succ_self _)
        rcases hPrecedes with hLt | ⟨-, ⟨hKind, -⟩ | ⟨hKind, -⟩⟩
        · exact Nat.lt_of_add_lt_add_left hLt
        · cases hKind
        · cases hKind
  have hAfter : tickOffset timerRate (timeline.timerTicks + 1) ≤
      tickOffset timeline.rate (timeline.instructions + 1) :=
    Nat.le_of_add_le_add_left hNext
  -- The moment of the timer tick lies behind the last instruction tick, not behind the next one.
  rw [tickOffset_lt_iff timeline.rate_pos] at hBefore
  rw [le_tickOffset_iff timeline.rate_pos] at hAfter
  have hUpper : (tickOffset timerRate (timeline.timerTicks + 1) * timeline.rate) ⌈/⌉ second ≤
      timeline.instructions + 1 := by
    rw [ceilDiv_le_iff_le_mul hSecond, Nat.mul_comm second]
    exact hAfter
  have hLower : ¬ (tickOffset timerRate (timeline.timerTicks + 1) * timeline.rate) ⌈/⌉ second ≤
      timeline.instructions := by
    rw [ceilDiv_le_iff_le_mul hSecond, Nat.mul_comm second]
    exact Nat.not_le_of_lt hBefore
  omega

end Timeline

namespace Scheduler

/-- The latest moment of a call, exclusively, up to which moments never come near the horizon. -/
theorem lt_horizon {now : Nat} (h : now < 2 ^ 61) : now < horizon := by
  unfold horizon UInt64.size
  omega

theorem chronological_afterCalls {machine : Machine} {start : Scheduler}
    (hStart : ofMachine machine = .ok start) {calls : List Call}
    (hCalls : ∀ call ∈ calls, call.now < 2 ^ 61) :
    (start.afterCalls calls).timeline.Chronological := by
  have hFirst := Timeline.chronological_of_passed_eq_zero (timeline_of_ofMachine hStart).2.2
  clear hStart
  induction calls generalizing start with
  | nil => exact hFirst
  | cons call rest ih =>
      refine ih (fun other hOther => hCalls other (List.mem_cons_of_mem _ hOther)) ?_
      refine advance_keeps ?_ ?_ start call.keys hFirst
      · intro timeline _
        exact timeline.chronological_restart call.now
      · intro timeline kind hChronological hNext
        exact hChronological.pass (lt_horizon (hCalls call List.mem_cons_self)) hNext

section

variable {κ : Type} [KeyInput κ] {scheduler : Scheduler} {now : Nat} {keys : κ}

theorem advance_eq_catchUp_of_le (h : now ≤ scheduler.timeline.nextDeadline + maxLag) :
    scheduler.advance now keys = (Progress.start scheduler keys).catchUp now := by
  rw [advance, Progress.advance_eq_catchUp, Progress.refreshed_of_le h]

theorem advance_of_lt_nextDeadline (h : now < scheduler.timeline.nextDeadline) :
    scheduler.advance now keys = .start scheduler keys := by
  rw [advance_eq_catchUp_of_le (by omega)]
  apply Progress.catchUp_of_due?_eq_none
  rw [Timeline.nextDeadline] at h
  have hTimer : ¬ scheduler.timeline.Reached now scheduler.timeline.nextTimer :=
    fun hReached => by have := hReached.1; omega
  have hInstruction : ¬ scheduler.timeline.Reached now scheduler.timeline.nextInstruction :=
    fun hReached => by have := hReached.1; omega
  simp [Progress.due?, Progress.start, Timeline.nextTick?, hTimer, hInstruction]

/-- Without a fault all due ticks are processed, each of them is done as the work that it is, and
nothing is due afterwards. -/
theorem exists_processes_advance (hNow : now < horizon)
    (hLag : now ≤ scheduler.timeline.nextDeadline + maxLag)
    (hFault : (scheduler.advance now keys).fault = none) :
    ∃ ticks, Progress.Processes now (.start scheduler keys) ticks (scheduler.advance now keys) ∧
      ticks.Pairwise scheduler.timeline.Precedes ∧
      (∀ tick, tick ∈ ticks ↔ scheduler.timeline.IsDue now tick) ∧
      Session.Works ⟨scheduler.machine, keys⟩ ticks
        (shown (scheduler.advance now keys).signals.toList) (scheduler.advance now keys).session ∧
      (scheduler.advance now keys).executed = ticks.countP (·.kind = .instruction) ∧
      now < (scheduler.advance now keys).scheduler.timeline.nextDeadline := by
  rw [advance_eq_catchUp_of_le hLag] at hFault ⊢
  obtain ⟨ticks, hTicks⟩ := Progress.exists_processes_catchUp now (.start scheduler keys)
  have hEnd := Progress.nextTick?_catchUp hFault
  refine ⟨ticks, hTicks, hTicks.pairwise_precedes hNow, ?_,
    hTicks.works_of_signals_eq hFault rfl, ?_, ?_⟩
  · intro tick
    have hDue := hTicks.isDue_iff hNow tick
    have hNone := Timeline.not_isDue_of_nextTick?_eq_none hNow hEnd tick
    rw [or_iff_left hNone] at hDue
    exact hDue.symm
  · rw [hTicks.executed_eq hFault]
    exact Nat.zero_add _
  · exact Timeline.lt_nextDeadline hNow (Timeline.nextTick?_eq_none hNow hEnd)

end

/-- A call that is not too late and meets no fault processes exactly the due ticks, in order, each
instruction tick as a step of the machine and each timer tick as a count-down with the screen shown.
It reports how many of them were instructions; afterwards nothing is due. A call that is too early
does nothing. Whenever a timer tick is processed in any call, its moment tells how many instruction
ticks of the same origin have gone before it, and those of the call have been worked off. -/
theorem advance_processes_due_ticks {machine : Machine} {start : Scheduler}
    (hStart : ofMachine machine = .ok start) {calls : List Call}
    (hCalls : ∀ call ∈ calls, call.now < 2 ^ 61) {now : Nat} (hNow : now < 2 ^ 61)
    {κ : Type} [KeyInput κ] (keys : κ) :
    let scheduler := start.afterCalls calls
    let timeline := scheduler.timeline
    let result := scheduler.advance now keys
    timeline.rate = machine.config.frequency.toNat ∧
    (now ≤ timeline.nextDeadline + maxLag → result.fault = none →
      ∃ ticks, Progress.Processes now (.start scheduler keys) ticks result ∧
        ticks.Pairwise timeline.Precedes ∧
        (∀ tick, tick ∈ ticks ↔ timeline.IsDue now tick) ∧
        Session.Works ⟨scheduler.machine, keys⟩ ticks (shown result.signals.toList)
          result.session ∧
        result.executed = ticks.countP (·.kind = .instruction) ∧
        now < result.scheduler.timeline.nextDeadline) ∧
    (now < timeline.nextDeadline → result = .start scheduler keys) ∧
    ∀ ticks reached,
      Progress.Processes now ((Progress.start scheduler keys).refreshed now) ticks reached →
      reached.due? now = some .timer →
      Session.Works ⟨scheduler.machine, keys⟩ ticks (shown reached.signals.toList)
          reached.session ∧
        reached.scheduler.timeline.instructions =
          (tickOffset timerRate (reached.scheduler.timeline.timerTicks + 1) *
            machine.config.frequency.toNat) ⌈/⌉ second - 1 := by
  have hHorizon := lt_horizon hNow
  dsimp only
  have hRate : (start.afterCalls calls).timeline.rate = machine.config.frequency.toNat :=
    (rate_afterCalls start calls).trans (timeline_of_ofMachine hStart).1
  refine ⟨hRate, ?_, ?_, ?_⟩
  · intro hLag hFault
    exact exists_processes_advance hHorizon hLag hFault
  · intro hEarly
    exact advance_of_lt_nextDeadline hEarly
  · intro ticks reached hTicks hDue
    have hReached : reached.scheduler.timeline.Chronological ∧
        reached.scheduler.timeline.rate = machine.config.frequency.toNat := by
      refine hTicks.keeps (motive := fun timeline =>
        timeline.Chronological ∧ timeline.rate = machine.config.frequency.toNat) ?_ ?_
      · rintro timeline kind ⟨hChronological, hRate⟩ hNext
        exact ⟨hChronological.pass hHorizon hNext, by rw [Timeline.rate_pass, hRate]⟩
      · rcases (Progress.start (start.afterCalls calls) keys).timeline_refreshed now with
          hSame | hRestarted
        · rw [hSame]
          exact ⟨chronological_afterCalls hStart hCalls, hRate⟩
        · rw [hRestarted]
          exact ⟨Timeline.chronological_restart _ _, hRate⟩
    have hNext := Timeline.nextTick?_eq_timer hHorizon (Progress.nextTick?_of_due? hDue)
    refine ⟨hTicks.works_of_refreshed (Progress.fault_eq_none_of_due? hDue), ?_⟩
    rw [hReached.1.instructions_eq hNext.1, hReached.2]

/-- At seven hundred instructions a second, a whole second is caught up with after a call that
came late and one that came with an earlier moment. -/
theorem advance_processes_due_ticks_of_one_second :
    ∃ start, ofMachine (.initial { frequency := 700 } (.ofSeed 0)) = .ok start ∧
      let calls : List Call := [⟨20000000, Keypad.initial⟩, ⟨5000000, Keypad.initial⟩]
      let scheduler := start.afterCalls calls
      let result := scheduler.advance 1000000000 Keypad.initial
      (∀ call ∈ calls, call.now < 2 ^ 61) ∧
      1000000000 ≤ scheduler.timeline.nextDeadline + maxLag ∧ result.fault = none ∧
      ∃ ticks, Progress.Processes 1000000000 (.start scheduler Keypad.initial) ticks result ∧
        ticks.Pairwise scheduler.timeline.Precedes ∧
        (∀ tick, tick ∈ ticks ↔ scheduler.timeline.IsDue 1000000000 tick) ∧
        Session.Works ⟨scheduler.machine, Keypad.initial⟩ ticks (shown result.signals.toList)
          result.session ∧
        result.executed = ticks.countP (·.kind = .instruction) ∧
        1000000000 < result.scheduler.timeline.nextDeadline := by
  obtain ⟨start, hStart, hStrict⟩ :=
    exists_ofMachine (.initial { frequency := 700 } (.ofSeed 0)) rfl rfl
  refine ⟨start, hStart, ?_⟩
  dsimp only
  have hCalls : ∀ call ∈ ([⟨20000000, Keypad.initial⟩, ⟨5000000, Keypad.initial⟩] : List Call),
      call.now < 2 ^ 61 := by
    simp
  have hLag (deadline : Nat) : 1000000000 ≤ deadline + maxLag := Nat.le_add_left _ _
  have hFault := (permissive_advance (permissive_afterCalls hStrict
    [⟨20000000, Keypad.initial⟩, ⟨5000000, Keypad.initial⟩]) 1000000000 Keypad.initial).2
  exact ⟨hCalls, hLag _, hFault,
    (advance_processes_due_ticks hStart hCalls (by decide) Keypad.initial).2.1 (hLag _) hFault⟩

end Scheduler

end Chip8
