import Chip8.Proofs.Keys.Polling
import Chip8.Proofs.Schedule.Batches
import Mathlib.Order.Interval.Finset.Nat

/-!
The loop of a call, lap by lap. Every lap takes one tick from the finitely many that are due, so the
loop ends, although many ticks may be due at the same nanosecond. For `2 ^ 61` nanoseconds all
numbers that a lap computes stay in their words, and no deadline that has come is cut off at the
horizon; so a loop over words, which looks at nothing but deadlines, does what exact arithmetic says.
-/

namespace Chip8

/-- The nanoseconds that a duration can hold, exclusively. Its whole seconds are a word. -/
def durationSize : Nat :=
  UInt64.size * second

namespace Timeline

variable {timeline : Timeline} {now latest : Nat}

/-- Whether all numbers that tell the next deadline of each kind stay in their words: the number of
the next tick, the nanoseconds of as many seconds in a word of double size, and the origin and the
time since then in a duration. -/
structure InWords (timeline : Timeline) : Prop where
  number_lt (kind : Tick) : timeline.passed kind + 1 < UInt64.size
  product_lt (kind : Tick) :
    (timeline.passed kind + 1) * second < UInt64.size * UInt64.size
  moment_lt (kind : Tick) :
    timeline.origin + tickMoment (timeline.rateOf kind) (timeline.passed kind + 1) < durationSize

/-- The tick that a lap takes, told by the next deadlines alone. -/
def lapTick? (timeline : Timeline) (now : Nat) : Option Tick :=
  if timeline.nextTimer ≤ timeline.nextInstruction ∧ timeline.nextTimer ≤ now then
    some .timer
  else if timeline.nextInstruction ≤ now then
    some .instruction
  else
    none

/-- Before the horizon a lap need not look at it. -/
theorem lapTick?_eq_nextTick? (hNow : now < horizon) :
    timeline.lapTick? now = timeline.nextTick? now := by
  have hReached (moment : Nat) : timeline.Reached now moment ↔ moment ≤ now := by
    simp only [Reached]
    omega
  simp only [lapTick?, nextTick?, hReached]

/-- A deadline that has come is not cut off at the horizon. -/
theorem tickMoment_eq_tickOffset {kind : Tick} {number : Nat} (hNow : now < horizon)
    (h : timeline.origin + tickMoment (timeline.rateOf kind) number ≤ now) :
    tickMoment (timeline.rateOf kind) number = tickOffset (timeline.rateOf kind) number := by
  rw [tickMoment_eq_min] at *
  omega

/-! ### The due ticks -/

/-- The number of the last tick of a kind whose moment has come. -/
def lastDue (timeline : Timeline) (now : Nat) (kind : Tick) : Nat :=
  ((now + 1 - timeline.origin) * timeline.rateOf kind - 1) / second

theorem le_lastDue_iff {tick : NumberedTick} (hNumber : 0 < tick.number) :
    tick.number ≤ timeline.lastDue now tick.kind ↔ timeline.moment tick ≤ now := by
  have hMoment : timeline.moment tick ≤ now ↔
      tickOffset (timeline.rateOf tick.kind) tick.number < now + 1 - timeline.origin := by
    rw [moment]
    omega
  have hProduct : 0 < tick.number * second := Nat.mul_pos hNumber (by decide)
  rw [hMoment, tickOffset_lt_iff (timeline.rateOf_pos tick.kind), lastDue,
    Nat.le_div_iff_mul_le (by decide)]
  omega

/-- The ticks that have not been passed although their moments have come. -/
def dueTicks (timeline : Timeline) (now : Nat) : Finset NumberedTick :=
  ({.instruction, .timer} : Finset Tick).biUnion fun kind =>
    (Finset.Ioc (timeline.passed kind) (timeline.lastDue now kind)).image (NumberedTick.mk kind)

theorem mem_dueTicks_iff {tick : NumberedTick} :
    tick ∈ timeline.dueTicks now ↔ timeline.IsDue now tick := by
  have hKind : tick.kind ∈ ({.instruction, .timer} : Finset Tick) := by
    cases tick.kind <;> decide
  have hMem : tick ∈ timeline.dueTicks now ↔
      timeline.passed tick.kind < tick.number ∧
        tick.number ≤ timeline.lastDue now tick.kind := by
    simp only [dueTicks, Finset.mem_biUnion, Finset.mem_image, Finset.mem_Ioc]
    constructor
    · rintro ⟨kind, -, number, hNumber, rfl⟩
      exact hNumber
    · intro hNumber
      exact ⟨tick.kind, hKind, tick.number, hNumber, rfl⟩
  rw [hMem, IsDue]
  exact and_congr_right fun hPassed => le_lastDue_iff (Nat.zero_lt_of_lt hPassed)

/-- Passing the tick named next takes it, and no other, from those that are due. -/
theorem dueTicks_pass (hNow : now < horizon) {kind : Tick}
    (h : timeline.nextTick? now = some kind) :
    timeline.next kind ∈ timeline.dueTicks now ∧
      (timeline.pass kind).dueTicks now = (timeline.dueTicks now).erase (timeline.next kind) := by
  have hMoment := moment_next_le hNow h
  refine ⟨mem_dueTicks_iff.mpr ⟨Nat.lt_succ_self _, hMoment⟩, ?_⟩
  ext tick
  rw [Finset.mem_erase, mem_dueTicks_iff, mem_dueTicks_iff, isDue_iff_of_pass hMoment]
  constructor
  · intro hDue
    refine ⟨?_, .inr hDue⟩
    rintro rfl
    have hPassed := hDue.1
    rw [passed_pass, next, if_pos rfl] at hPassed
    exact Nat.lt_irrefl _ hPassed
  · rintro ⟨hOther, hSame | hDue⟩
    · exact absurd hSame hOther
    · exact hDue

/-- As many ticks are due less as have been passed. -/
theorem Passes.length_add_card_dueTicks {start final : Timeline} {ticks : List NumberedTick}
    (h : Passes now start ticks final) (hNow : now < horizon) :
    ticks.length + (final.dueTicks now).card = (start.dueTicks now).card := by
  induction h with
  | done => rw [List.length_nil, Nat.zero_add]
  | next due _ ih =>
      obtain ⟨hMem, hErase⟩ := dueTicks_pass hNow due
      rw [hErase] at ih
      rw [List.length_cons, ← Finset.card_erase_add_one hMem, ← ih]
      omega

/-! ### Words -/

/-- Whether a timeline has a rate of 32 bits and has passed no tick whose moment lies behind a
time. -/
structure Bounded (timeline : Timeline) (latest : Nat) : Prop where
  rate_lt : timeline.rate < UInt32.size
  notAhead : timeline.NotAhead latest

namespace Bounded

theorem restart (h : timeline.Bounded latest) (hNow : now ≤ latest) :
    (timeline.restart now).Bounded latest :=
  ⟨h.rate_lt, (timeline.notAhead_restart now).mono hNow⟩

theorem pass (h : timeline.Bounded latest) (hLatest : latest < horizon) (hNow : now ≤ latest)
    {kind : Tick} (hNext : timeline.nextTick? now = some kind) :
    (timeline.pass kind).Bounded latest where
  rate_lt := by
    rw [rate_pass]
    exact h.rate_lt
  notAhead := h.notAhead.pass hLatest (nextTick?_of_le hNow hNext)

theorem rateOf_lt (h : timeline.Bounded latest) (kind : Tick) :
    timeline.rateOf kind < UInt32.size := by
  cases kind with
  | instruction => exact h.rate_lt
  | timer => exact (by decide : timerRate < UInt32.size)

theorem origin_le (h : timeline.Bounded latest) : timeline.origin ≤ latest :=
  Nat.le_trans (Nat.le_add_right _ _) (h.notAhead .timer)

theorem passed_mul_second_lt (h : timeline.Bounded latest) (hLatest : latest < 2 ^ 61)
    (kind : Tick) : timeline.passed kind * second < 2 ^ 61 * UInt32.size := by
  have hMoment : timeline.origin + tickOffset (timeline.rateOf kind) (timeline.passed kind) ≤
      latest := h.notAhead kind
  have hOffset : tickOffset (timeline.rateOf kind) (timeline.passed kind) < 2 ^ 61 := by omega
  calc timeline.passed kind * second
      < 2 ^ 61 * timeline.rateOf kind := (tickOffset_lt_iff (timeline.rateOf_pos kind)).mp hOffset
    _ ≤ 2 ^ 61 * UInt32.size := Nat.mul_le_mul_left _ (Nat.le_of_lt (h.rateOf_lt kind))

/-- Up to a time less than `2 ^ 61` all numbers stay in their words. Twice that time would be too
long for the numbers of instruction ticks. -/
theorem inWords (h : timeline.Bounded latest) (hLatest : latest < 2 ^ 61) : timeline.InWords := by
  have hPassed := h.passed_mul_second_lt hLatest
  have hOrigin := h.origin_le
  have hSecond : second = 1000000000 := rfl
  have hRates : UInt32.size = 4294967296 := rfl
  have hWord : UInt64.size = 18446744073709551616 := rfl
  have hNumber (kind : Tick) : timeline.passed kind + 1 < UInt64.size := by
    have hProduct := hPassed kind
    rw [hSecond, hRates] at hProduct
    rw [hWord]
    omega
  refine ⟨hNumber, fun kind => ?_, fun kind => ?_⟩
  · exact Nat.mul_lt_mul'' (hNumber kind) (by decide)
  · have hMoment : tickMoment (timeline.rateOf kind) (timeline.passed kind + 1) ≤ horizon :=
      Nat.min_le_right _ _
    rw [horizon, hWord] at hMoment
    rw [durationSize, hSecond, hWord]
    omega

end Bounded

end Timeline

namespace Progress

variable {κ : Type} [KeyInput κ] {now latest : Nat} {start final : Progress κ}
  {ticks : List NumberedTick}

/-- Laps of the loop of a call until it is left, be it that nothing is due any more or that a step
fails. A lap computes deadlines that stay in their words, and takes the tick that they tell. -/
inductive Laps (now : Nat) : Progress κ → List NumberedTick → Progress κ → Prop where
  | idle {progress : Progress κ} (words : progress.scheduler.timeline.InWords)
      (due : progress.scheduler.timeline.lapTick? now = none) : Laps now progress [] progress
  | fault {progress : Progress κ} {kind : Tick} (words : progress.scheduler.timeline.InWords)
      (due : progress.scheduler.timeline.lapTick? now = some kind)
      (fails : (progress.perform kind).fault.isSome) :
      Laps now progress [progress.scheduler.timeline.next kind] (progress.perform kind)
  | lap {progress final : Progress κ} {kind : Tick} {ticks : List NumberedTick}
      (words : progress.scheduler.timeline.InWords)
      (due : progress.scheduler.timeline.lapTick? now = some kind)
      (goesOn : (progress.perform kind).fault = none)
      (rest : Laps now (progress.perform kind) ticks final) :
      Laps now progress (progress.scheduler.timeline.next kind :: ticks) final

/-- Ticks processed until none is due are laps, if all numbers stay in their words meanwhile. -/
theorem Processes.laps (h : Processes now start ticks final) (hNow : now < horizon)
    (hWords : ∀ earlier reached, Processes now start earlier reached →
      reached.scheduler.timeline.InWords)
    (hStart : start.fault = none) (hEnd : final.due? now = none) : Laps now start ticks final := by
  induction h with
  | done progress =>
      refine .idle (hWords [] progress (.done progress)) ?_
      rw [Timeline.lapTick?_eq_nextTick? hNow]
      simpa [due?, hStart] using hEnd
  | @next progress final kind ticks first rest ih =>
      have hFirst : progress.scheduler.timeline.lapTick? now = some kind := by
        rw [Timeline.lapTick?_eq_nextTick? hNow]
        exact nextTick?_of_due? first
      have hHere := hWords [] progress (.done progress)
      have hRest := ih (fun earlier reached hEarlier => hWords _ reached (.next first hEarlier))
      cases hFault : (progress.perform kind).fault with
      | none => exact .lap hHere hFirst hFault (hRest hFault hEnd)
      | some fault =>
          -- Nothing is due after a fault.
          cases rest with
          | done => exact .fault hHere hFirst (by rw [hFault]; rfl)
          | next second _ =>
              rw [fault_eq_none_of_due? second] at hFault
              cases hFault

theorem Processes.bounded (h : Processes now start ticks final) (hLatest : latest < horizon)
    (hNow : now ≤ latest) (hStart : start.scheduler.timeline.Bounded latest) :
    final.scheduler.timeline.Bounded latest :=
  h.keeps (motive := (·.Bounded latest))
    (fun _ _ hBounded hNext => hBounded.pass hLatest hNow hNext) hStart

omit [KeyInput κ] in
theorem bounded_refreshed (hNow : now ≤ latest) (h : start.scheduler.timeline.Bounded latest) :
    (start.refreshed now).scheduler.timeline.Bounded latest := by
  rcases start.timeline_refreshed now with hSame | hRestarted
  · rw [hSame]
    exact h
  · rw [hRestarted]
    exact h.restart hNow

section

variable (hLatest : latest < 2 ^ 61) (hNow : now ≤ latest)
  (hStart : start.scheduler.timeline.Bounded latest)

include hLatest hNow hStart

theorem Processes.inWords (h : Processes now start ticks final) :
    final.scheduler.timeline.InWords :=
  (h.bounded (Scheduler.lt_horizon hLatest) hNow hStart).inWords hLatest

/-- Catching up is done lap by lap, and the laps are as many as the ticks that they take from those
that are due. -/
theorem exists_laps_catchUp (hFault : start.fault = none) :
    ∃ ticks, Laps now start ticks (start.catchUp now) ∧
      ticks.length + ((start.catchUp now).scheduler.timeline.dueTicks now).card =
        (start.scheduler.timeline.dueTicks now).card := by
  have hHorizon := Scheduler.lt_horizon (Nat.lt_of_le_of_lt hNow hLatest)
  have hProcesses := processes_ticks now start
  refine ⟨start.ticks now, ?_, hProcesses.passes.length_add_card_dueTicks hHorizon⟩
  refine hProcesses.laps hHorizon ?_ hFault (due?_catchUp now start)
  exact fun earlier reached hEarlier => hEarlier.inWords hLatest hNow hStart

/-- No more instructions are executed than there are numbers for. -/
theorem executed_catchUp_lt (hFault : start.fault = none) (hExecuted : start.executed = 0) :
    (start.catchUp now).executed < UInt64.size := by
  have hProcesses := processes_ticks now start
  have hCount := hProcesses.executed_add_eq hFault
  have hPassed := hProcesses.passed_eq .instruction
  have hNumber := (hProcesses.inWords hLatest hNow hStart).number_lt .instruction
  omega

end

/-- Without a fault catching up uses up all due ticks. -/
theorem dueTicks_catchUp (hNow : now < horizon) (hFault : (start.catchUp now).fault = none) :
    (start.catchUp now).scheduler.timeline.dueTicks now = ∅ := by
  have hNone := nextTick?_catchUp hFault
  refine Finset.eq_empty_of_forall_notMem fun tick hTick => ?_
  exact Timeline.not_isDue_of_nextTick?_eq_none hNow hNone tick (Timeline.mem_dueTicks_iff.mp hTick)

end Progress

namespace Scheduler

theorem bounded_of_ofMachine {machine : Machine} {scheduler : Scheduler}
    (h : ofMachine machine = .ok scheduler) (latest : Nat) :
    scheduler.timeline.Bounded latest := by
  obtain ⟨hRate, hOrigin, hPassed⟩ := timeline_of_ofMachine h
  refine ⟨?_, Timeline.notAhead_of_passed_eq_zero ?_ hPassed⟩
  · rw [hRate]
    exact machine.config.frequency.toNat_lt_size
  · rw [hOrigin]
    exact Nat.zero_le latest

/-- No call passes a tick whose moment lies behind the latest of all calls, in whatever order they
come. -/
theorem bounded_afterCalls {scheduler : Scheduler} {calls : List Call} {latest : Nat}
    (hLatest : latest < horizon) (hCalls : ∀ call ∈ calls, call.now ≤ latest)
    (h : scheduler.timeline.Bounded latest) :
    (scheduler.afterCalls calls).timeline.Bounded latest := by
  induction calls generalizing scheduler with
  | nil => exact h
  | cons call rest ih =>
      obtain ⟨hFirst, hRest⟩ := List.forall_mem_cons.mp hCalls
      refine ih hRest (advance_keeps (motive := (·.Bounded latest)) ?_ ?_ scheduler call.keys h)
      · exact fun timeline hBounded => hBounded.restart hFirst
      · exact fun timeline kind hBounded hNext => hBounded.pass hLatest hFirst hNext

/-- A call up to `2 ^ 61` nanoseconds, after any calls up to then, ends after finitely many laps.
Each lap takes one of the ticks that are due, and these are finitely many; they are used up unless a
step fails. Before, during and after the call the numbers of ticks, their moments and the count of
executed instructions stay in their words, and no deadline that has come is cut off at the horizon.
Whatever the keys are polled from, draining them ends as well. -/
theorem call_ends_in_words {machine : Machine} {start : Scheduler}
    (hStart : ofMachine machine = .ok start) {calls : List Call}
    (hCalls : ∀ call ∈ calls, call.now < 2 ^ 61) {now : Nat} (hNow : now < 2 ^ 61)
    {κ : Type} (isHeld : κ → UInt8 → Bool) {poll : κ → Option UInt8 × κ}
    (hPoll : KeyInput.ComesToEnd poll) (keys : κ) :
    letI : KeyInput κ := .ofPoll isHeld hPoll
    let scheduler := start.afterCalls calls
    let begun := (Progress.start scheduler keys).refreshed now
    let result := scheduler.advance now keys
    scheduler.timeline.InWords ∧
    (∃ ticks, Progress.Laps now begun ticks result ∧
      ticks.length + (result.scheduler.timeline.dueTicks now).card =
        (begun.scheduler.timeline.dueTicks now).card ∧
      (result.fault = none → result.scheduler.timeline.dueTicks now = ∅)) ∧
    (∀ (reached : Progress κ) (kind : Tick),
      reached.scheduler.timeline.lapTick? now = some kind →
        reached.scheduler.timeline.next kind ∈ reached.scheduler.timeline.dueTicks now ∧
        (reached.perform kind).scheduler.timeline.dueTicks now =
          (reached.scheduler.timeline.dueTicks now).erase
            (reached.scheduler.timeline.next kind)) ∧
    (∀ (timeline : Timeline) (tick : NumberedTick),
      tick ∈ timeline.dueTicks now ↔ timeline.IsDue now tick) ∧
    (result.scheduler.timeline.InWords ∧ result.executed < UInt64.size) ∧
    (∀ (timeline : Timeline) (kind : Tick) (number : Nat),
      timeline.origin + tickMoment (timeline.rateOf kind) number ≤ now →
        tickMoment (timeline.rateOf kind) number = tickOffset (timeline.rateOf kind) number) ∧
    ∀ keys : κ,
      KeyInput.PollsUntilNone poll keys (KeyInput.drain keys).1 (KeyInput.drain keys).2 := by
  let _ : KeyInput κ := .ofPoll isHeld hPoll
  intro scheduler begun result
  have hHorizon := lt_horizon hNow
  -- The moments of all calls are at most this one.
  let latest : Nat := 2 ^ 61 - 1
  have hLatest : latest < 2 ^ 61 := by decide
  have hNowLatest : now ≤ latest := Nat.le_pred_of_lt hNow
  have hScheduler : scheduler.timeline.Bounded latest :=
    bounded_afterCalls (lt_horizon hLatest)
      (fun call hCall => Nat.le_pred_of_lt (hCalls call hCall)) (bounded_of_ofMachine hStart latest)
  have hBegun : begun.scheduler.timeline.Bounded latest :=
    Progress.bounded_refreshed hNowLatest hScheduler
  have hFault : begun.fault = none := Progress.fault_refreshed _ _
  have hExecuted : begun.executed = 0 := Progress.executed_refreshed _ _
  have hResult : result = begun.catchUp now := Progress.advance_eq_catchUp _ now
  rw [hResult]
  obtain ⟨ticks, hLaps, hCount⟩ :=
    Progress.exists_laps_catchUp hLatest hNowLatest hBegun hFault
  refine ⟨hScheduler.inWords hLatest,
    ⟨ticks, hLaps, hCount, Progress.dueTicks_catchUp hHorizon⟩, ?_,
    fun timeline tick => Timeline.mem_dueTicks_iff,
    ⟨(Progress.processes_ticks now begun).inWords hLatest hNowLatest hBegun,
      Progress.executed_catchUp_lt hLatest hNowLatest hBegun hFault hExecuted⟩,
    fun timeline kind number => Timeline.tickMoment_eq_tickOffset hHorizon,
    fun keys => KeyInput.pollsUntilNone_drain keys⟩
  intro reached kind hLap
  rw [Timeline.lapTick?_eq_nextTick? hHorizon] at hLap
  rw [Progress.timeline_perform]
  exact Timeline.dueTicks_pass hHorizon hLap

/-- At four instruction ticks a nanosecond, a call catches up with most of a second, after one that
came late by more than sixty years and one that came with an earlier moment. -/
theorem call_ends_in_words_at_highest_rate :
    ∃ start, ofMachine (.initial { frequency := 4294967295 } (.ofSeed 0)) = .ok start ∧
      let calls : List Call := [⟨2000000000000000000, Keypad.initial⟩, ⟨5, Keypad.initial⟩]
      let now : Nat := 2000000000900000000
      (∀ call ∈ calls, call.now < 2 ^ 61) ∧ now < 2 ^ 61 ∧
      ∃ hPoll : KeyInput.ComesToEnd Keypad.poll,
        letI : KeyInput Keypad := .ofPoll Keypad.isHeld hPoll
        let scheduler := start.afterCalls calls
        let begun := (Progress.start scheduler Keypad.initial).refreshed now
        let result := scheduler.advance now Keypad.initial
        result.fault = none ∧ result.scheduler.timeline.dueTicks now = ∅ ∧
          ∃ ticks, Progress.Laps now begun ticks result ∧
            ticks.length + (result.scheduler.timeline.dueTicks now).card =
              (begun.scheduler.timeline.dueTicks now).card := by
  obtain ⟨start, hStart, hStrict⟩ :=
    exists_ofMachine (.initial { frequency := 4294967295 } (.ofSeed 0)) rfl rfl
  refine ⟨start, hStart, ?_⟩
  intro calls now
  have hCalls : ∀ call ∈ calls, call.now < 2 ^ 61 := by
    simp [calls]
  have hNow : now < 2 ^ 61 := by decide
  have hPoll : KeyInput.ComesToEnd Keypad.poll := KeyInput.comesToEnd_poll
  refine ⟨hCalls, hNow, hPoll, ?_⟩
  have hPermissive : (start.afterCalls calls).machine.config.strict = false :=
    permissive_afterCalls hStrict calls
  have hFault :=
    (@permissive_advance Keypad (.ofPoll Keypad.isHeld hPoll) _ hPermissive now Keypad.initial).2
  obtain ⟨-, ⟨ticks, hLaps, hCount, hUsedUp⟩, -⟩ :=
    call_ends_in_words hStart hCalls hNow Keypad.isHeld hPoll Keypad.initial
  exact ⟨hFault, hUsedUp hFault, ticks, hLaps, hCount⟩

end Scheduler

end Chip8
