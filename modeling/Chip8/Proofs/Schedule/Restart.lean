import Chip8.Proofs.Circumstances.Step
import Chip8.Proofs.Schedule.Postponing
import Chip8.Proofs.Schedule.Sound

/-!
Restarts. A call after a long stall skips all that was missed and does nothing else. From then on
the scheduler is a new one for the same machine, only that its time begins with that call.
-/

namespace Chip8

theorem Progress.scheduler_fulfilment {κ : Type} (progress : Progress κ) (log : List Occurrence) :
    (progress.fulfilment log).scheduler = progress.scheduler :=
  rfl

namespace Scheduler

/-- Whether all that a scheduler can be asked to do keeps a property. -/
structure Invariant (motive : Scheduler → Prop) : Prop where
  restart (scheduler : Scheduler) (now : Nat) : motive scheduler → motive (scheduler.restart now)
  perform {κ : Type} [KeyInput κ] (progress : Progress κ) (tick : Tick) :
    motive progress.scheduler → motive (progress.perform tick).scheduler
  silence (scheduler : Scheduler) : motive scheduler → motive { scheduler with soundOn := false }

namespace Invariant

variable {motive : Scheduler → Prop} {κ γ : Type} [KeyInput κ] [Clock γ]

theorem advance (h : Invariant motive) (progress : Progress κ) (now : Nat)
    (hStart : motive progress.scheduler) : motive (progress.advance now).scheduler := by
  rw [Progress.advance_eq_catchUp]
  refine exhaust_induction (motive := fun current : Progress κ => motive current.scheduler) _ ?_ ?_
  · by_cases hLate : progress.scheduler.timeline.nextDeadline + maxLag < now
    · rw [Progress.refreshed_of_lt hLate]
      exact h.restart progress.scheduler now hStart
    · rw [Progress.refreshed_of_le (Nat.not_lt.mp hLate)]
      exact hStart
  · intro current tick _ hCurrent
    exact h.perform current tick hCurrent

theorem rounds (h : Invariant motive) (host : Host κ) (wanted : Nat) (run : Run κ γ)
    (hStart : motive run.progress.scheduler) :
    motive (run.rounds host wanted).progress.scheduler := by
  induction wanted generalizing run with
  | zero =>
      rw [Run.rounds, Run.stop, silence_eq, Run.note]
      exact h.silence run.progress.scheduler hStart
  | succ wanted ih =>
      have hAdvance := h.advance (run.ask host).progress (Clock.now (run.ask host).clock).1 hStart
      rw [Run.rounds]
      by_cases hFault : (run.ask host).advance.progress.fault.isSome = true
      · rw [if_pos hFault]
        exact hAdvance
      · rw [if_neg hFault]
        exact ih _ hAdvance

theorem afterDemands (h : Invariant motive) (scheduler : Scheduler) (demands : List Demand)
    (hStart : motive scheduler) : motive (scheduler.afterDemands demands) := by
  induction demands generalizing scheduler with
  | nil => exact hStart
  | cons demand rest ih =>
      rw [Scheduler.afterDemands]
      apply ih
      cases demand with
      | advance call =>
          rw [fulfil, Progress.scheduler_fulfilment, Scheduler.call, Scheduler.advance]
          exact h.advance (.start scheduler call.keys) call.now hStart
      | run call =>
          rw [fulfil, Progress.scheduler_fulfilment, Scheduler.run]
          exact h.rounds call.host call.wanted (scheduler.runStart call) hStart

end Invariant

/-- Whether instructions are due at the frequency that the machine is set to. -/
def AtFrequency (scheduler : Scheduler) : Prop :=
  scheduler.timeline.rate = scheduler.machine.config.frequency.toNat

theorem atFrequency_of_ofMachine {machine : Machine} {scheduler : Scheduler}
    (h : ofMachine machine = .ok scheduler) : scheduler.AtFrequency := by
  unfold ofMachine at h
  split at h
  · contradiction
  · obtain rfl := Except.ok.inj h
    rfl

theorem config_perform {κ : Type} [KeyInput κ] (progress : Progress κ) (tick : Tick) :
    (progress.perform tick).scheduler.machine.config = progress.scheduler.machine.config := by
  cases tick with
  | instruction => exact progress.scheduler.machine.config_step progress.keys
  | timer =>
      rw [Progress.machine_perform_timer]
      rfl

theorem invariant_atFrequency : Invariant AtFrequency where
  restart _ _ h := h
  perform progress tick h := by
    rw [AtFrequency, Progress.timeline_perform, Timeline.rate_pass, config_perform]
    exact h
  silence _ h := h

/-- A scheduler for the same machine can be made anew. Restarted, a scheduler is that one, but for
the beginning of its time and for the sound. -/
theorem exists_restart_eq {scheduler : Scheduler} (h : scheduler.AtFrequency) (now : Nat) :
    ∃ made, ofMachine scheduler.machine = .ok made ∧
      scheduler.restart now = { made with soundOn := scheduler.soundOn }.postpone now := by
  obtain ⟨machine, ⟨rate, hPos, origin, instructions, timerTicks⟩, soundOn⟩ := scheduler
  obtain rfl : rate = machine.config.frequency.toNat := h
  have hValid : machine.config.validate = .ok () := by
    have hFrequency : machine.config.frequency ≠ 0 := by
      intro hZero
      rw [hZero] at hPos
      exact Nat.lt_irrefl 0 hPos
    rw [Config.validate, if_neg hFrequency]
  refine ⟨⟨machine, ⟨machine.config.frequency.toNat, hPos, 0, 0, 0⟩, false⟩, ?_, rfl⟩
  unfold ofMachine
  split
  · next hInvalid =>
      rw [hValid] at hInvalid
      contradiction
  · rfl

end Scheduler

/-- At no more than one instruction a nanosecond nothing is due right at the beginning. -/
theorem Timeline.nextTick?_restart {timeline : Timeline} (hRate : timeline.rate ≤ second)
    (now : Nat) : (timeline.restart now).nextTick? now = none := by
  have hTimer : 0 < tickMoment timerRate 1 := by decide
  have hInstruction : 0 < tickMoment timeline.rate 1 := by
    have hDiv : 0 < 1 * second / timeline.rate :=
      Nat.div_pos (by omega) timeline.rate_pos
    have hHorizon : 0 < horizon := by decide
    rw [tickMoment]
    omega
  have hNone (moment : Nat) (hMoment : 0 < moment) :
      ¬ (timeline.restart now).Reached now (now + moment) :=
    fun hReached => by have := hReached.1; omega
  have hNextTimer : (timeline.restart now).nextTimer = now + tickMoment timerRate 1 := rfl
  have hNextInstruction : (timeline.restart now).nextInstruction =
      now + tickMoment timeline.rate 1 := rfl
  rw [nextTick?, hNextTimer, hNextInstruction, if_neg (fun h => hNone _ hTimer h.2),
    if_neg (hNone _ hInstruction)]

namespace Scheduler

/-- After a long stall a call restarts the timeline and does nothing else. -/
theorem advance_of_lt {κ : Type} [KeyInput κ] {scheduler : Scheduler} {now : Nat} (keys : κ)
    (hRate : scheduler.timeline.rate ≤ second)
    (hLate : scheduler.timeline.nextDeadline + maxLag < now) :
    scheduler.advance now keys =
      ⟨scheduler.restart now, keys, 0, #[],
        #[.ticksSkipped (now - scheduler.timeline.nextDeadline)], none⟩ := by
  have hStart : (Progress.start scheduler keys).scheduler.timeline.nextDeadline + maxLag < now :=
    hLate
  have hNone : (scheduler.restart now).timeline.nextTick? now = none :=
    Timeline.nextTick?_restart hRate now
  have hRestarted : (Progress.start scheduler keys).refreshed now =
      ⟨scheduler.restart now, keys, 0, #[],
        #[.ticksSkipped (now - scheduler.timeline.nextDeadline)], none⟩ := by
    rw [Progress.refreshed_of_lt hStart]
    rfl
  rw [advance, Progress.advance_eq_catchUp, hRestarted]
  apply Progress.catchUp_of_due?_eq_none
  simp [Progress.due?, hNone]

/-- A call more than a second behind the next deadline meets no fault, executes nothing, gives no
signal, and leaves the machine, the keys and the sound as they are. From then on the scheduler
answers every sequence of calls as one made anew for the same machine, with the sound in the same
state, answers the calls that come as much earlier: both go on with the same machine and the same
sound, their deadlines stay apart by the moment of the restart, and they skip ticks together. -/
theorem resumes_like_new_after_stall {machine : Machine} {start : Scheduler}
    (hStart : ofMachine machine = .ok start) (demands : List Demand)
    (hRate : (start.afterDemands demands).timeline.rate ≤ second) {now : Nat}
    (hLate : (start.afterDemands demands).timeline.nextDeadline + maxLag < now)
    {κ : Type} [KeyInput κ] (keys : κ) :
    let scheduler := start.afterDemands demands
    let result := scheduler.advance now keys
    let resumed := result.scheduler
    (result.fault = none ∧ result.executed = 0 ∧ result.signals = #[] ∧ result.keys = keys ∧
      resumed.machine = scheduler.machine ∧ resumed.soundOn = scheduler.soundOn) ∧
    ∃ made, ofMachine scheduler.machine = .ok made ∧
      let fresh : Scheduler := { made with soundOn := scheduler.soundOn }
      ∀ calls : List Call,
        let later := resumed.afterCalls (calls.map (·.postpone now))
        let peer := fresh.afterCalls calls
        resumed.answers (calls.map (·.postpone now)) = fresh.answers calls ∧
        later.machine = peer.machine ∧ later.soundOn = peer.soundOn ∧
        later.timeline.nextDeadline = now + peer.timeline.nextDeadline ∧
        ∀ call : Call,
          later.advance (now + call.now) call.keys =
            (peer.advance call.now call.keys).postpone now := by
  intro scheduler result resumed
  have hFrequency : scheduler.AtFrequency :=
    invariant_atFrequency.afterDemands start demands (atFrequency_of_ofMachine hStart)
  obtain ⟨made, hMade, hRestart⟩ := exists_restart_eq hFrequency now
  have hResult : result =
      ⟨scheduler.restart now, keys, 0, #[],
        #[.ticksSkipped (now - scheduler.timeline.nextDeadline)], none⟩ :=
    advance_of_lt keys hRate hLate
  have hResumed : resumed = scheduler.restart now := by
    rw [show resumed = result.scheduler from rfl, hResult]
  constructor
  · rw [hResumed, hResult]
    exact ⟨rfl, rfl, rfl, rfl, rfl, rfl⟩
  refine ⟨made, hMade, fun calls => ?_⟩
  dsimp only
  rw [hResumed, hRestart]
  obtain ⟨hAnswers, hAfter⟩ :=
    ({ made with soundOn := scheduler.soundOn } : Scheduler).calls_postpone now calls
  rw [hAfter]
  refine ⟨hAnswers, rfl, rfl, ?_, fun call => ?_⟩
  · exact Timeline.nextDeadline_postpone _ _
  · exact advance_postpone _ _ _ _

/-- A scheduler stalls for almost three seconds while the sound is on. -/
theorem resumes_like_new_after_stall_in_tone :
    let machine : Machine :=
      { Machine.initial { frequency := 1 } (.ofSeed 0) with
          registers := { Registers.initial with sound := 3 } }
    let start : Scheduler := ⟨machine, ⟨1, by decide, 0, 0, 0⟩, false⟩
    let demands : List Demand := [.advance ⟨20000000, Keypad.initial⟩]
    let scheduler := start.afterDemands demands
    let result := scheduler.advance 3000000007 Keypad.initial
    ofMachine machine = .ok start ∧ scheduler.timeline.rate ≤ second ∧
    scheduler.timeline.nextDeadline + maxLag < 3000000007 ∧ scheduler.soundOn = true ∧
    result.executed = 0 ∧ result.scheduler.machine = scheduler.machine ∧
    ∃ made, ofMachine scheduler.machine = .ok made ∧
      let fresh : Scheduler := { made with soundOn := true }
      result.scheduler.answers [⟨3000000007 + 50000000, Keypad.initial⟩] =
        fresh.answers [⟨50000000, Keypad.initial⟩] := by
  intro machine start demands scheduler result
  let begun : Progress Keypad := .start start Keypad.initial
  have hDue : 20000000 ≤ begun.scheduler.timeline.nextDeadline + maxLag ∧
      begun.due? 20000000 = some .timer ∧ (begun.perform .timer).due? 20000000 = none ∧
      (begun.perform .timer).scheduler.soundOn = true ∧
      (begun.perform .timer).scheduler.timeline.rate ≤ second ∧
      (begun.perform .timer).scheduler.timeline.nextDeadline + maxLag < 3000000007 := by
    decide +kernel +revert
  obtain ⟨hPrompt, hTimer, hNone, hSound, hRate, hLate⟩ := hDue
  have hAdvance : begun.advance 20000000 = begun.perform .timer :=
    Progress.advance_eq_perform hPrompt hTimer hNone
  have hScheduler : scheduler = (begun.perform .timer).scheduler :=
    congrArg Progress.scheduler hAdvance
  rw [← hScheduler] at hSound hRate hLate
  have hStart : ofMachine machine = .ok start := rfl
  obtain ⟨⟨-, hExecuted, -, -, hMachine, -⟩, made, hMade, hCalls⟩ :=
    resumes_like_new_after_stall hStart demands hRate hLate Keypad.initial
  have hAnswers := (hCalls [⟨50000000, Keypad.initial⟩]).1
  refine ⟨hStart, hRate, hLate, hSound, hExecuted, hMachine, made, hMade, ?_⟩
  rw [show (start.afterDemands demands).soundOn = true from hSound] at hAnswers
  exact hAnswers

end Scheduler

end Chip8
