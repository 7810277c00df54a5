import Chip8.Proofs.Schedule.Work
import Chip8.Schedule.Run

/-!
What happens to a scheduler. A log lists it, one occurrence after another, each with the signals
given meanwhile; what happens on each occasion is said once. All work follows its log: the log leads
from the scheduler before to the one after, and the signals given are those of the log.
-/

namespace Chip8

inductive Occasion
  /-- Work begins; the timeline may start anew. -/
  | beginning
  | tick (kind : Tick)
  /-- The host ends a run. -/
  | ending
  deriving DecidableEq

/-- A scheduler before and after something happens to it, and the signals given meanwhile. -/
structure Occurrence where
  occasion : Occasion
  before : Scheduler
  after : Scheduler
  signals : List Signal

/-- The signals that switch the sound from one state to another. -/
def switches : Bool → Bool → List Signal
  | false, true => [.soundStart]
  | true, false => [.soundStop]
  | _, _ => []

/-- Whether an occurrence is as its occasion has it. -/
def Occurrence.Regular (occurrence : Occurrence) : Prop :=
  let before := occurrence.before
  let after := occurrence.after
  match occurrence.occasion with
  | .beginning =>
    after.machine = before.machine ∧ after.soundOn = before.soundOn ∧ occurrence.signals = [] ∧
      (after.timeline = before.timeline ∨ ∃ now, after.timeline = before.timeline.restart now)
  | .tick .instruction =>
    (∃ (κ : Type) (_ : KeyInput κ) (keys : κ),
        after.machine = (before.machine.step keys).outcome.machine) ∧
      after.soundOn = before.soundOn ∧ occurrence.signals = [] ∧
      after.timeline = { before.timeline with instructions := before.timeline.instructions + 1 }
  | .tick .timer =>
    before.machine.CountedDown after.machine ∧
      (after.soundOn = true ↔ 1 < after.machine.registers.sound) ∧
      occurrence.signals = .render after.machine.screen :: switches before.soundOn after.soundOn ∧
      after.timeline = { before.timeline with timerTicks := before.timeline.timerTicks + 1 }
  | .ending =>
    after = { before with soundOn := false } ∧ occurrence.signals = switches before.soundOn false

theorem Occurrence.regular_beginning {before after : Scheduler} {now : Nat}
    (hMachine : after.machine = before.machine) (hSound : after.soundOn = before.soundOn)
    (hTimeline : after.timeline = before.timeline ∨
      after.timeline = before.timeline.restart now) :
    Regular ⟨.beginning, before, after, []⟩ :=
  ⟨hMachine, hSound, rfl, hTimeline.imp_right fun hRestarted => ⟨now, hRestarted⟩⟩

/-- Whether occurrences lead from one scheduler to another, each one going on where the last one
ended. -/
inductive Linked : Scheduler → List Occurrence → Scheduler → Prop where
  | done (scheduler : Scheduler) : Linked scheduler [] scheduler
  | next (first : Occurrence) {rest : List Occurrence} {final : Scheduler}
      (h : Linked first.after rest final) : Linked first.before (first :: rest) final

theorem Linked.append {start middle final : Scheduler} {first second : List Occurrence}
    (hFirst : Linked start first middle) (hSecond : Linked middle second final) :
    Linked start (first ++ second) final := by
  induction hFirst with
  | done => exact hSecond
  | next occurrence _ ih => exact .next occurrence (ih hSecond)

namespace Scheduler

variable (scheduler : Scheduler)

theorem value_followSound :
    scheduler.followSound.value =
      ({ scheduler with soundOn := scheduler.machine.registers.isAudible },
        switches scheduler.soundOn scheduler.machine.registers.isAudible) := by
  obtain ⟨machine, timeline, soundOn⟩ := scheduler
  simp only [followSound]
  cases machine.registers.isAudible <;> cases soundOn <;> rfl

/-- A timer tick counts the timers down, shows the screen and makes the sound follow. -/
theorem value_tickTimers :
    scheduler.tickTimers.value =
      ({ scheduler with
          machine := scheduler.machine.tickTimers
          soundOn := scheduler.machine.tickTimers.registers.isAudible },
        .render scheduler.machine.screen ::
          switches scheduler.soundOn scheduler.machine.tickTimers.registers.isAudible) := by
  simp only [tickTimers, value_followSound]
  rfl

theorem silence_eq :
    scheduler.silence =
      ({ scheduler with soundOn := false }, switches scheduler.soundOn false) := by
  obtain ⟨machine, timeline, soundOn⟩ := scheduler
  cases soundOn <;> rfl

end Scheduler

namespace Progress

variable {κ : Type}

/-- The signals given since some earlier progress. -/
def signalsSince (progress earlier : Progress κ) : List Signal :=
  progress.signals.toList.drop earlier.signals.size

/-- What happens between some progress and a later one, as one occurrence. -/
def occurrence (earlier later : Progress κ) (occasion : Occasion) : Occurrence where
  occasion := occasion
  before := earlier.scheduler
  after := later.scheduler
  signals := later.signalsSince earlier

/-- Whether a log tells how some progress became another. -/
structure Follows (log : List Occurrence) (start final : Progress κ) : Prop where
  linked : Linked start.scheduler log final.scheduler
  regular : ∀ occurrence ∈ log, occurrence.Regular
  signals : final.signals.toList = start.signals.toList ++ log.flatMap Occurrence.signals

namespace Follows

variable {start middle final : Progress κ}

theorem nil (hScheduler : final.scheduler = start.scheduler)
    (hSignals : final.signals = start.signals) : Follows [] start final where
  linked := hScheduler ▸ .done start.scheduler
  regular := by simp
  signals := by simp [hSignals]

theorem append {first second : List Occurrence} (hFirst : Follows first start middle)
    (hSecond : Follows second middle final) : Follows (first ++ second) start final where
  linked := hFirst.linked.append hSecond.linked
  regular := by
    intro occurrence hOccurrence
    rcases List.mem_append.mp hOccurrence with h | h
    · exact hFirst.regular occurrence h
    · exact hSecond.regular occurrence h
  signals := by
    rw [hSecond.signals, hFirst.signals, List.flatMap_append, List.append_assoc]

/-- One occurrence tells of a change, if it is regular with the signals added by it. -/
theorem single {occasion : Occasion} {added : List Signal}
    (hSignals : final.signals = start.signals.appendList added)
    (hRegular : Occurrence.Regular ⟨occasion, start.scheduler, final.scheduler, added⟩) :
    Follows [start.occurrence final occasion] start final := by
  have hList : final.signals.toList = start.signals.toList ++ added := by
    rw [hSignals]
    exact Array.toList_appendList
  have hAdded : start.occurrence final occasion =
      ⟨occasion, start.scheduler, final.scheduler, added⟩ := by
    rw [occurrence, signalsSince, hList, ← Array.length_toList, List.drop_left]
  rw [hAdded]
  refine ⟨.next ⟨occasion, start.scheduler, final.scheduler, added⟩ (.done _), ?_, ?_⟩
  · simpa using hRegular
  · simpa using hList

end Follows

theorem follows_stop {γ : Type} (run : Run κ γ) :
    Follows [run.progress.occurrence run.stop.progress .ending] run.progress run.stop.progress := by
  have hStop : run.stop.progress.scheduler = { run.progress.scheduler with soundOn := false } ∧
      run.stop.progress.signals =
        run.progress.signals.appendList (switches run.progress.scheduler.soundOn false) := by
    rw [Run.stop, Run.note, Scheduler.silence_eq]
    exact ⟨rfl, rfl⟩
  apply Follows.single hStop.2
  rw [hStop.1]
  exact ⟨rfl, rfl⟩

theorem follows_refreshed (progress : Progress κ) (now : Nat) :
    Follows [progress.occurrence (progress.refreshed now) .beginning] progress
      (progress.refreshed now) := by
  have hSignals : (progress.refreshed now).signals = progress.signals.appendList [] := rfl
  have hSound : (progress.refreshed now).scheduler.soundOn = progress.scheduler.soundOn := by
    by_cases hLate : progress.scheduler.timeline.nextDeadline + maxLag < now
    · rw [refreshed_of_lt hLate, Scheduler.restart]
    · rw [refreshed_of_le (Nat.not_lt.mp hLate)]
  exact .single hSignals (Occurrence.regular_beginning (progress.machine_refreshed now) hSound
    (progress.timeline_refreshed now))

variable [KeyInput κ]

theorem follows_perform (progress : Progress κ) (tick : Tick) :
    Follows [progress.occurrence (progress.perform tick) (.tick tick)] progress
      (progress.perform tick) := by
  cases tick with
  | instruction =>
      have hSignals : (progress.perform .instruction).signals =
          progress.signals.appendList [] := rfl
      exact .single hSignals ⟨⟨κ, inferInstance, progress.keys, rfl⟩, rfl, rfl, rfl⟩
  | timer =>
      let before : Scheduler :=
        { progress.scheduler with timeline := progress.scheduler.timeline.pass .timer }
      have hScheduler : (progress.perform .timer).scheduler = before.tickTimers.value.1 := rfl
      have hSignals : (progress.perform .timer).signals =
          progress.signals.appendList before.tickTimers.value.2 := rfl
      rw [Scheduler.value_tickTimers] at hScheduler hSignals
      apply Follows.single hSignals
      rw [hScheduler]
      exact ⟨Machine.countedDown_iff.mpr rfl, decide_eq_true_iff, rfl, rfl⟩

/-- All that happens while the ticks due at a moment are processed. -/
def tickLog (now : Nat) (progress : Progress κ) : List Occurrence :=
  (progress.course now).map fun (reached, tick) =>
    reached.occurrence (reached.perform tick) (.tick tick)

theorem follows_catchUp (progress : Progress κ) (now : Nat) :
    Follows (progress.tickLog now) progress (progress.catchUp now) := by
  refine course_induction (motive := fun progress course final =>
    Follows (course.map fun (reached, tick) =>
      reached.occurrence (reached.perform tick) (.tick tick)) progress final) ?_ ?_ progress
  · intro progress _
    exact .nil rfl rfl
  · intro progress tick rest final _ hRest
    exact (progress.follows_perform tick).append hRest

/-- All that happens while the work goes on to a moment. -/
def log (now : Nat) (progress : Progress κ) : List Occurrence :=
  progress.occurrence (progress.refreshed now) .beginning :: (progress.refreshed now).tickLog now

theorem follows_advance (progress : Progress κ) (now : Nat) :
    Follows (progress.log now) progress (progress.advance now) :=
  (progress.follows_refreshed now).append ((progress.refreshed now).follows_catchUp now)

theorem occasion_log {now : Nat} {progress : Progress κ} {occurrence : Occurrence}
    (h : occurrence ∈ progress.log now) : occurrence.occasion ≠ .ending := by
  rcases List.mem_cons.mp h with rfl | hTick
  · exact Occasion.noConfusion
  · obtain ⟨⟨reached, tick⟩, -, rfl⟩ := List.mem_map.mp hTick
    exact Occasion.noConfusion

end Progress

namespace Run

variable {κ γ : Type}

theorem follows_ask (host : Host κ) (run : Run κ γ) :
    Progress.Follows [] run.progress (run.ask host).progress :=
  .nil rfl rfl

variable [KeyInput κ] [Clock γ]

/-- All that happens in the rounds of a run. -/
def log (host : Host κ) : Nat → Run κ γ → List Occurrence
  | 0, run => [(run.ask host).progress.occurrence (run.ask host).stop.progress .ending]
  | wanted + 1, run =>
    let asked := run.ask host
    asked.progress.log (Clock.now asked.clock).1 ++
      if asked.advance.progress.fault.isSome then [] else log host wanted asked.advance.sleep

theorem follows_rounds (host : Host κ) (wanted : Nat) (run : Run κ γ) :
    Progress.Follows (run.log host wanted) run.progress (run.rounds host wanted).progress := by
  induction wanted generalizing run with
  | zero => exact (run.follows_ask host).append (Progress.follows_stop (run.ask host))
  | succ wanted ih =>
      let now := (Clock.now (run.ask host).clock).1
      have hAdvance : Progress.Follows ((run.ask host).progress.log now) run.progress
          (run.ask host).advance.progress :=
        (run.follows_ask host).append ((run.ask host).progress.follows_advance now)
      rw [log, rounds]
      by_cases hFault : (run.ask host).advance.progress.fault.isSome = true
      · rw [if_pos hFault, if_pos hFault, List.append_nil]
        exact hAdvance
      · rw [if_neg hFault, if_neg hFault]
        exact hAdvance.append (ih _)

/-- A run that meets no fault ends once, as the last thing that happens; any other run does not. -/
theorem log_rounds (host : Host κ) (wanted : Nat) {run : Run κ γ} (h : run.progress.fault = none) :
    ((run.rounds host wanted).progress.fault = none →
      ∃ earlier last, run.log host wanted = earlier ++ [last] ∧ last.occasion = .ending ∧
        last.after = (run.rounds host wanted).progress.scheduler ∧
        ∀ occurrence ∈ earlier, occurrence.occasion ≠ .ending) ∧
    ((run.rounds host wanted).progress.fault ≠ none →
      ∀ occurrence ∈ run.log host wanted, occurrence.occasion ≠ .ending) := by
  induction wanted generalizing run with
  | zero =>
      have hNone : (run.rounds host 0).progress.fault = none := h
      refine ⟨fun _ => ⟨[], _, rfl, rfl, rfl, by simp⟩, fun hFault => absurd hNone hFault⟩
  | succ wanted ih =>
      have hTicks (occurrence : Occurrence) (hMem : occurrence ∈ (run.ask host).progress.log
          (Clock.now (run.ask host).clock).1) : occurrence.occasion ≠ .ending :=
        Progress.occasion_log hMem
      rw [log, rounds]
      by_cases hFault : (run.ask host).advance.progress.fault.isSome = true
      · rw [if_pos hFault, if_pos hFault, List.append_nil]
        refine ⟨fun hNone => ?_, fun _ => hTicks⟩
        rw [hNone] at hFault
        cases hFault
      · rw [if_neg hFault, if_neg hFault]
        have hNone : (run.ask host).advance.sleep.progress.fault = none :=
          Option.not_isSome_iff_eq_none.mp hFault
        obtain ⟨hEnds, hFails⟩ := ih hNone
        constructor
        · intro hFinal
          obtain ⟨earlier, last, hLog, hLast, hAfter, hEarlier⟩ := hEnds hFinal
          refine ⟨_ ++ earlier, last, by rw [hLog, List.append_assoc], hLast, hAfter, ?_⟩
          exact List.forall_mem_append.mpr ⟨hTicks, hEarlier⟩
        · intro hFinal
          exact List.forall_mem_append.mpr ⟨hTicks, hFails hFinal⟩

end Run

end Chip8
