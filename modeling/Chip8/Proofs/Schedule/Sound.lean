import Chip8.Keys.Keypad
import Chip8.Proofs.Schedule.Occurrences

/-!
The signals of a scheduler over its whole life. It is asked to go on to moments and to run, any
number of times, with keys, clocks and hosts of any kind; some of the work is late and some of it
ends in a fault. Whatever is asked, the sound starts and stops in turn.
-/

namespace Chip8

/-- A run asked of a scheduler. -/
structure RunCall where
  {Keys Time : Type}
  [input : KeyInput Keys]
  [time : Clock Time]
  clock : Time
  keys : Keys
  host : Host Keys
  /-- How many rounds the host wants. -/
  wanted : Nat

attribute [instance] RunCall.input RunCall.time

/-- What a scheduler can be asked to do. -/
inductive Demand
  | advance (call : Call)
  | run (call : RunCall)

def Demand.isRun : Demand → Bool
  | .advance _ => false
  | .run _ => true

/-- What comes of a demand: the scheduler after it, the signals given, the fault that it ended in,
and all that happened to the scheduler meanwhile. -/
structure Fulfilment where
  scheduler : Scheduler
  signals : List Signal
  fault : Option Fault
  log : List Occurrence

/-- What comes of a demand that all progress was made for. -/
def Progress.fulfilment {κ : Type} (progress : Progress κ) (log : List Occurrence) : Fulfilment :=
  ⟨progress.scheduler, progress.signals.toList, progress.fault, log⟩

namespace Scheduler

/-- A run before its first round. -/
def runStart (scheduler : Scheduler) (call : RunCall) : Run call.Keys call.Time :=
  let start : Run call.Keys call.Time := ⟨.start scheduler call.keys, call.clock, 0⟩
  start.note (.running scheduler.machine.config)

def fulfil (scheduler : Scheduler) : Demand → Fulfilment
  | .advance call =>
    (scheduler.call call).fulfilment ((Progress.start scheduler call.keys).log call.now)
  | .run call =>
    (scheduler.run call.clock call.keys call.host call.wanted).progress.fulfilment
      ((scheduler.runStart call).log call.host call.wanted)

/-- The scheduler after demands, one after another. -/
def afterDemands (scheduler : Scheduler) : List Demand → Scheduler
  | [] => scheduler
  | demand :: rest => (scheduler.fulfil demand).scheduler.afterDemands rest

/-- The signals given while demands are fulfilled. -/
def signals (scheduler : Scheduler) : List Demand → List Signal
  | [] => []
  | demand :: rest =>
    (scheduler.fulfil demand).signals ++ (scheduler.fulfil demand).scheduler.signals rest

/-- All that happens while demands are fulfilled. -/
def log (scheduler : Scheduler) : List Demand → List Occurrence
  | [] => []
  | demand :: rest =>
    (scheduler.fulfil demand).log ++ (scheduler.fulfil demand).scheduler.log rest

end Scheduler

/-- Whether a signal starts or stops the sound. -/
def Signal.isSound : Signal → Bool
  | .render _ => false
  | .soundStart | .soundStop => true

/-- The signals that start or stop the sound. -/
def sounds (signals : List Signal) : List Signal :=
  signals.filter Signal.isSound

/-- Whether sounds start and stop in turn, leading from one state of the sound to another. -/
inductive Alternate : Bool → List Signal → Bool → Prop where
  | done (on : Bool) : Alternate on [] on
  | start {rest : List Signal} {final : Bool} (h : Alternate true rest final) :
      Alternate false (.soundStart :: rest) final
  | stop {rest : List Signal} {final : Bool} (h : Alternate false rest final) :
      Alternate true (.soundStop :: rest) final

namespace Alternate

theorem append {first second : List Signal} {on middle final : Bool}
    (hFirst : Alternate on first middle) (hSecond : Alternate middle second final) :
    Alternate on (first ++ second) final := by
  induction hFirst with
  | done => exact hSecond
  | start _ ih => exact .start (ih hSecond)
  | stop _ ih => exact .stop (ih hSecond)

theorem succ_mod_two_iff (n : Nat) (on : Bool) :
    (n + 1) % 2 = (!on).toNat ↔ n % 2 = on.toNat := by
  cases on <;> simp only [Bool.not_true, Bool.not_false, Bool.toNat_true, Bool.toNat_false]
  all_goals omega

/-- Counted from zero, the sounds with even numbers start it if it is off at first. -/
theorem eq_of_getElem? {signals : List Signal} {on final : Bool} (h : Alternate on signals final)
    {n : Nat} {signal : Signal} (hSignal : signals[n]? = some signal) :
    signal = if n % 2 = on.toNat then .soundStart else .soundStop := by
  induction h generalizing n with
  | done => cases hSignal
  | start _ ih =>
      cases n with
      | zero => exact (Option.some.inj hSignal).symm
      | succ n =>
          have hTurn : (n + 1) % 2 = false.toNat ↔ n % 2 = true.toNat := succ_mod_two_iff n true
          rw [ih hSignal]
          simp only [hTurn]
  | stop _ ih =>
      cases n with
      | zero => exact (Option.some.inj hSignal).symm
      | succ n =>
          have hTurn : (n + 1) % 2 = true.toNat ↔ n % 2 = false.toNat := succ_mod_two_iff n false
          rw [ih hSignal]
          simp only [hTurn]

/-- The sound is on in the end if the last signal has started it, or if it was on and there is no
signal. -/
theorem final_iff {signals : List Signal} {on final : Bool} (h : Alternate on signals final) :
    final = true ↔ signals.getLast? = some .soundStart ∨ signals = [] ∧ on = true := by
  induction h with
  | done on => simp
  | @start rest final _ ih =>
      rw [ih]
      cases rest <;> simp
  | @stop rest final _ ih =>
      rw [ih]
      cases rest <;> simp

end Alternate

theorem alternate_switches (before after : Bool) :
    Alternate before (sounds (switches before after)) after := by
  cases before <;> cases after
  · exact .done false
  · exact .start (.done true)
  · exact .stop (.done false)
  · exact .done true

/-- Whatever happens, the sound is switched from the state that it was in. -/
theorem Occurrence.Regular.alternate {occurrence : Occurrence} (h : occurrence.Regular) :
    Alternate occurrence.before.soundOn (sounds occurrence.signals) occurrence.after.soundOn := by
  obtain ⟨occasion, before, after, signals⟩ := occurrence
  cases occasion with
  | beginning =>
      have hSound : after.soundOn = before.soundOn := h.2.1
      obtain rfl : signals = [] := h.2.2.1
      rw [hSound]
      exact .done before.soundOn
  | tick kind =>
      cases kind with
      | instruction =>
          have hSound : after.soundOn = before.soundOn := h.2.1
          obtain rfl : signals = [] := h.2.2.1
          rw [hSound]
          exact .done before.soundOn
      | timer =>
          obtain rfl : signals =
            .render after.machine.screen :: switches before.soundOn after.soundOn := h.2.2.1
          exact alternate_switches before.soundOn after.soundOn
  | ending =>
      obtain ⟨rfl, rfl⟩ : after = { before with soundOn := false } ∧
        signals = switches before.soundOn false := h
      exact alternate_switches before.soundOn false

theorem Occurrence.Regular.soundOn_of_ending {occurrence : Occurrence} (h : occurrence.Regular)
    (hEnding : occurrence.occasion = .ending) : occurrence.after.soundOn = false := by
  obtain ⟨occasion, before, after, signals⟩ := occurrence
  subst hEnding
  obtain ⟨rfl, -⟩ : after = { before with soundOn := false } ∧ _ := h
  rfl

theorem Linked.alternate {start final : Scheduler} {log : List Occurrence}
    (h : Linked start log final) (hRegular : ∀ occurrence ∈ log, occurrence.Regular) :
    Alternate start.soundOn (sounds (log.flatMap Occurrence.signals)) final.soundOn := by
  induction h with
  | done scheduler => exact .done _
  | next first _ ih =>
      obtain ⟨hFirst, hRest⟩ := List.forall_mem_cons.mp hRegular
      rw [List.flatMap_cons, sounds, List.filter_append]
      exact hFirst.alternate.append (ih hRest)

/-- Whether the log of a fulfilment tells how a scheduler became another and which signals were
given meanwhile. -/
structure Fulfilment.Told (fulfilment : Fulfilment) (start : Scheduler) : Prop where
  linked : Linked start fulfilment.log fulfilment.scheduler
  regular : ∀ occurrence ∈ fulfilment.log, occurrence.Regular
  signals : fulfilment.signals = fulfilment.log.flatMap Occurrence.signals

theorem Progress.Follows.told {κ : Type} {log : List Occurrence} {start final : Progress κ}
    (h : Follows log start final) (hNone : start.signals = #[]) :
    (final.fulfilment log).Told start.scheduler where
  linked := h.linked
  regular := h.regular
  signals := by
    have hSignals := h.signals
    rw [hNone] at hSignals
    exact hSignals.trans (List.nil_append _)

namespace Scheduler

theorem told_fulfil (scheduler : Scheduler) (demand : Demand) :
    (scheduler.fulfil demand).Told scheduler := by
  cases demand with
  | advance call =>
      exact ((Progress.start scheduler call.keys).follows_advance call.now).told rfl
  | run call =>
      exact ((scheduler.runStart call).follows_rounds call.host call.wanted).told rfl

theorem log_follows (scheduler : Scheduler) (demands : List Demand) :
    Linked scheduler (scheduler.log demands) (scheduler.afterDemands demands) ∧
      (∀ occurrence ∈ scheduler.log demands, occurrence.Regular) ∧
      scheduler.signals demands = (scheduler.log demands).flatMap Occurrence.signals := by
  induction demands generalizing scheduler with
  | nil => exact ⟨.done scheduler, by simp [log], rfl⟩
  | cons demand rest ih =>
      obtain ⟨hLinked, hRegular, hSignals⟩ := scheduler.told_fulfil demand
      obtain ⟨hLinkedRest, hRegularRest, hSignalsRest⟩ := ih (scheduler.fulfil demand).scheduler
      refine ⟨hLinked.append hLinkedRest, ?_, ?_⟩
      · exact List.forall_mem_append.mpr ⟨hRegular, hRegularRest⟩
      · rw [signals, log, List.flatMap_append, ← hSignals, ← hSignalsRest]

/-- The host ends a run that meets no fault, as the last thing that happens, and nothing else. -/
theorem ending_fulfil (scheduler : Scheduler) (demand : Demand) :
    let result := scheduler.fulfil demand
    (demand.isRun = true → result.fault = none →
      ∃ earlier last, result.log = earlier ++ [last] ∧ last.occasion = .ending ∧
        last.after = result.scheduler ∧ ∀ occurrence ∈ earlier, occurrence.occasion ≠ .ending) ∧
    (demand.isRun = false ∨ result.fault ≠ none →
      ∀ occurrence ∈ result.log, occurrence.occasion ≠ .ending) := by
  cases demand with
  | advance call =>
      refine ⟨fun hRun => absurd hRun Bool.false_ne_true, fun _ occurrence hMem => ?_⟩
      exact Progress.occasion_log hMem
  | run call =>
      have hNone : (scheduler.runStart call).progress.fault = none := rfl
      obtain ⟨hEnds, hFails⟩ := Run.log_rounds call.host call.wanted hNone
      refine ⟨fun _ hFault => hEnds hFault, fun hEither => hFails ?_⟩
      rcases hEither with hAdvance | hFault
      · exact absurd hAdvance.symm Bool.false_ne_true
      · exact hFault

theorem soundOn_of_ofMachine {machine : Machine} {scheduler : Scheduler}
    (h : ofMachine machine = .ok scheduler) : scheduler.soundOn = false := by
  unfold ofMachine at h
  split at h
  · contradiction
  · obtain rfl := Except.ok.inj h
    rfl

/-- Over the whole life of a scheduler every signal is given on its occasion: a timer tick shows the
screen once, as the last instructions have left it, with the timers counted down, and then switches
the sound to whether the sound timer is above one; nothing else gives a signal, but for the end of a
run without a fault, which stops the sound. So the sound starts and stops in turn, and it is on
exactly if the last sound was a start. -/
theorem signals_consistent {machine : Machine} {start : Scheduler}
    (h : ofMachine machine = .ok start) (demands : List Demand) :
    let final := start.afterDemands demands
    let log := start.log demands
    let signals := start.signals demands
    Linked start log final ∧
    (∀ occurrence ∈ log, occurrence.Regular) ∧
    signals = log.flatMap Occurrence.signals ∧
    (∀ n sound, (sounds signals)[n]? = some sound →
      sound = if n % 2 = 0 then .soundStart else .soundStop) ∧
    (final.soundOn = true ↔ (sounds signals).getLast? = some .soundStart) ∧
    ∀ demand,
      let result := final.fulfil demand
      (demand.isRun = true → result.fault = none →
        result.scheduler.soundOn = false ∧
        ∃ earlier last, result.log = earlier ++ [last] ∧ last.occasion = .ending ∧
          last.after = result.scheduler ∧ ∀ occurrence ∈ earlier, occurrence.occasion ≠ .ending) ∧
      (demand.isRun = false ∨ result.fault ≠ none →
        ∀ occurrence ∈ result.log, occurrence.occasion ≠ .ending) := by
  intro final log signals
  obtain ⟨hLinked, hRegular, hSignals⟩ := start.log_follows demands
  have hAlternate : Alternate false (sounds signals) final.soundOn := by
    rw [← soundOn_of_ofMachine h, show signals = _ from hSignals]
    exact hLinked.alternate hRegular
  refine ⟨hLinked, hRegular, hSignals, fun n sound => hAlternate.eq_of_getElem?, ?_, ?_⟩
  · rw [hAlternate.final_iff]
    simp
  · intro demand result
    obtain ⟨hEnds, hElse⟩ := final.ending_fulfil demand
    refine ⟨fun hRun hFault => ?_, hElse⟩
    obtain ⟨earlier, last, hLog, hLast, hAfter, hEarlier⟩ := hEnds hRun hFault
    have hMem : last ∈ result.log := by
      rw [hLog]
      exact List.mem_append_right earlier (List.mem_singleton_self last)
    have hSilent : last.after.soundOn = false :=
      ((final.told_fulfil demand).regular last hMem).soundOn_of_ending hLast
    exact ⟨hAfter ▸ hSilent, earlier, last, hLog, hLast, hAfter, hEarlier⟩

/-- A scheduler whose sound timer is set goes on past a timer tick, which starts the sound; the host
ends the run after it at once, which stops the sound. -/
theorem signals_consistent_of_beep :
    let machine : Machine :=
      { Machine.initial { frequency := 1 } (.ofSeed 0) with
          registers := { Registers.initial with sound := 3 } }
    let start : Scheduler := ⟨machine, ⟨1, by decide, 0, 0, 0⟩, false⟩
    let demands : List Demand :=
      [.advance ⟨20000000, Keypad.initial⟩,
        .run ⟨VirtualClock.initial, Keypad.initial, fun _ keys => pure keys, 0⟩]
    ofMachine machine = .ok start ∧
    sounds (start.signals demands) = [.soundStart, .soundStop] ∧
    (∀ occurrence ∈ start.log demands, occurrence.Regular) ∧
    (∀ n sound, (sounds (start.signals demands))[n]? = some sound →
      sound = if n % 2 = 0 then .soundStart else .soundStop) ∧
    ((start.afterDemands demands).soundOn = true ↔
      (sounds (start.signals demands)).getLast? = some .soundStart) := by
  intro machine start demands
  let begun : Progress Keypad := .start start Keypad.initial
  let ticked : Progress Keypad := begun.perform .timer
  let call : RunCall := ⟨VirtualClock.initial, Keypad.initial, fun _ keys => pure keys, 0⟩
  have hDue : 20000000 ≤ begun.scheduler.timeline.nextDeadline + maxLag ∧
      begun.due? 20000000 = some .timer ∧ ticked.due? 20000000 = none := by
    decide +kernel +revert
  have hSounds : sounds ticked.signals.toList = [.soundStart] ∧
      sounds (ticked.scheduler.fulfil (.run call)).signals = [.soundStop] := by
    decide +kernel +revert
  obtain ⟨hPrompt, hTimer, hNone⟩ := hDue
  have hAdvance : start.advance 20000000 Keypad.initial = ticked :=
    Progress.advance_eq_perform hPrompt hTimer hNone
  have hSignals : start.signals demands =
      ticked.signals.toList ++ ((ticked.scheduler.fulfil (.run call)).signals ++ []) := by
    rw [← hAdvance]
    rfl
  have hBeep : sounds (start.signals demands) = [.soundStart, .soundStop] := by
    rw [hSignals, List.append_nil, sounds, List.filter_append, ← sounds, ← sounds, hSounds.1,
      hSounds.2]
    rfl
  have hStart : ofMachine machine = .ok start := rfl
  obtain ⟨-, hRegular, -, hTurns, hLast, -⟩ := signals_consistent hStart demands
  exact ⟨hStart, hBeep, hRegular, hTurns, hLast⟩

end Scheduler

end Chip8
