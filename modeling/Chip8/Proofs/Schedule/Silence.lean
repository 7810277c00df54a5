import Chip8.Proofs.Schedule.Sound

/-!
Whether a run leaves the sound on. The host's end of a run switches it off; a fault switches
nothing, so that the sound stays as the last timer tick has left it, and a start may go without a
stop.
-/

namespace Chip8

/-- Whether every start of the sound is followed by a stop. -/
def Answered (signals : List Signal) : Prop :=
  ∀ earlier later, signals = earlier ++ .soundStart :: later → .soundStop ∈ later

theorem answered_nil : Answered [] := by
  intro earlier later hSplit
  simp at hSplit

theorem answered_cons {signal : Signal} {rest : List Signal} :
    Answered (signal :: rest) ↔ (signal = .soundStart → .soundStop ∈ rest) ∧ Answered rest := by
  constructor
  · intro h
    refine ⟨fun hStart => h [] rest (by rw [hStart]; rfl), fun earlier later hSplit => ?_⟩
    exact h (signal :: earlier) later (by rw [hSplit]; rfl)
  · rintro ⟨hFirst, hRest⟩ earlier later hSplit
    cases earlier with
    | nil =>
        obtain ⟨hStart, rfl⟩ := List.cons.inj hSplit
        exact hFirst hStart
    | cons _ earlier => exact hRest earlier later (List.cons.inj hSplit).2

/-- Showing the screen makes no difference to the sound. -/
theorem answered_sounds (signals : List Signal) : Answered (sounds signals) ↔ Answered signals := by
  have hStop (rest : List Signal) : Signal.soundStop ∈ sounds rest ↔ .soundStop ∈ rest := by
    simp [sounds, Signal.isSound]
  induction signals with
  | nil => rfl
  | cons signal rest ih =>
      rw [answered_cons]
      cases signal with
      | render screen => exact ih.trans (by simp)
      | soundStart =>
          exact answered_cons.trans (and_congr (imp_congr_right fun _ => hStop rest) ih)
      | soundStop => exact answered_cons.trans (and_congr (by simp) ih)

/-- If the sound starts and stops in turn, it is off in the end exactly if every start is followed
by a stop, and one that it was on at first as well. -/
theorem Alternate.final_eq_false_iff {signals : List Signal} {on final : Bool}
    (h : Alternate on signals final) :
    final = false ↔ (on = true → .soundStop ∈ signals) ∧ Answered signals := by
  induction h with
  | done on => simp [answered_nil]
  | start _ ih => simp [ih, answered_cons]
  | stop _ ih => simp [ih, answered_cons]

/-- Whether the sound is switched on an occasion, or left on or off. -/
def Occasion.switches : Occasion → Bool
  | .tick .timer | .ending => true
  | .tick .instruction | .beginning => false

/-- Whether a timer tick leaves more than one on the sound timer. -/
def Occurrence.IsAudible (occurrence : Occurrence) : Prop :=
  occurrence.occasion = .tick .timer ∧ 1 < occurrence.after.machine.registers.sound

/-- Whether the last thing in a log that switches the sound is an audible timer tick. -/
def EndsAudible (log : List Occurrence) : Prop :=
  ∃ earlier tick later, log = earlier ++ tick :: later ∧ tick.IsAudible ∧
    ∀ occurrence ∈ later, occurrence.occasion.switches = false

theorem not_endsAudible_nil : ¬ EndsAudible [] := by
  rintro ⟨earlier, tick, later, hSplit, -⟩
  simp at hSplit

theorem endsAudible_cons {first : Occurrence} {rest : List Occurrence} :
    EndsAudible (first :: rest) ↔ EndsAudible rest ∨
      first.IsAudible ∧ ∀ occurrence ∈ rest, occurrence.occasion.switches = false := by
  constructor
  · rintro ⟨earlier, tick, later, hSplit, hTick, hLater⟩
    cases earlier with
    | nil =>
        obtain ⟨rfl, rfl⟩ := List.cons.inj hSplit
        exact .inr ⟨hTick, hLater⟩
    | cons _ earlier => exact .inl ⟨earlier, tick, later, (List.cons.inj hSplit).2, hTick, hLater⟩
  · rintro (⟨earlier, tick, later, rfl, hTick, hLater⟩ | ⟨hFirst, hRest⟩)
    · exact ⟨first :: earlier, tick, later, rfl, hTick, hLater⟩
    · exact ⟨[], first, rest, rfl, hFirst, hRest⟩

/-- Where the sound is switched, it is on afterwards if the occurrence is an audible tick; elsewhere
it stays as it is. -/
theorem Occurrence.Regular.soundOn_after_iff {occurrence : Occurrence} (h : occurrence.Regular) :
    occurrence.after.soundOn = true ↔ occurrence.IsAudible ∨
      occurrence.occasion.switches = false ∧ occurrence.before.soundOn = true := by
  obtain ⟨occasion, before, after, signals⟩ := occurrence
  cases occasion with
  | beginning =>
      have hSound : after.soundOn = before.soundOn := h.2.1
      simp [IsAudible, Occasion.switches, hSound]
  | tick kind =>
      cases kind with
      | instruction =>
          have hSound : after.soundOn = before.soundOn := h.2.1
          simp [IsAudible, Occasion.switches, hSound]
      | timer =>
          have hSound : after.soundOn = true ↔ 1 < after.machine.registers.sound := h.2.1
          simp [IsAudible, Occasion.switches, hSound]
  | ending =>
      have hSound : after.soundOn = false := h.soundOn_of_ending rfl
      simp [IsAudible, Occasion.switches, hSound]

/-- The sound is on in the end if the last thing that switches it is an audible tick, or if it was
on and nothing switches it. -/
theorem Linked.soundOn_iff {start final : Scheduler} {log : List Occurrence}
    (h : Linked start log final) (hRegular : ∀ occurrence ∈ log, occurrence.Regular) :
    final.soundOn = true ↔ EndsAudible log ∨
      start.soundOn = true ∧ ∀ occurrence ∈ log, occurrence.occasion.switches = false := by
  induction h with
  | done scheduler => simp [not_endsAudible_nil]
  | next first _ ih =>
      obtain ⟨hFirst, hRest⟩ := List.forall_mem_cons.mp hRegular
      rw [ih hRest, hFirst.soundOn_after_iff, endsAudible_cons, List.forall_mem_cons,
        or_and_right, or_assoc, and_assoc, and_left_comm]

namespace Scheduler

/-- A run that meets no fault leaves the sound off. Whatever a scheduler was asked before, and
whether the run meets a fault or not, the sound is off afterwards exactly if every start so far was
followed by a stop, and on exactly if the last timer tick since the end of an earlier run has left
more than one on the sound timer. -/
theorem run_ends_silent_without_fault {machine : Machine} {start : Scheduler}
    (h : ofMachine machine = .ok start) (demands : List Demand) (call : RunCall) :
    let before := start.afterDemands demands
    let result := before.fulfil (.run call)
    let signals := start.signals demands ++ result.signals
    let log := start.log demands ++ result.log
    (result.fault = none → result.scheduler.soundOn = false) ∧
    (result.scheduler.soundOn = false ↔ Answered signals) ∧
    (result.scheduler.soundOn = true ↔ EndsAudible log) := by
  intro before result signals log
  have hOff := soundOn_of_ofMachine h
  obtain ⟨hLinked, hRegular, hSignals⟩ := start.log_follows demands
  obtain ⟨hLinkedRun, hRegularRun, hSignalsRun⟩ := before.told_fulfil (.run call)
  have hAll : Linked start log result.scheduler := hLinked.append hLinkedRun
  have hAllRegular : ∀ occurrence ∈ log, occurrence.Regular :=
    List.forall_mem_append.mpr ⟨hRegular, hRegularRun⟩
  have hAllSignals : signals = log.flatMap Occurrence.signals := by
    rw [List.flatMap_append, ← hSignals, ← hSignalsRun]
  refine ⟨fun hFault => ?_, ?_, ?_⟩
  · obtain ⟨earlier, last, hLog, hLast, hAfter, -⟩ :=
      (before.ending_fulfil (.run call)).1 rfl hFault
    have hMem : last ∈ result.log := by
      rw [hLog]
      exact List.mem_append_right earlier (List.mem_singleton_self last)
    rw [← hAfter]
    exact (hRegularRun last hMem).soundOn_of_ending hLast
  · rw [(hAll.alternate hAllRegular).final_eq_false_iff, answered_sounds, ← hAllSignals]
    simp [hOff]
  · rw [hAll.soundOn_iff hAllRegular]
    simp [hOff]

/-- The sound is on when a run begins that the host declines at once. -/
theorem run_ends_silent_without_fault_in_tone :
    let machine : Machine :=
      { Machine.initial { frequency := 1 } (.ofSeed 0) with
          registers := { Registers.initial with sound := 3 } }
    let start : Scheduler := ⟨machine, ⟨1, by decide, 0, 0, 0⟩, false⟩
    let demands : List Demand := [.advance ⟨20000000, Keypad.initial⟩]
    let call : RunCall := ⟨VirtualClock.initial, Keypad.initial, fun _ keys => pure keys, 0⟩
    let result := (start.afterDemands demands).fulfil (.run call)
    ofMachine machine = .ok start ∧
    (start.afterDemands demands).soundOn = true ∧
    result.fault = none ∧
    result.scheduler.soundOn = false ∧
    Answered (start.signals demands ++ result.signals) := by
  intro machine start demands call result
  let begun : Progress Keypad := .start start Keypad.initial
  have hDue : 20000000 ≤ begun.scheduler.timeline.nextDeadline + maxLag ∧
      begun.due? 20000000 = some .timer ∧ (begun.perform .timer).due? 20000000 = none ∧
      (begun.perform .timer).scheduler.soundOn = true := by
    decide +kernel +revert
  obtain ⟨hPrompt, hTimer, hNone, hSound⟩ := hDue
  have hAdvance : begun.advance 20000000 = begun.perform .timer := by
    rw [Progress.advance_eq_catchUp, Progress.refreshed_of_le hPrompt,
      Progress.catchUp_of_due?_eq_some hTimer, Progress.catchUp_of_due?_eq_none hNone]
  have hBefore : start.afterDemands demands = (begun.perform .timer).scheduler :=
    congrArg Progress.scheduler hAdvance
  have hStart : ofMachine machine = .ok start := rfl
  have hFault : result.fault = none := rfl
  obtain ⟨hEnds, hAnswered, -⟩ := run_ends_silent_without_fault hStart demands call
  refine ⟨hStart, ?_, hFault, hEnds hFault, hAnswered.mp (hEnds hFault)⟩
  rw [hBefore, hSound]

/-- A program that sets the sound timer and returns from no call. The tick before the return starts
the sound, and the fault leaves it on. -/
theorem run_ends_sounding_after_fault :
    let machine : Machine :=
      { Machine.initial { frequency := 150, strict := true } (.ofSeed 0) with
          memory := Memory.initial.install 0x200 [0x60, 0xFF, 0xF0, 0x18, 0x00, 0xEE] }
    let start : Scheduler := ⟨machine, ⟨150, by decide, 0, 0, 0⟩, false⟩
    let call : RunCall := ⟨(⟨20000000⟩ : VirtualClock), Keypad.initial, fun _ keys => pure keys, 1⟩
    let result := start.fulfil (.run call)
    ofMachine machine = .ok start ∧
    result.fault = some .stackUnderflow ∧
    result.scheduler.soundOn = true ∧
    sounds result.signals = [.soundStart] := by
  intro machine start call result
  -- Two instructions are due before the timer tick, and the return is due at the moment itself.
  let asked : Progress Keypad := ((start.runStart call).ask call.host).progress
  let set := (asked.perform .instruction).perform .instruction
  let sounding := set.perform .timer
  let final := sounding.perform .instruction
  have hDue : 20000000 ≤ asked.scheduler.timeline.nextDeadline + maxLag ∧
      asked.due? 20000000 = some .instruction ∧
      (asked.perform .instruction).due? 20000000 = some .instruction ∧
      set.due? 20000000 = some .timer ∧ sounding.due? 20000000 = some .instruction ∧
      final.due? 20000000 = none := by
    decide +kernel +revert
  have hFinal : final.fault = some .stackUnderflow ∧ final.scheduler.soundOn = true ∧
      sounds final.signals.toList = [.soundStart] := by
    decide +kernel +revert
  obtain ⟨hPrompt, hFirst, hSecond, hTimer, hReturn, hNone⟩ := hDue
  have hAdvance : asked.advance 20000000 = final := by
    rw [Progress.advance_eq_catchUp, Progress.refreshed_of_le hPrompt,
      Progress.catchUp_of_due?_eq_some hFirst, Progress.catchUp_of_due?_eq_some hSecond,
      Progress.catchUp_of_due?_eq_some hTimer, Progress.catchUp_of_due?_eq_some hReturn,
      Progress.catchUp_of_due?_eq_none hNone]
  obtain ⟨hFault, hSound, hSignals⟩ := hFinal
  have hRun : (start.run call.clock call.keys call.host call.wanted).progress = final := by
    have hStopped : ((start.runStart call).ask call.host).advance.progress.fault.isSome = true := by
      rw [show ((start.runStart call).ask call.host).advance.progress = final from hAdvance, hFault]
      rfl
    rw [show start.run call.clock call.keys call.host call.wanted =
      (start.runStart call).rounds call.host 1 from rfl, Run.rounds, if_pos hStopped]
    exact hAdvance
  have hResult : result.fault = final.fault ∧ result.scheduler = final.scheduler ∧
      result.signals = final.signals.toList := by
    rw [← hRun]
    exact ⟨rfl, rfl, rfl⟩
  obtain ⟨hSameFault, hSameScheduler, hSameSignals⟩ := hResult
  refine ⟨rfl, hSameFault.trans hFault, ?_, ?_⟩
  · rw [hSameScheduler, hSound]
  · rw [hSameSignals, hSignals]

end Scheduler

end Chip8
